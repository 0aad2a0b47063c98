import ClassDeps.Text.Hex
import ClassDeps.Text.Split

namespace ClassDeps

namespace Ipv4

/-- The number that digits spell in a base, if they are digits of the base. -/
def number? (base : Nat) (digits : List Char) : Option Nat :=
  digits.foldlM (fun n c => do
    let digit ← Text.hexDigit? c
    if digit < base then some (base * n + digit) else none) 0

/-- A part of an address: a number in base sixteen after `0x`, eight after `0`, and else ten. -/
def part? : List Char → Option Nat
  | [] => none
  | '0' :: 'x' :: digits => number? 16 digits
  | '0' :: digits => number? 8 digits
  | digits => number? 10 digits

/-- The parts of an address, of which an empty last one does not count. -/
def parts (name : List Char) : List (List Char) :=
  let all := Text.splitAll '.' name
  if all.getLast? = some [] && 1 < all.length then all.dropLast else all

/-- Whether a name has to be an address, which it has if its last part is a number. -/
def isMeant (name : List Char) : Bool :=
  match (parts name).getLast? with
  | none | some [] => false
  | some last => last.all Char.isDigit || (part? last).isSome

/-- The address of a name. The last part of fewer than four fills the rest of the 32 bits. -/
def ofName? (name : List Char) : Option Nat := do
  let numbers ← (parts name).mapM part?
  let last ← numbers.getLast?
  let first := numbers.dropLast
  let unit := Nat.pow 256 (4 - first.length)
  if first.length < 4 ∧ last < unit ∧ first.all (· < 256) then
    some (first.foldl (fun n part => n * 256 + part) 0 * unit + last)
  else none

def text (address : Nat) : List Char :=
  let byte (i : Nat) : String := toString (address / Nat.pow 256 i % 256)
  (".".intercalate [byte 3, byte 2, byte 1, byte 0]).toList

end Ipv4

namespace Ipv6

/-- Cuts a text at its first pair of colons, which stands for groups that are zero. -/
def splitGap? : List Char → Option (List Char × List Char)
  | [] => none
  | ':' :: ':' :: rest => some ([], rest)
  | c :: rest => (splitGap? rest).map fun parts => (c :: parts.1, parts.2)

/-- A group of one to four digits. -/
def group? (digits : List Char) : Option Nat :=
  if digits.isEmpty || 4 < digits.length then none else Ipv4.number? 16 digits

/-- A byte in base ten, with no zero in front. -/
def byte? (digits : List Char) : Option Nat := do
  let n ← Ipv4.number? 10 digits
  if n < 256 ∧ (toString n).toList = digits then some n else none

/-- Two groups that are written as four bytes with dots. -/
def dotted? (text : List Char) : Option (List Nat) :=
  match (Text.splitAll '.' text).mapM byte? with
  | some [a, b, c, d] => some [a * 256 + b, c * 256 + d]
  | _ => none

/-- The groups between colons; only the last of an address may have dots. -/
def groups? (isLast : Bool) (text : List Char) : Option (List Nat) :=
  if text.isEmpty then some []
  else
    let parts := Text.splitAll ':' text
    do
      let first ← parts.dropLast.mapM group?
      let last := parts.getLastD []
      let rest ← if isLast && last.contains '.' then dotted? last else (group? last).map ([·])
      some (first ++ rest)

/-- The eight groups of an address. -/
def ofText? (text : List Char) : Option (List Nat) :=
  match splitGap? text with
  | none => do
    let groups ← groups? true text
    if groups.length = 8 then some groups else none
  | some (before, after) => do
    let first ← groups? false before
    let last ← groups? true after
    let known := first.length + last.length
    if known < 8 then some (first ++ List.replicate (8 - known) 0 ++ last) else none

/-- How many zeros begin at each place. -/
def zeroRuns : List Nat → List Nat
  | [] => []
  | group :: rest =>
    let runs := zeroRuns rest
    (if group = 0 then runs.headD 0 + 1 else 0) :: runs

/-- The groups in base sixteen, with the first of the longest runs of zeros left out. -/
def text (groups : List Nat) : List Char :=
  let join (part : List Nat) : String := ":".intercalate (part.map (Text.hex 1))
  let runs := zeroRuns groups
  let longest := runs.foldl max 0
  if longest < 2 then (join groups).toList
  else
    let start := runs.idxOf longest
    (join (groups.take start) ++ "::" ++ join (groups.drop (start + longest))).toList

end Ipv6

end ClassDeps
