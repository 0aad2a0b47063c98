namespace ClassDeps.Punycode

def isBasic (c : Char) : Bool := c.toNat < 128

def digit (n : Nat) : Char :=
  if n < 26 then Char.ofNat ('a'.toNat + n) else Char.ofNat ('0'.toNat + n - 26)

def digitValue? (c : Char) : Option Nat :=
  if c.isLower then some (c.toNat - 'a'.toNat)
  else if c.isUpper then some (c.toNat - 'A'.toNat)
  else if c.isDigit then some (c.toNat - '0'.toNat + 26)
  else none

/-- A digit below this one is the last of its number. The argument is how many came before. -/
def threshold (bias i : Nat) : Nat :=
  min 26 (max 1 (36 * (i + 1) - bias))

theorem threshold_pos (bias i : Nat) : 0 < threshold bias i := by
  unfold threshold
  omega

theorem threshold_le (bias i : Nat) : threshold bias i ≤ 26 := Nat.min_le_left ..

def adaptFrom (delta : Nat) : Nat :=
  if delta ≤ 455 then 36 * delta / (delta + 38) else 36 + adaptFrom (delta / 35)
termination_by delta
decreasing_by omega

/-- The bias after a distance, with so many characters written so far. -/
def adapt (isFirst : Bool) (delta size : Nat) : Nat :=
  let scaled := if isFirst then delta / 700 else delta / 2
  adaptFrom (scaled + scaled / size)

/-- The digits of a distance, the lowest first. -/
def digits (bias i n : Nat) : List Char :=
  let t := threshold bias i
  if n < t then [digit n]
  else digit (t + (n - t) % (36 - t)) :: digits bias (i + 1) ((n - t) / (36 - t))
termination_by n
decreasing_by
  have := threshold_pos bias i
  exact Nat.lt_of_le_of_lt (Nat.div_le_self ..) (by omega)

/-- What has been written: how many characters, and the distance that has been passed since the
last. -/
structure Writer where
  output : List Char
  size : Nat
  bias : Nat
  delta : Nat

/-- Passes a character of the text, or writes it if it is the one whose turn it is. -/
def Writer.pass (basic code : Nat) (w : Writer) (c : Char) : Writer :=
  if c.toNat < code then { w with delta := w.delta + 1 }
  else if c.toNat = code then {
    output := w.output ++ digits w.bias 0 w.delta
    size := w.size + 1
    bias := adapt (w.size = basic) w.delta (w.size + 1)
    delta := 0 }
  else w

/-- Writes the characters with these code points, which are in order. -/
def writeCodes (text : List Char) (basic : Nat) : Nat → List Nat → Writer → List Char
  | _, [], w => w.output
  | start, code :: rest, w =>
    let moved := { w with delta := w.delta + (code - start) * (w.size + 1) }
    let passed := text.foldl (Writer.pass basic code) moved
    writeCodes text basic (code + 1) rest { passed with delta := passed.delta + 1 }

def encode (text : List Char) : List Char :=
  let basic := text.filter isBasic
  let codes := ((text.filter (!isBasic ·)).map Char.toNat).mergeSort.eraseReps
  let output := if basic.isEmpty then [] else basic ++ ['-']
  writeCodes text basic.length 128 codes ⟨output, basic.length, 72, 0⟩

/-- What has been read, with the number that is being read: how many digits it has so far, what
the next is worth, and its value. -/
structure Reading where
  output : List Char
  code : Nat
  place : Nat
  bias : Nat
  count : Nat
  weight : Nat
  delta : Nat

/-- Puts in the character that a distance leads to. -/
def Reading.advance (r : Reading) (delta : Nat) : Option Reading :=
  let size := r.output.length + 1
  let code := r.code + (r.place + delta) / size
  let place := (r.place + delta) % size
  if code.isValidChar then
    some {
      output := r.output.take place ++ Char.ofNat code :: r.output.drop place
      code
      place := place + 1
      bias := adapt (r.place = 0) delta size
      count := 0
      weight := 1
      delta := 0 }
  else none

def Reading.step (r : Reading) (c : Char) : Option Reading := do
  let n ← digitValue? c
  let t := threshold r.bias r.count
  let delta := r.delta + n * r.weight
  if n < t then r.advance delta
  else some { r with count := r.count + 1, weight := r.weight * (36 - t), delta }

/-- The characters of ASCII, which end at the last hyphen, and the digits after them. -/
def splitBasic (text : List Char) : List Char × List Char :=
  let digits := (text.reverse.takeWhile (· ≠ '-')).reverse
  let rest := text.take (text.length - digits.length)
  if rest.length ≤ 1 then ([], text) else (rest.dropLast, digits)

def decode? (text : List Char) : Option (List Char) := do
  let (basic, digits) := splitBasic text
  let r ← digits.foldlM Reading.step ⟨basic, 128, 0, 72, 0, 1, 0⟩
  if r.count = 0 ∧ basic.all isBasic then some r.output else none

end ClassDeps.Punycode
