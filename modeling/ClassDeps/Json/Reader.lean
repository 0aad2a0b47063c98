import ClassDeps.Json.Basic
import ClassDeps.Text.Hex

namespace ClassDeps.Json

inductive Reason where
  | endOfValue
  | endOfList
  | endOfObject
  | endOfString
  | expectedValue
  | expectedIdent
  | expectedColon
  | expectedListComma
  | expectedObjectComma
  | keyNotString
  | trailingComma
  | trailingCharacters
  | invalidNumber
  | numberOutOfRange
  | controlCharacter
  | invalidEscape
  | unpairedEscape
  | loneSurrogate
  | tooDeep
deriving DecidableEq, Repr

def Reason.message : Reason → String
  | endOfValue => "EOF while parsing a value"
  | endOfList => "EOF while parsing a list"
  | endOfObject => "EOF while parsing an object"
  | endOfString => "EOF while parsing a string"
  | expectedValue => "expected value"
  | expectedIdent => "expected ident"
  | expectedColon => "expected `:`"
  | expectedListComma => "expected `,` or `]`"
  | expectedObjectComma => "expected `,` or `\x7d`"
  | keyNotString => "key must be a string"
  | trailingComma => "trailing comma"
  | trailingCharacters => "trailing characters"
  | invalidNumber => "invalid number"
  | numberOutOfRange => "number out of range"
  | controlCharacter => "control character (\\u0000-\\u001F) found while parsing a string"
  | invalidEscape => "invalid escape"
  | unpairedEscape => "unexpected end of hex escape"
  | loneSurrogate => "lone leading surrogate in hex escape"
  | tooDeep => "recursion limit exceeded"

/-- A fault with the characters that were left, and how many bytes of them it had seen. -/
structure Fault where
  reason : Reason
  rest : List Char
  seen : Nat
deriving DecidableEq, Repr

structure ReadError where
  reason : Reason
  line : Nat
  column : Nat
deriving DecidableEq, Repr

def ReadError.message (e : ReadError) : String :=
  e.reason.message ++ " at line " ++ toString e.line ++ " column " ++ toString e.column

abbrev Reader := StateT (List Char) (Except Fault)

namespace Reader

def fail {α : Type} (reason : Reason) (seen : Nat) : Reader α :=
  fun rest => .error ⟨reason, rest, seen⟩

def peek : Reader (Option Char) := do return (← get).head?

def skip (n : Nat) : Reader Unit := modify (·.drop n)

def isBlank (c : Char) : Bool := c = ' ' || c = '\n' || c = '\t' || c = '\r'

def blanks : Reader Unit := modify (·.dropWhile isBlank)

/-- The next character that is no blank, left in place. -/
def peekPastBlanks : Reader (Option Char) := do
  blanks
  peek

def byteLength (cs : List Char) : Nat := (cs.map Char.utf8Size).foldr (· + ·) 0

/-- What is left of a word after its first character. -/
def word : List Char → Reader Unit
  | [] => return
  | c :: cs => do
    match ← peek with
    | none => fail .endOfValue 0
    | some x =>
      if x = c then
        skip 1
        word cs
      else fail .expectedIdent 1

/-- Appends digits to `n` up to the first that would pass `limit`, and counts those left over. -/
def absorb (limit : Nat) : Nat → List Char → Nat × Nat
  | n, [] => (n, 0)
  | n, c :: cs =>
    let next := n * 10 + (c.toNat - '0'.toNat)
    if limit < next then (n, cs.length + 1) else absorb limit next cs

def peekDigits : Reader (List Char) := do return (← get).takeWhile Char.isDigit

def float (negative : Bool) (significand : Nat) (e : Int) : Reader Number :=
  match Binary64.ofScientific? significand e with
  | some x => return .float negative x
  | none => fail .numberOutOfRange 0

/-- The integer, or a float where 64 bits do not hold it or it is a negative zero. -/
def integer (negative : Bool) (n : Nat) : Reader Number :=
  if !negative then return .natural n
  else if n = 0 ∨ Nat.pow 2 63 < n then float true n 0
  else return .negative n

/-- After the `e`. An exponent that does not fit 32 bits makes zero of the number, unless it makes
it too large. -/
def exponent (negative : Bool) (significand : Nat) (start : Int) : Reader Number := do
  let sign ← peek
  if sign = some '+' ∨ sign = some '-' then skip 1
  let digits ← peekDigits
  if digits.isEmpty then
    match ← peek with
    | none => fail .endOfValue 0
    | some _ => fail .invalidNumber 1
  else
    let (e, excess) := absorb (Nat.pow 2 31 - 1) 0 digits
    if excess = 0 then
      skip digits.length
      float negative significand (if sign = some '-' then start - e else start + e)
    else if significand ≠ 0 ∧ sign ≠ some '-' then
      skip (digits.length - excess + 1)
      fail .numberOutOfRange 0
    else
      skip digits.length
      return .float negative .zero

def scaled (negative : Bool) (significand : Nat) (e : Int) : Reader Number := do
  match ← peek with
  | some 'e' | some 'E' =>
    skip 1
    exponent negative significand e
  | _ => float negative significand e

/-- After the point. Digits beyond the precision of the significand are dropped. -/
def fraction (negative : Bool) (significand : Nat) (start : Int) : Reader Number := do
  let digits ← peekDigits
  skip digits.length
  if digits.isEmpty then
    match ← peek with
    | none => fail .endOfValue 1
    | some _ => fail .invalidNumber 1
  else
    let (significand, excess) := absorb (Nat.pow 2 64 - 1) significand digits
    scaled negative significand (start - (digits.length - excess : Nat))

/-- A number after its sign. -/
def number (negative : Bool) : Reader Number := do
  let digits ← peekDigits
  match digits with
  | [] =>
    match ← peek with
    | none => fail .endOfValue 0
    | some _ => fail .invalidNumber 1
  | '0' :: _ :: _ => fail .invalidNumber 2
  | _ =>
    skip digits.length
    let (significand, excess) := absorb (Nat.pow 2 64 - 1) 0 digits
    match ← peek with
    | some '.' =>
      skip 1
      fraction negative significand excess
    | some 'e' | some 'E' => scaled negative significand excess
    | _ => if excess = 0 then integer negative significand else float negative significand excess

/-- Four hexadecimal digits. -/
def hexUnit : Reader Nat := do
  let cs := (← get).take 4
  if byteLength cs < 4 then fail .endOfString 4
  else
    match cs.mapM Text.hexDigit? with
    | some digits =>
      skip 4
      return digits.foldl (fun n d => n * 16 + d) 0
    | none => fail .invalidEscape 4

/-- A character that the second half of a surrogate pair begins with. -/
def pairMark (c : Char) : Reader Unit := do
  match ← peek with
  | none => fail .endOfString 0
  | some x => if x = c then skip 1 else fail .unpairedEscape 1

/-- The character of one hexadecimal escape, or of two that make a surrogate pair. -/
def unicodeEscape : Reader Char := do
  let unit ← hexUnit
  if 0xDC00 ≤ unit ∧ unit ≤ 0xDFFF then fail .loneSurrogate 0
  else if 0xD800 ≤ unit ∧ unit ≤ 0xDBFF then
    pairMark '\\'
    pairMark 'u'
    let low ← hexUnit
    if 0xDC00 ≤ low ∧ low ≤ 0xDFFF then
      return Char.ofNat (0x10000 + (unit - 0xD800) * 0x400 + (low - 0xDC00))
    else fail .loneSurrogate 0
  else return Char.ofNat unit

def shortEscape? : Char → Option Char
  | '"' => some '"'
  | '\\' => some '\\'
  | '/' => some '/'
  | 'b' => some '\x08'
  | 'f' => some '\x0c'
  | 'n' => some '\n'
  | 'r' => some '\r'
  | 't' => some '\t'
  | _ => none

/-- After the backslash. -/
def escape : Reader Char := do
  match ← peek with
  | none => fail .endOfString 0
  | some 'u' =>
    skip 1
    unicodeEscape
  | some c =>
    match shortEscape? c with
    | some x =>
      skip 1
      return x
    | none => fail .invalidEscape 1

/-- The characters up to the closing quote, of which there are at most `bound`. -/
def characters : Nat → Reader (List Char)
  | 0 => fail .endOfString 0
  | bound + 1 => do
    match ← peek with
    | none => fail .endOfString 0
    | some '"' =>
      skip 1
      return []
    | some '\\' =>
      skip 1
      let c ← escape
      return c :: (← characters bound)
    | some c =>
      if c.toNat < 0x20 then fail .controlCharacter 1
      else
        skip 1
        return c :: (← characters bound)

/-- A string after its opening quote. -/
def string : Reader String := do
  return String.ofList (← characters ((← get).length + 1))

/-- The values after `[` or after one of them, of which there are at most `bound`. -/
def items (item : Reader Json) : Nat → Bool → Reader (List Json)
  | 0, _ => fail .endOfList 1
  | bound + 1, first => do
    match ← peekPastBlanks with
    | none => fail .endOfList 1
    | some ']' =>
      skip 1
      return []
    | some c =>
      if !first then
        if c = ',' then
          skip 1
          match ← peekPastBlanks with
          | none => fail .endOfValue 1
          | some ']' => fail .trailingComma 1
          | some _ => pure ()
        else fail .expectedListComma 1
      let x ← item
      return x :: (← items item bound false)

/-- A key, its colon and its value. -/
def field (item : Reader Json) : Reader (String × Json) := do
  skip 1
  let key ← string
  match ← peekPastBlanks with
  | none => fail .endOfObject 1
  | some ':' =>
    skip 1
    return (key, ← item)
  | some _ => fail .expectedColon 1

/-- The fields after the opening brace or after one of them, of which there are at most `bound`. -/
def fields (item : Reader Json) : Nat → Bool → Reader (List (String × Json))
  | 0, _ => fail .endOfObject 1
  | bound + 1, first => do
    match ← peekPastBlanks with
    | none => fail .endOfObject 1
    | some '\x7d' =>
      skip 1
      return []
    | some c =>
      if first then
        if c ≠ '"' then fail .keyNotString 1
      else if c = ',' then
        skip 1
        match ← peekPastBlanks with
        | none => fail .endOfValue 1
        | some '"' => pure ()
        | some '\x7d' => fail .trailingComma 1
        | some _ => fail .keyNotString 1
      else fail .expectedObjectComma 1
      let x ← field item
      return x :: (← fields item bound false)

def array (item : Reader Json) : Reader Json := do
  skip 1
  return .array (← items item ((← get).length + 1) true)

def object (item : Reader Json) : Reader Json := do
  skip 1
  return .ofFields (← fields item ((← get).length + 1) true)

/-- A value whose brackets are read by `array` and `object`. -/
def valueWith (array object : Reader Json) : Reader Json := do
  match ← peekPastBlanks with
  | none => fail .endOfValue 1
  | some 'n' =>
    skip 1
    word ['u', 'l', 'l']
    return .null
  | some 't' =>
    skip 1
    word ['r', 'u', 'e']
    return .bool true
  | some 'f' =>
    skip 1
    word ['a', 'l', 's', 'e']
    return .bool false
  | some '-' =>
    skip 1
    return .number (← number true)
  | some '"' =>
    skip 1
    return .text (← string)
  | some '[' => array
  | some '\x7b' => object
  | some c => if c.isDigit then return .number (← number false) else fail .expectedValue 1

/-- A value with at most `depth` brackets open at once. -/
def value : Nat → Reader Json
  | 0 => valueWith (fail .tooDeep 1) (fail .tooDeep 1)
  | depth + 1 => valueWith (array (value depth)) (object (value depth))

/-- A value and nothing after it. -/
def document : Reader Json := do
  let x ← value 127
  match ← peekPastBlanks with
  | none => return x
  | some _ => fail .trailingCharacters 1

end Reader

/-- Line and column after `offset` bytes. The column counts the bytes of the line so far. -/
def place : List Char → Nat → Nat × Nat
  | cs, offset => go cs offset 1 0
where
  go : List Char → Nat → Nat → Nat → Nat × Nat
  | [], left, line, column => (line, column + left)
  | c :: cs, left, line, column =>
    if left < c.utf8Size then (line, column + left)
    else if c = '\n' then go cs (left - 1) (line + 1) 0
    else go cs (left - c.utf8Size) line (column + c.utf8Size)

def Fault.error (text : List Char) (fault : Fault) : ReadError :=
  let total := Reader.byteLength text
  let (line, column) := place text (min total (total - Reader.byteLength fault.rest + fault.seen))
  ⟨fault.reason, line, column⟩

def ofText (text : String) : Except ReadError Json :=
  match Reader.document.run text.toList with
  | .ok (x, _) => .ok x
  | .error fault => .error (fault.error text.toList)

end ClassDeps.Json
