import ClassDeps.Archive.CodePage437
import ClassDeps.Archive.Crc32
import ClassDeps.Archive.Fault
import ClassDeps.Text.Utf8

namespace ClassDeps.Zip

/-- A little-endian number. -/
def number (bytes : List UInt8) : Nat :=
  bytes.foldr (fun b n => b.toNat + 256 * n) 0

/-- A line of the directory. -/
structure Line where
  flags : Nat
  method : Nat
  checksum : Nat
  compressedSize : Nat
  size : Nat
  /-- Where the entry's own header starts. -/
  header : Nat
  nameBytes : List UInt8
  name : String
  comment : String
  /-- The entry is said to be encrypted by an extra field. -/
  isCiphered : Bool

namespace Line

def isEncrypted (line : Line) : Bool := line.flags % 2 = 1

/-- Texts are in UTF-8 if the flags say so. -/
def decodeText (flags : Nat) (bytes : List UInt8) : String :=
  if flags / 2048 % 2 = 1 then Text.Utf8.lossy bytes else CodePage437.decode bytes

end Line

/-- A field after its kind and length: takes bytes from the front of what is left of all fields,
which may be more or fewer than its length says. -/
abbrev Field := StateT (List UInt8) (Except ArchiveFault)

namespace Field

def bytes (n : Nat) : Field (List UInt8) := fun input =>
  if input.length < n then .error (.read .endOfData) else .ok (input.take n, input.drop n)

def number (n : Nat) : Field Nat := Zip.number <$> bytes n

def fail {α : Type} (fault : Fault) : Field α := throw (.invalid fault)

/-- Passes over a field. -/
def skip (length : Nat) : Field Unit := fun input =>
  if input.length < length then .error (.invalid .extraCut) else .ok ((), input.drop length)

/-- A number that takes the place of one that does not fit in four bytes. A field of full length
has it in any case. -/
def large (length given : Nat) : Field Nat := fun input =>
  if length < 24 ∧ given ≠ 0xffffffff then .ok (given, input)
  else if input.length < 8 then .error (.invalid .sizesCut)
  else .ok (Zip.number (input.take 8), input.drop 8)

/-- Sizes and a position beyond four bytes. What is not needed of them may be missing. -/
def sizes (length : Nat) (line : Line) : Field Line := fun input => do
  let read : Field Line := do
    let size ← large length line.size
    let compressedSize ← large length line.compressedSize
    let header ← large length line.header
    return { line with size, compressedSize, header }
  let (line, _) ← read (input.take length)
  return (line, input.drop length)

/-- A text in UTF-8, which counts only together with the bytes it stands for. -/
def unicode (length : Nat) (replaced : ByteArray) : Field (List UInt8 × String) := do
  let _ ← number 1
  let given ← number 4
  if length < 5 then fail .unicodeTooSmall
  let content ← bytes (length - 5)
  let actual := (Crc32.checksum replaced).toNat
  if given ≠ actual then fail (.unicodeChecksum given actual)
  match Text.Utf8.decode? content with
  | some text => return (content, String.ofList text)
  | none => fail .invalidUtf8

/-- Times in seconds, as many as the flags say; they are not used. -/
def timestamp (length : Nat) : Field Unit := do
  let flags ← number 1
  let isSet (i : Nat) : Bool := flags / Nat.pow 2 i % 2 = 1
  if length ≠ 5 ∧ length ≠ 1 + 4 * (List.range 8).countP isSet then
    throw (.read (.timestampFlags length flags))
  if isSet 0 ∨ length = 5 then let _ ← number 4
  if isSet 1 ∧ 5 < length then let _ ← number 4
  if isSet 2 ∧ 5 < length then let _ ← number 4

/-- Times in small fractions of a second; they are not used. -/
def fileTimes (length : Nat) : Field Unit := do
  if length ≠ 32 then throw (.unsupported .fileTimesLength)
  let _ ← number 4
  if (← number 2) ≠ 1 then throw (.unsupported .fileTimesTag)
  if (← number 2) ≠ 24 then throw (.unsupported .fileTimesSize)
  let _ ← bytes 24

/-- How the entry is encrypted, and the method under the encryption. -/
def cipher (length : Nat) (line : Line) : Field Line := do
  if length ≠ 7 then throw (.unsupported .cipherLength)
  let version ← number 2
  let vendor ← number 2
  if (← get).isEmpty then fail .cipherCut
  let strength ← number 1
  let method ← number 2
  if vendor ≠ 0x4541 then fail .cipherVendor
  if version ≠ 1 ∧ version ≠ 2 then fail .cipherVersion
  if strength = 0 ∨ 3 < strength then fail .cipherStrength
  return { line with method, isCiphered := true }

/-- A field by its kind. -/
def amend (kind length : Nat) (line : Line) : Field Line := do
  if kind = 0x0001 then sizes length line
  else if kind = 0x000a then fileTimes length; return line
  else if kind = 0x9901 then cipher length line
  else if kind = 0x5455 then timestamp length; return line
  else if kind = 0x6375 then
    let (_, comment) ← unicode length line.comment.toUTF8
    return { line with comment }
  else if kind = 0x7075 then
    let (nameBytes, name) ← unicode length ⟨line.nameBytes.toArray⟩
    return { line with nameBytes, name }
  else skip length; return line

/-- The kinds of fields that mean something. -/
def knownKinds : List Nat := [0x0001, 0x000a, 0x5455, 0x6375, 0x7075, 0x9901, 0xa11e]

end Field

/-- The line as the extra fields amend it. Bytes at their end that are too few for the kind and the
length of a field are passed over, unless they begin a field that means something. -/
def Line.amend (line : Line) : Nat → List UInt8 → Except ArchiveFault Line
  | bound + 1, a :: b :: rest =>
    let kind := number [a, b]
    match rest with
    | c :: d :: rest =>
      match Field.amend kind (number [c, d]) line rest with
      | .error fault => .error fault
      | .ok (line, rest) => line.amend bound rest
    | _ =>
      if Field.knownKinds.contains kind then .error (.invalid (.extraHeaderCut kind)) else .ok line
  | _, _ => .ok line

end ClassDeps.Zip
