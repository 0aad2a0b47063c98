import ClassDeps.Archive.Basic
import ClassDeps.Archive.Extra
import ClassDeps.Archive.Inflate
import Std.Data.ExtTreeMap
import Std.Data.ExtTreeSet

namespace ClassDeps.Zip

def bytes (data : ByteArray) (i n : Nat) : List UInt8 :=
  (data.extract i (i + n)).data.toList

/-- The little-endian number in the `n` bytes at `i`. -/
def numberAt (data : ByteArray) (i n : Nat) : Nat :=
  number (bytes data i n)

namespace Record

def signature : Record → Nat
  | ending => 0x06054b50
  | ending64 => 0x06064b50
  | locator64 => 0x07064b50
  | line => 0x02014b50
  | header => 0x04034b50

/-- How long the record is without its texts. -/
def size : Record → Nat
  | ending => 22
  | ending64 => 56
  | locator64 => 20
  | line => 46
  | header => 30

/-- The signature of the record is at `i`. -/
def startsAt (record : Record) (data : ByteArray) (i : Nat) : Bool :=
  i + 4 ≤ data.size && numberAt data i 4 = record.signature

/-- The record is at `i`. -/
def check (record : Record) (data : ByteArray) (i : Nat) : Except ArchiveFault Unit :=
  if data.size < i + record.size then .error (.invalid (.cut record))
  else if record.startsAt data i then .ok ()
  else .error (.invalid (.notRecord record))

end Record

/-- Where the directory is, as the end of the file has it. -/
structure Directory where
  start : Nat
  /-- How far the whole data has been moved. -/
  shift : Nat
  count : Nat
  disk : Nat
  /-- The disk on which the directory starts. -/
  startDisk : Nat

/-- The line at `i`, and where the next one starts. -/
def lineAt (data : ByteArray) (shift i : Nat) : Except ArchiveFault (Line × Nat) := do
  Record.line.check data i
  let nameSize := numberAt data (i + 28) 2
  let extraSize := numberAt data (i + 30) 2
  let commentSize := numberAt data (i + 32) 2
  let next := i + 46 + nameSize + extraSize + commentSize
  if data.size < next then throw (.invalid .textCut)
  let flags := numberAt data (i + 8) 2
  let nameBytes := bytes data (i + 46) nameSize
  let line : Line := {
    flags
    method := numberAt data (i + 10) 2
    checksum := numberAt data (i + 16) 4
    compressedSize := numberAt data (i + 20) 4
    size := numberAt data (i + 24) 4
    header := numberAt data (i + 42) 4
    nameBytes
    name := Line.decodeText flags nameBytes
    comment := Line.decodeText flags (bytes data (i + 46 + nameSize + extraSize) commentSize)
    isCiphered := false
  }
  let line ← line.amend extraSize (bytes data (i + 46 + nameSize) extraSize)
  if line.method = 99 ∧ !line.isCiphered then throw (.invalid .noCipher)
  if Nat.pow 2 64 ≤ line.header + shift then throw (.invalid .headerTooFar)
  return ({ line with header := line.header + shift }, next)

def linesFrom (data : ByteArray) (shift : Nat) : Nat → Nat → Except ArchiveFault (List Line)
  | 0, _ => return []
  | n + 1, i => do
    let (line, next) ← lineAt data shift i
    return line :: (← linesFrom data shift n next)

def Directory.lines (d : Directory) (data : ByteArray) : Except ArchiveFault (List Line) :=
  if d.disk ≠ d.startDisk then .error (.unsupported .manyDisks)
  else linesFrom data d.shift d.count d.start

/-- The first of `n` positions from `i` on at which a record starts. -/
def first? (data : ByteArray) (record : Record) : Nat → Nat → Option Nat
  | 0, _ => none
  | n + 1, i => if record.startsAt data i then some i else first? data record n (i + 1)

/-- The record at the end, which is at `position`. -/
structure Ending where
  position : Nat
  disk : Nat
  startDisk : Nat
  countHere : Nat
  count : Nat
  size : Nat
  start : Nat

def endingAt (data : ByteArray) (i : Nat) : Except ArchiveFault Ending := do
  Record.ending.check data i
  if data.size < i + 22 + numberAt data (i + 20) 2 then throw (.invalid .commentCut)
  return {
    position := i
    disk := numberAt data (i + 4) 2
    startDisk := numberAt data (i + 6) 2
    countHere := numberAt data (i + 8) 2
    count := numberAt data (i + 10) 2
    size := numberAt data (i + 12) 4
    start := numberAt data (i + 16) 4
  }

/-- The directory is where the record says, or further on if the whole data has been moved. -/
def Ending.directory (e : Ending) (data : ByteArray) : Except ArchiveFault Directory :=
  let moved (shift : Nat) : Directory := ⟨e.start + shift, shift, e.countHere, e.disk, e.startDisk⟩
  if e.count = 0 then .ok (moved (e.position - e.start))
  else if e.position ≤ e.start then .error (.invalid .directoryBehindEnd)
  else
    match first? data .line (e.position - e.start) e.start with
    | some i => .ok (moved (i - e.start))
    | none => .error (.invalid .noDirectory)

/-- Leads to a second record with larger numbers, and is in front of the one at the end. -/
structure Locator where
  position : Nat
  startDisk : Nat
  start : Nat
  diskCount : Nat

/-- Numbers that do not fit in the record at the end are all ones there. -/
def Ending.locator? (e : Ending) (data : ByteArray) : Option Locator :=
  let i := e.position - 20
  if e.count ≠ 0xffff ∧ e.size ≠ 0xffffffff ∧ e.start ≠ 0xffffffff ∨ e.position < 20 then none
  else if Record.locator64.startsAt data i then
    some ⟨i, numberAt data (i + 4) 4, numberAt data (i + 8) 8, numberAt data (i + 16) 4⟩
  else none

/-- The directory by the record at `i`. -/
def Locator.directoryAt (l : Locator) (data : ByteArray) (i : Nat) :
    Except ArchiveFault (Except ArchiveFault Directory) := do
  Record.ending64.check data i
  let size := numberAt data (i + 4) 8
  let startDisk := numberAt data (i + 20) 4
  let countHere := numberAt data (i + 24) 8
  let count := numberAt data (i + 32) 8
  let start := numberAt data (i + 48) 8
  let shift := i - l.start
  if l.position - i < size + 12 then throw (.invalid .end64TooLarge)
  if startDisk ≠ l.startDisk then throw (.invalid .end64Disk)
  if size + 12 ≠ l.position - i then throw (.invalid .end64Length)
  if i < count * 46 + start then throw (.invalid .end64Count)
  return do
    if count < countHere then throw (.invalid .end64CountHere)
    return ⟨start + shift, shift, count, numberAt data (i + 16) 4, startDisk⟩

/-- Tries the records at `n` positions from `i` on. -/
def Locator.search (l : Locator) (data : ByteArray) (fault : Fault) :
    Nat → Nat → Except ArchiveFault (Except ArchiveFault Directory)
  | 0, _ => .error (.invalid fault)
  | n + 1, i =>
    if Record.ending64.startsAt data i then
      match l.directoryAt data i with
      | .ok found => .ok found
      | .error (.invalid fault) => l.search data fault n (i + 1)
      | .error _ => l.search data fault n (i + 1)
    else l.search data fault n (i + 1)

def Locator.directory (l : Locator) (data : ByteArray) :
    Except ArchiveFault (Except ArchiveFault Directory) :=
  if l.position ≤ l.start then .error (.invalid .end64BehindLocator)
  else if 1 < l.diskCount then .error (.invalid .manyDisks)
  else l.search data .noEnd64 (l.position - l.start) l.start

/-- The lines of the directory that a record at the end leads to. The outer error is that there is
no such directory, the inner one that it cannot be read. -/
def Ending.lines (e : Ending) (data : ByteArray) :
    Except ArchiveFault (Except ArchiveFault (List Line)) := do
  match e.locator? data with
  | none => return (← e.directory data).lines data
  | some l => return do (← (← l.directory data)).lines data

/-- The lines of the directory of the last record below a bound that has one. If none has, a
directory that could not be read counts for more than one that was not found. -/
def linesBelow (data : ByteArray) (missing unread : Option ArchiveFault) :
    Nat → Except ArchiveFault (List Line)
  | 0 => .error ((unread <|> missing).getD (.invalid .noEnd))
  | i + 1 =>
    if !Record.ending.startsAt data i then linesBelow data missing unread i
    else
      match endingAt data i with
      | .error fault => linesBelow data (missing <|> some fault) unread i
      | .ok e =>
        match e.lines data with
        | .error fault => linesBelow data (some fault) unread i
        | .ok (.error fault) => linesBelow data none (some fault) i
        | .ok (.ok lines) => .ok lines

/-- Names are compared byte by byte. -/
def Line.key (line : Line) : String :=
  String.ofList (line.nameBytes.map fun b => Char.ofNat b.toNat)

/-- Of the lines with one name, the last, at the place of the first. -/
def lastOfEachName (lines : List Line) : List Line :=
  let last := Std.ExtTreeMap.ofList (lines.map fun l => (l.key, l)) compare
  (lines.foldl
    (fun (done : Std.ExtTreeSet String × List Line) l =>
      if done.1.contains l.key then done
      else (done.1.insert l.key, (last[l.key]?).getD l :: done.2))
    (∅, [])).2.reverse

/-- Where the data of an entry start, if it can be opened. A position in a file has 63 bits. -/
def Line.dataStart (line : Line) (data : ByteArray) : Except ArchiveFault Nat := do
  if line.isEncrypted then throw (.unsupported .password)
  if Nat.pow 2 63 ≤ line.header then throw (.read (.file .invalidPosition))
  Record.header.check data line.header
  if line.method ≠ 0 ∧ line.method ≠ 8 then throw (.unsupportedMethod line.method)
  if line.isCiphered then throw .wrongPassword
  return line.header + 30 + numberAt data (line.header + 26) 2 + numberAt data (line.header + 28) 2

/-- The data of an entry before compression. -/
def Line.expand (line : Line) (raw : ByteArray) : Except ArchiveFault ByteArray :=
  if line.method = 0 then .ok raw
  else
    (Inflate.inflate raw).mapError fun
      | .truncated => .incompleteData
      | .corrupt => .corruptData

/-- The content of an entry whose data start at `start`, which its checksum confirms. -/
def Line.content (line : Line) (data : ByteArray) (start : Nat) :
    Except ArchiveFault ByteArray := do
  let content ← line.expand (data.extract start (start + line.compressedSize))
  if (Crc32.checksum content).toNat = line.checksum then return content else throw .wrongChecksum

/-- The entries of a zip file. -/
def unzip : Unzip := fun data => do
  let lines ← linesBelow data none none data.size
  return (lastOfEachName lines).map fun line =>
    ⟨line.name, (line.dataStart data).map (line.content data)⟩

end ClassDeps.Zip
