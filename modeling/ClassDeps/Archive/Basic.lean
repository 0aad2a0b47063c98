import ClassDeps.Archive.Fault

namespace ClassDeps

/-- What holds the bytes of an archive. -/
inductive Medium where
  | file
  | memory
deriving DecidableEq, Repr

/-- A fault as it shows on a medium. A position that a file does not have is behind the end of what
is in memory. -/
def ArchiveFault.on : Medium → ArchiveFault → ArchiveFault
  | .memory, .read (.file .invalidPosition) => .invalid (.cut .header)
  | _, fault => fault

structure ArchiveEntry where
  name : String
  /-- The content. An entry may fail to open, and one that opens may fail to be read. -/
  opened : Except ArchiveFault (Except ArchiveFault ByteArray)

namespace ArchiveEntry

/-- Why the entry cannot be opened, if it cannot. -/
def blocked (e : ArchiveEntry) : Option ArchiveFault :=
  match e.opened with
  | .error fault => some fault
  | .ok _ => none

def content (e : ArchiveEntry) : Except ArchiveFault ByteArray :=
  match e.opened with
  | .error fault => .error fault
  | .ok content => content

end ArchiveEntry

/-- A reader of archives: the entries in the order of the archive's directory. What is in an entry
is not looked into. -/
abbrev Unzip := ByteArray → Except ArchiveFault (List ArchiveEntry)

end ClassDeps
