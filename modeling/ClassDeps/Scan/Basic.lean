import ClassDeps.Archive.Basic
import ClassDeps.File.Tree
import ClassDeps.Model.Import

namespace ClassDeps

/-- A file that was read: a class file or an archive. -/
structure Artifact where
  /-- Its path, with the names of entries after exclamation marks if it is inside an archive. -/
  location : String
  uri : String
  length : Nat
  /-- The place of the archive it is in. -/
  parent : Option Nat
  /-- It was asked for itself. -/
  isTarget : Bool
deriving DecidableEq, Repr

/-- Something that was passed over. -/
structure ScanFailure where
  location : String
  message : String
deriving DecidableEq, Repr

structure Scan where
  model : Model
  artifacts : List Artifact
  classCount : Nat
  failures : List ScanFailure

inductive ScanError where
  | file (path : String) (error : FileError)
  | refused (error : ImportError)
  | unreadable (location : String) (fault : ArchiveFault)
deriving DecidableEq, Repr

def ScanError.message : ScanError → String
  | file path _ => "failed to read " ++ path
  | refused e => e.message
  | unreadable location fault => "unreadable archive " ++ location ++ ": " ++ fault.message

namespace Scan

def empty : Scan := ⟨.empty, [], 0, []⟩

def fail (s : Scan) (location message : String) : Scan :=
  { s with failures := s.failures ++ [⟨location, message⟩] }

/-- Records an archive, or an entry, that cannot be read. -/
def failArchive (s : Scan) (location : String) (fault : ArchiveFault) : Scan :=
  s.fail location (ScanError.unreadable location fault).message

def addArtifact (s : Scan) (artifact : Artifact) : Scan :=
  { s with artifacts := s.artifacts ++ [artifact] }

/-- Adds a class, unless its bytes or the model refuse it. -/
def importClass (s : Scan) (data : ByteArray) (location : String) :
    Except ScanError Unit × Scan :=
  match s.model.importClass data.data.toList location with
  | (.ok _, m) => (.ok (), { s with model := m, classCount := s.classCount + 1 })
  | (.error e, m) => (.error (.refused e), { s with model := m })

/-- Entries that repeat classes for later versions of the platform. -/
def isVersioned (name : String) : Bool :=
  "META-INF/versions/".toList.isPrefixOf name.toList

/-- A class that an archive holds. -/
def isClassEntry (name : String) : Bool :=
  ".class".toList.isSuffixOf name.toList && !Path.isModuleInfo name

def isDirectoryEntry (name : String) : Bool :=
  name.toList.getLast? = some '/' || name.toList.getLast? = some '\\'

/-- The scan reads an entry of this name. -/
def isScanned (name : String) : Bool :=
  !isDirectoryEntry name && !isVersioned name && (isClassEntry name || Path.isArchive name)

/-- The entries that are scanned, in the order of their names; those of one name keep their
order. -/
def scanned (es : List ArchiveEntry) : List ArchiveEntry :=
  (es.filter fun e => isScanned e.name).mergeSort fun a b => a.name ≤ b.name

/-- Records the error that ended the scan of the archive at `location`, if one did. -/
def record (location : String) : Except ScanError Unit × Scan → Scan
  | (.ok _, s) => s
  | (.error e, s) => s.fail location e.message

mutual

/-- Scans an entry of the archive at `location`, which is artifact number `index`. -/
def entry (unzip : Unzip) (e : ArchiveEntry) (location : String) (index : Nat) (s : Scan) :
    Option (Except ScanError Unit × Scan) :=
  let here := location ++ "!" ++ e.name
  match e.content with
  | .error fault => some (.ok (), s.failArchive here fault)
  | .ok data =>
    if Path.isArchive e.name then
      match unzip data with
      | .error fault => some (.ok (), s.failArchive here fault)
      | .ok es => do
        let ended ← s.addArtifact ⟨here, here, data.size, some index, false⟩
          |>.archive unzip .memory es here s.artifacts.length
        return (.ok (), record here ended)
    else
      match s.importClass data here with
      | (.ok _, s) => some (.ok (), s)
      | (.error (.refused e), s) => some (.ok (), s.fail here e.message)
      | (.error e, s) => some (.error e, s)
partial_fixpoint

/-- Scans the entries of an archive at `location`, which is artifact number `index`. Nothing is read
if one of the entries, of whatever name, cannot be opened. An error ends the scan, and what was
found before is kept. If there is no end to the archives inside, the scan does not return. -/
def archive (unzip : Unzip) (medium : Medium) (es : List ArchiveEntry) (location : String)
    (index : Nat) (s : Scan) : Option (Except ScanError Unit × Scan) :=
  match es.findSome? ArchiveEntry.blocked with
  | some fault => some (.error (.unreadable location (fault.on medium)), s)
  | none =>
    (scanned es).foldlM
      (fun ended e =>
        match ended with
        | (.ok _, s) => s |>.entry unzip e location index
        | (.error e, s) => some (.error e, s))
      (.ok (), s)
partial_fixpoint

end

/-- What is scanned under a name, which gives its turn. -/
structure Step (α : Type) where
  name : String
  run : α

/-- Steps in the order of their names; those of one name keep their order. -/
def Step.sort {α : Type} (steps : List (Step α)) : List (Step α) :=
  steps.mergeSort fun a b => a.name ≤ b.name

/-- Scans a class file. -/
def classFile (fs : FileSystem) (content : Except FileError ByteArray) (path : String)
    (isTarget : Bool) (s : Scan) : Except ScanError Scan :=
  if Path.isModuleInfo path then .ok s
  else
    match content with
    | .error e => .error (.file path e)
    | .ok data =>
      match s.importClass data path with
      | (.error e, _) => .error e
      | (.ok _, s) =>
        .ok (if isTarget then s.addArtifact ⟨path, fs.uri path, data.size, none, true⟩ else s)

/-- Scans an archive file. One that cannot be read is a failure and no error. -/
def archiveFile (unzip : Unzip) (fs : FileSystem) (content : Except FileError ByteArray)
    (path : String) (isTarget : Bool) (s : Scan) : Option Scan :=
  match content.mapError ArchiveFault.file with
  | .error fault => some (s.failArchive path fault)
  | .ok data =>
    match unzip data with
    | .error fault => some (s.failArchive path fault)
    | .ok es => do
      let ended ← archive unzip .file es path s.artifacts.length
        (s.addArtifact ⟨path, fs.uri path, data.size, none, isTarget⟩)
      return record path ended

/-- Scans a file as its extension says. Only files in directories may have any other. -/
def file (unzip : Unzip) (fs : FileSystem) (content : Except FileError ByteArray) (path : String)
    (isTarget : Bool) (s : Scan) : ExceptT ScanError Option Scan :=
  if Path.hasExtension path "class" then .mk (some (s.classFile fs content path isTarget))
  else if Path.isArchive path then .lift (s.archiveFile unzip fs content path isTarget)
  else if isTarget then throw (.file path .unsupported)
  else pure s

mutual

/-- Scans what is at `path`, directories by the names of what they hold. -/
def tree (unzip : Unzip) (fs : FileSystem) :
    FileTree → String → Bool → Scan → ExceptT ScanError Option Scan
  | .file content, path, isTarget, s => s.file unzip fs content path isTarget
  | .sealed e, path, _, _ => throw (.file path e)
  | .directory items, path, _, s =>
    (Step.sort (treeSteps unzip fs items)).foldlM (fun s step => step.run path s) s

def treeSteps (unzip : Unzip) (fs : FileSystem) :
    List (String × FileTree) → List (Step (String → Scan → ExceptT ScanError Option Scan))
  | [] => []
  | (name, t) :: rest =>
    ⟨name, fun path s => tree unzip fs t (Path.join path name) false s⟩ :: treeSteps unzip fs rest

end

/-- Scans one input on its own. -/
def input (unzip : Unzip) (fs : FileSystem) (path : String) : ExceptT ScanError Option Scan :=
  match fs.find path with
  | .ok t => tree unzip fs t path true empty
  | .error e => empty.file unzip fs (.error e) path true

/-- Adds what `other` found. The parents of its artifacts move with them. -/
def append (s other : Scan) : Except ScanError Scan :=
  match s.model.merge other.model with
  | (.error c, _) => .error (.refused (.conflict c))
  | (.ok _, m) =>
    .ok {
      model := m
      artifacts := s.artifacts ++ other.artifacts.map fun a =>
        { a with parent := a.parent.map (· + s.artifacts.length) }
      classCount := s.classCount + other.classCount
      failures := s.failures ++ other.failures
    }

/-- Scans every input, and then joins what they gave, in their order. -/
def inputs (unzip : Unzip) (fs : FileSystem) (paths : List String) :
    Option (Except ScanError Scan) := do
  let parts ← paths.mapM fun path => (input unzip fs path).run
  return parts.foldlM (fun s part => do s.append (← part)) empty

end Scan

end ClassDeps
