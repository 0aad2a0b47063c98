import ClassDeps.Scan.Basic

namespace ClassDeps

/-- An entry of an archive with all that is in it. -/
structure EntryTree extends ArchiveEntry where
  /-- The content as an archive, which counts only if the name is that of one. -/
  nested : Except ArchiveFault (List EntryTree)

namespace ArchiveEntry

variable {e : ArchiveEntry} {data : ByteArray}

theorem opened_of_content (h : e.content = .ok data) : e.opened = .ok (.ok data) := by
  rw [content] at h
  cases ho : e.opened with
  | error fault =>
    rw [ho] at h
    cases h
  | ok found =>
    rw [ho] at h
    exact congrArg Except.ok h

theorem blocked_of_content (h : e.content = .ok data) : e.blocked = none := by
  rw [blocked, opened_of_content h]

end ArchiveEntry

/-- A reader that also unpacks the archives inside, all the way. -/
abbrev Unpack := ByteArray → Except ArchiveFault (List EntryTree)

/-- Induction over archives in archives. -/
theorem EntryTree.nested_induction {P : EntryTree → Prop}
    (h : ∀ e, (∀ es, e.nested = .ok es → ∀ e' ∈ es, P e') → P e) (e : EntryTree) : P e := by
  apply h
  intro es hes e' he'
  have hsmaller : sizeOf e' < sizeOf e := by
    have hmem := List.sizeOf_lt_of_mem he'
    have hnested : sizeOf e.nested = 1 + sizeOf es := by rw [hes]; rfl
    have hentry : sizeOf e.nested < sizeOf e := by
      obtain ⟨shown, nested⟩ := e
      show sizeOf nested < _
      rw [EntryTree.mk.sizeOf_spec]
      omega
    omega
  exact nested_induction h e'
termination_by sizeOf e

-- Scans of archives that are unpacked all the way. They always return.
namespace Scan.Unpacked

/-- Scans the entries of an archive, unless one of them cannot be opened. -/
def runEntries (blocked : Option ArchiveFault) (steps : List (Step (String → Nat → Scan → Scan)))
    (location : String) (index : Nat) (s : Scan) : Scan :=
  match blocked with
  | some fault => s.failArchive location fault
  | none => (Step.sort steps).foldl (fun s step => step.run location index s) s

/-- Why the entries are not read, if one of them cannot be opened. -/
def fault? (medium : Medium) (es : List EntryTree) : Option ArchiveFault :=
  (es.findSome? (·.blocked)).map (·.on medium)

mutual

def entry : EntryTree → String → Nat → Scan → Scan
  | ⟨e, nested⟩, location, index, s =>
    let here := location ++ "!" ++ e.name
    match e.content with
    | .error fault => s.failArchive here fault
    | .ok data =>
      if Path.isArchive e.name then nestedArchive nested here data.size index s
      else record here (s.importClass data here)

/-- Scans an archive of `length` bytes inside another one. -/
def nestedArchive : Except ArchiveFault (List EntryTree) → String → Nat → Nat → Scan → Scan
  | .error fault, here, _, _, s => s.failArchive here fault
  | .ok es, here, length, index, s =>
    runEntries (fault? .memory es) (entrySteps es) here s.artifacts.length
      (s.addArtifact ⟨here, here, length, some index, false⟩)

/-- The steps for the entries that are scanned. -/
def entrySteps : List EntryTree → List (Step (String → Nat → Scan → Scan))
  | [] => []
  | e :: rest =>
    if isScanned e.name then ⟨e.name, entry e⟩ :: entrySteps rest else entrySteps rest

end

def archive (medium : Medium) (es : List EntryTree) : String → Nat → Scan → Scan :=
  runEntries (fault? medium es) (entrySteps es)

def archiveFile (unpack : Unpack) (fs : FileSystem) (content : Except FileError ByteArray)
    (path : String) (isTarget : Bool) (s : Scan) : Scan :=
  match content.mapError ArchiveFault.file with
  | .error fault => s.failArchive path fault
  | .ok data =>
    match unpack data with
    | .error fault => s.failArchive path fault
    | .ok es =>
      archive .file es path s.artifacts.length
        (s.addArtifact ⟨path, fs.uri path, data.size, none, isTarget⟩)

def file (unpack : Unpack) (fs : FileSystem) (content : Except FileError ByteArray) (path : String)
    (isTarget : Bool) (s : Scan) : Except ScanError Scan :=
  if Path.hasExtension path "class" then s.classFile fs content path isTarget
  else if Path.isArchive path then .ok (archiveFile unpack fs content path isTarget s)
  else if isTarget then .error (.file path .unsupported)
  else .ok s

mutual

def tree (unpack : Unpack) (fs : FileSystem) :
    FileTree → String → Bool → Scan → Except ScanError Scan
  | .file content, path, isTarget, s => file unpack fs content path isTarget s
  | .sealed e, path, _, _ => .error (.file path e)
  | .directory items, path, _, s =>
    (Step.sort (treeSteps unpack fs items)).foldlM (fun s step => step.run path s) s

def treeSteps (unpack : Unpack) (fs : FileSystem) :
    List (String × FileTree) → List (Step (String → Scan → Except ScanError Scan))
  | [] => []
  | (name, t) :: rest =>
    ⟨name, fun path s => tree unpack fs t (Path.join path name) false s⟩ ::
      treeSteps unpack fs rest

end

def input (unpack : Unpack) (fs : FileSystem) (path : String) : Except ScanError Scan :=
  match fs.find path with
  | .ok t => tree unpack fs t path true empty
  | .error e => file unpack fs (.error e) path true empty

def inputs (unpack : Unpack) (fs : FileSystem) (paths : List String) : Except ScanError Scan :=
  paths.foldlM (fun s path => do s.append (← input unpack fs path)) empty

end Scan.Unpacked

end ClassDeps
