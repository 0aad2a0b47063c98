import ClassDeps.Proofs.Scan.Clash
import ClassDeps.Proofs.Scan.Gather

namespace ClassDeps.Scan

variable {unzip : Unzip} {unpack : Unpack} {fs : FileSystem} {s : Scan} {names : List String}
  {data : ByteArray}

/-- A file of a directory that means the same as an entry of an archive. -/
structure Packable (names : List String) (data : ByteArray) : Prop where
  isName : ∀ name ∈ names, Path.IsName name
  /-- Entries there are passed over, and files are not. -/
  unversioned : ¬ "META-INF/versions/".toList <+: (Path.ofNames names).toList
  /-- Such a file has no extension. -/
  more : names.getLast? ≠ some ".class"
  lowerCase : ∀ extension, Path.extension? (Path.ofNames names) = some extension →
    extension.toList.map Char.toLower = "class".toList → extension = "class"
  decodes : Path.hasExtension (Path.ofNames names) "class" = true →
    Path.isModuleInfo (Path.ofNames names) = false →
    ∃ d, ClassDefinition.ofBytes data.data.toList = .ok d

namespace Packable

/-- The name of the file is all that counts of its path, besides the versions that archives have. -/
theorem exists_name (h : Packable names data) (hnames : names ≠ []) :
    ∃ around name, Path.IsName name ∧ name ≠ ".class" ∧
      Path.ofNames names = Path.join around name ∧
      ∀ path, ∃ directory, names.foldl Path.join path = Path.join directory name := by
  obtain ⟨front, name, rfl⟩ := (List.eq_nil_or_concat' names).resolve_left hnames
  refine ⟨Path.ofNames front, name, h.isName name (by simp), ?_, Path.ofNames_concat front name, ?_⟩
  · rintro rfl
    exact h.more (by simp)
  · intro path
    exact ⟨front.foldl Path.join path, List.foldl_concat ..⟩

theorem name_eq (h : Packable names data) (hnames : names ≠ []) (path : String) :
    Path.fileName? (names.foldl Path.join path) = Path.fileName? (Path.ofNames names) ∧
      Path.isModuleInfo (names.foldl Path.join path) =
        Path.isModuleInfo (Path.ofNames names) := by
  obtain ⟨around, name, hname, -, hentry, hfile⟩ := h.exists_name hnames
  obtain ⟨directory, hpath⟩ := hfile path
  rw [hpath, hentry, Path.fileName?_join hname, Path.fileName?_join hname, Path.isModuleInfo_join,
    Path.isModuleInfo_join]
  exact ⟨rfl, rfl⟩

end Packable

variable {path : String} {site : Site} {ds : List ClassDefinition}

/-- No class at the site or below it has two definitions. -/
def Site.Agrees (unzip : Unzip) (site : Site) : Prop :=
  ∀ d d', site.Holds unzip d → site.Holds unzip d' → d.name = d'.name → d = d'

namespace Packed

variable {es : List ArchiveEntry} {items : List (String × FileTree)}

end Packed

end ClassDeps.Scan
