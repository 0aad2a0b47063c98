import ClassDeps.File.Path
import ClassDeps.Proofs.Text.Split

namespace ClassDeps

namespace Path

/-- A text that can be the name of something in a directory. -/
structure IsName (name : String) : Prop where
  nonempty : name ≠ ""
  not_here : name ≠ "."
  not_up : name ≠ ".."
  no_slash : '/' ∉ name.toList

instance (name : String) : Decidable (IsName name) :=
  decidable_of_iff (name ≠ "" ∧ name ≠ "." ∧ name ≠ ".." ∧ '/' ∉ name.toList)
    ⟨fun ⟨h₁, h₂, h₃, h₄⟩ => ⟨h₁, h₂, h₃, h₄⟩, fun ⟨h₁, h₂, h₃, h₄⟩ => ⟨h₁, h₂, h₃, h₄⟩⟩

theorem fileName?_of_getLast? {path name : String} (h : (pieces path).getLast? = some name)
    (hempty : name ≠ "") (hhere : name ≠ ".") (hup : name ≠ "..") :
    fileName? path = some name := by
  obtain ⟨front, hfront⟩ := List.getLast?_eq_some_iff.mp h
  rw [fileName?, parts, hfront, List.filter_append]
  simp [hempty, hhere, hup]

/-- A text that ends in `.class` has that extension or, if there is nothing before the dot, none. -/
theorem extension?_of_class {path : String} (h : ".class".toList <:+ path.toList) :
    extension? path = none ∨ extension? path = some "class" := by
  obtain ⟨front, hfront⟩ := h
  obtain ⟨start, hstart⟩ := Text.exists_getLast?_splitAll_append front
    (show '/' ∉ ".class".toList by decide)
  have hpieces : (pieces path).getLast? = some (String.ofList (start ++ ".class".toList)) := by
    rw [pieces, ← hfront, List.getLast?_map, hstart]
    rfl
  have hlong : 2 < (String.ofList (start ++ ".class".toList)).length := by
    rw [String.length_ofList, List.length_append]
    exact Nat.lt_add_left _ (by decide)
  have hne : ∀ short : String, short.length ≤ 2 →
      String.ofList (start ++ ".class".toList) ≠ short := by
    rintro short hshort rfl
    omega
  have hname := fileName?_of_getLast? hpieces (hne "" (by decide)) (hne "." (by decide))
    (hne ".." (by decide))
  have hsplit : Text.splitLast? '.' (start ++ ".class".toList) = some (start, "class".toList) :=
    Text.splitLast?_append start (by decide)
  rw [extension?, hname, Option.bind_some, String.toList_ofList, hsplit]
  cases start with
  | nil => exact .inl rfl
  | cons x start => exact .inr rfl

theorem hasExtension_of_extension? {path found : String} (h : extension? path = some found)
    (extension : String) : hasExtension path extension =
      decide (found.toList.map Char.toLower = extension.toList) := by
  rw [hasExtension, h]
  rfl

theorem exists_extension?_of_hasExtension {path extension : String}
    (h : hasExtension path extension = true) :
    ∃ found, extension? path = some found ∧
      found.toList.map Char.toLower = extension.toList := by
  obtain ⟨found, hfound⟩ : ∃ found, extension? path = some found := by
    rw [hasExtension] at h
    exact Option.isSome_iff_exists.mp (Option.isSome_of_any h)
  rw [hasExtension_of_extension? hfound, decide_eq_true_iff] at h
  exact ⟨found, hfound, h⟩

theorem hasExtension_class_of_isArchive {path : String} (h : isArchive path = true) :
    hasExtension path "class" = false := by
  obtain ⟨extension, hmem, hextension⟩ := List.any_eq_true.mp h
  obtain ⟨found, hfound, hextension⟩ := exists_extension?_of_hasExtension hextension
  have hne : ∀ extension ∈ ["jar", "zip", "war", "ear"], extension.toList ≠ "class".toList := by
    decide
  rw [hasExtension_of_extension? hfound, hextension]
  exact decide_eq_false (hne extension hmem)

theorem isArchive_of_hasExtension_class {path : String} (h : hasExtension path "class" = true) :
    isArchive path = false := by
  rw [← Bool.not_eq_true]
  intro harchive
  exact absurd h (ne_true_of_eq_false (hasExtension_class_of_isArchive harchive))

theorem isArchive_of_class {path : String} (h : ".class".toList <:+ path.toList) :
    isArchive path = false := by
  rcases extension?_of_class h with hnone | hclass
  · simp [isArchive, hasExtension, hnone]
  · rw [isArchive, funext (hasExtension_of_extension? hclass)]
    decide

/-- A module description by its name. It is not enough that the name ends like one. -/
def IsModuleDescription (path : String) : Prop :=
  (pieces path).getLast? = some "module-info.class"

instance (path : String) : Decidable (IsModuleDescription path) :=
  inferInstanceAs (Decidable (_ = _))

example : IsModuleDescription "p/module-info.class" ∧
    ¬ IsModuleDescription "p/my-module-info.class" := by decide

theorem isModuleInfo_of_isModuleDescription {path : String} (h : IsModuleDescription path) :
    isModuleInfo path = true := by
  rw [IsModuleDescription, pieces, List.getLast?_map, Option.map_eq_some_iff] at h
  obtain ⟨last, hlast, hname⟩ := h
  rw [isModuleInfo, List.isSuffixOf_iff_suffix, ← hname, String.toList_ofList]
  exact Text.suffix_of_getLast?_splitAll hlast

/-- The path that names lead to from the directory they start in. -/
def ofNames (names : List String) : String :=
  names.foldl join ""

example : ofNames ["a", "b", "C.class"] = "a/b/C.class" := by decide

theorem ofNames_concat (names : List String) (name : String) :
    ofNames (names ++ [name]) = join (ofNames names) name :=
  List.foldl_concat ..

/-- A name comes first in its path or after a slash. -/
theorem join_eq (path name : String) : ∃ front, (join path name).toList = front ++ name.toList ∧
    (front = [] ∨ ∃ rest, front = rest ++ ['/']) := by
  unfold join
  split
  case isTrue h =>
    refine ⟨path.toList, String.toList_append, ?_⟩
    rw [Bool.or_eq_true, decide_eq_true_iff, decide_eq_true_iff] at h
    rcases h with rfl | h
    · exact .inl rfl
    · exact .inr (List.getLast?_eq_some_iff.mp h)
  case isFalse =>
    refine ⟨path.toList ++ ['/'], ?_, .inr ⟨path.toList, rfl⟩⟩
    rw [String.toList_append, String.toList_append]
    rfl

theorem fileName?_join {name : String} (h : IsName name) (path : String) :
    fileName? (join path name) = some name := by
  refine fileName?_of_getLast? ?_ h.nonempty h.not_here h.not_up
  have hname := Text.splitAll_eq_singleton h.no_slash
  obtain ⟨front, hjoin, rfl | ⟨rest, rfl⟩⟩ := join_eq path name
  · rw [pieces, hjoin, List.nil_append, hname, List.map_singleton, String.ofList_toList]
    rfl
  · rw [pieces, hjoin, List.append_assoc, List.singleton_append, Text.splitAll_append_cons, hname,
      List.map_append, List.map_singleton, String.ofList_toList, List.getLast?_concat]

/-- How a path ends is how its name ends, as far as no slash is involved. -/
theorem suffix_join_iff {text : List Char} (htext : '/' ∉ text) (path name : String) :
    text <:+ (join path name).toList ↔ text <:+ name.toList := by
  obtain ⟨front, hjoin, rfl | ⟨rest, rfl⟩⟩ := join_eq path name
  · rw [hjoin, List.nil_append]
  rw [hjoin]
  refine ⟨fun h => ?_, fun h => h.trans (List.suffix_append ..)⟩
  by_cases hlength : text.length ≤ name.toList.length
  · exact List.suffix_of_suffix_length_le h (List.suffix_append ..) hlength
  · -- a longer text would contain the slash in front of the name
    have hslash : '/' :: name.toList <:+ rest ++ ['/'] ++ name.toList :=
      ⟨rest, by rw [List.append_assoc, List.singleton_append]⟩
    have hinside := List.suffix_of_suffix_length_le hslash h (by rw [List.length_cons]; omega)
    exact absurd (hinside.subset List.mem_cons_self) htext

theorem isModuleInfo_join (path name : String) :
    isModuleInfo (join path name) = isModuleInfo name := by
  rw [Bool.eq_iff_iff, isModuleInfo, isModuleInfo, List.isSuffixOf_iff_suffix,
    List.isSuffixOf_iff_suffix]
  exact suffix_join_iff (by decide) path name

variable {path name : String}

end Path

end ClassDeps
