import ClassDeps.Pattern
import ClassDeps.Proofs.Text.Split
import Mathlib.Data.List.TakeWhile

namespace ClassDeps

namespace Name

/-- A simple name up to its first dollar sign. -/
def outerSimple (simple : String) : String :=
  String.ofList (simple.toList.takeWhile (· ≠ '$'))

/-- The class in which a class is nested, at whatever depth, or the class itself. -/
def outermost (name : String) : String :=
  match Text.splitLast? '.' name.toList with
  | some (package, _) => String.ofList package ++ "." ++ outerSimple (simple name)
  | none => outerSimple (simple name)

variable {name text : String}

theorem packageOf_append (name : String) (h : '.' ∉ text.toList) :
    packageOf (name ++ text) = packageOf name := by
  rw [packageOf, packageOf, String.toList_append, Text.splitLast?_append_of_not_mem _ h]
  cases Text.splitLast? '.' name.toList <;> rfl

theorem simple_append (name : String) (h : '.' ∉ text.toList) :
    simple (name ++ text) = simple name ++ text := by
  rw [simple, simple, String.toList_append, Text.splitLast?_append_of_not_mem _ h]
  cases Text.splitLast? '.' name.toList with
  | none => rfl
  | some parts =>
    rw [← String.toList_inj]
    simp

theorem not_mem_simple (name : String) : '.' ∉ (simple name).toList := by
  rw [simple]
  cases hsplit : Text.splitLast? '.' name.toList with
  | none => exact Text.splitLast?_eq_none_iff.mp hsplit
  | some parts =>
    rw [String.toList_ofList]
    exact (Text.splitLast?_eq_some_iff.mp hsplit).2

theorem outerSimple_append (simple text : String) :
    outerSimple (simple ++ "$" ++ text) = outerSimple simple := by
  have hdollar : "$".toList = ['$'] := rfl
  rw [outerSimple, outerSimple, String.toList_append, String.toList_append, hdollar]
  congr 1
  induction simple.toList with
  | nil => simp
  | cons x rest ih =>
    simp only [List.cons_append, List.takeWhile_cons, ih]

theorem outerSimple_eq_self {simple : String} (h : '$' ∉ simple.toList) :
    outerSimple simple = simple := by
  rw [outerSimple, List.takeWhile_eq_self_iff.mpr, String.ofList_toList]
  intro x hx
  simpa using ne_of_mem_of_not_mem hx h

theorem outerSimple_outerSimple (simple : String) :
    outerSimple (outerSimple simple) = outerSimple simple := by
  apply outerSimple_eq_self
  rw [outerSimple, String.toList_ofList]
  intro hmem
  simpa using List.mem_takeWhile_imp hmem

theorem not_mem_outerSimple {simple : String} (h : '.' ∉ simple.toList) :
    '.' ∉ (outerSimple simple).toList := by
  rw [outerSimple, String.toList_ofList]
  exact fun hmem => h ((List.takeWhile_sublist _).subset hmem)

theorem splitLast?_outermost (name : String) :
    Text.splitLast? '.' (outermost name).toList =
      (Text.splitLast? '.' name.toList).map fun parts =>
        (parts.1, (outerSimple (simple name)).toList) := by
  have hdot := not_mem_outerSimple (not_mem_simple name)
  rw [outermost]
  cases hsplit : Text.splitLast? '.' name.toList with
  | none => exact Text.splitLast?_eq_none hdot
  | some parts =>
    have htext : (String.ofList parts.1 ++ "." ++ outerSimple (simple name)).toList =
        parts.1 ++ '.' :: (outerSimple (simple name)).toList := by
      simp
    rw [htext]
    exact Text.splitLast?_append _ hdot

theorem packageOf_outermost (name : String) : packageOf (outermost name) = packageOf name := by
  rw [packageOf, packageOf, splitLast?_outermost]
  cases Text.splitLast? '.' name.toList <;> rfl

theorem simple_outermost (name : String) :
    simple (outermost name) = outerSimple (simple name) := by
  rw [simple, splitLast?_outermost]
  cases hsplit : Text.splitLast? '.' name.toList with
  | none =>
    rw [outermost, hsplit]
    rfl
  | some parts => exact String.ofList_toList

end Name

namespace Segment

/-- A segment that, with a text, accepts every longer one. -/
def IsOpen : Segment → Prop
  | any | startsWith _ => True
  | exact _ | endsWith _ => False

theorem acceptsClass_iff {s : Segment} {name : String} :
    s.acceptsClass name ↔ s.accepts name ∨ s.accepts (Name.outerSimple name) := by
  rw [acceptsClass, Bool.or_eq_true]
  cases hsplit : Text.splitFirst? '$' name.toList with
  | none =>
    rw [Name.outerSimple_eq_self (Text.splitFirst?_eq_none_iff.mp hsplit)]
    simp
  | some parts => rw [Name.outerSimple, ← Text.fst_of_splitFirst? hsplit]

theorem IsOpen.accepts_append {s : Segment} (h : s.IsOpen) {value : String}
    (hv : s.accepts value) (text : String) : s.accepts (value ++ text) := by
  cases s with
  | any => rfl
  | exact _ => exact h.elim
  | endsWith _ => exact h.elim
  | startsWith head =>
    simp only [accepts, List.isPrefixOf_iff_prefix, String.toList_append] at hv ⊢
    exact hv.trans (List.prefix_append _ _)

end Segment

namespace Pattern

variable {p : Pattern} {n s : String}

/-- The class that a pattern names, if it names one, is open at its end. -/
def IsOpen (p : Pattern) : Prop :=
  ∀ t, p.type = some t → t.IsOpen

theorem acceptsName_iff : p.acceptsName n ↔
    p.method = none ∧ admits p.package (packageText (Name.packageOf n)) ∧
      ∀ t, p.type = some t →
        t.accepts (Name.simple n) ∨ t.accepts (Name.outerSimple (Name.simple n)) := by
  rw [acceptsName, acceptsPackageClass, Bool.and_eq_true, Bool.and_eq_true,
    Option.isNone_iff_eq_none, and_assoc, Option.all_eq_true]
  simp only [Segment.acceptsClass_iff]

theorem acceptsName_outermost_iff : p.acceptsName (Name.outermost n) ↔
    p.method = none ∧ admits p.package (packageText (Name.packageOf n)) ∧
      ∀ t, p.type = some t → t.accepts (Name.outerSimple (Name.simple n)) := by
  rw [acceptsName_iff, Name.packageOf_outermost, Name.simple_outermost,
    Name.outerSimple_outerSimple]
  simp only [or_self]

theorem acceptsName_dollar_iff (hs : '.' ∉ s.toList) : p.acceptsName (n ++ "$" ++ s) ↔
    p.method = none ∧ admits p.package (packageText (Name.packageOf n)) ∧
      ∀ t, p.type = some t → t.accepts (Name.simple n ++ "$" ++ s) ∨
        t.accepts (Name.outerSimple (Name.simple n)) := by
  have hdot : '.' ∉ ("$" ++ s).toList := by
    simpa using hs
  rw [acceptsName_iff, String.append_assoc, Name.packageOf_append n hdot,
    Name.simple_append n hdot, ← String.append_assoc, Name.outerSimple_append]

theorem acceptsName_outermost_of_not_mem (hn : p.acceptsName n)
    (h : '$' ∉ (Name.simple n).toList) : p.acceptsName (Name.outermost n) := by
  obtain ⟨hmethod, hpackage, htype⟩ := acceptsName_iff.mp hn
  refine acceptsName_outermost_iff.mpr ⟨hmethod, hpackage, fun t ht => ?_⟩
  have houter := Name.outerSimple_eq_self h
  have haccepts := htype t ht
  rw [houter, or_self] at haccepts
  rwa [houter]

theorem IsOpen.acceptsName_dollar (h : p.IsOpen) (hs : '.' ∉ s.toList) (hn : p.acceptsName n) :
    p.acceptsName (n ++ "$" ++ s) := by
  obtain ⟨hmethod, hpackage, htype⟩ := acceptsName_iff.mp hn
  refine (acceptsName_dollar_iff hs).mpr ⟨hmethod, hpackage, fun t ht => ?_⟩
  rw [String.append_assoc]
  exact (htype t ht).imp_left fun hself => (h t ht).accepts_append hself _

theorem acceptsName_dollar_of_outermost (hs : '.' ∉ s.toList)
    (h : p.acceptsName (Name.outermost n)) : p.acceptsName (n ++ "$" ++ s) := by
  obtain ⟨hmethod, hpackage, htype⟩ := acceptsName_outermost_iff.mp h
  exact (acceptsName_dollar_iff hs).mpr ⟨hmethod, hpackage, fun t ht => .inr (htype t ht)⟩

/-- Away from the outermost class, a class nested in an accepted one has to be accepted by its own
simple name. -/
theorem acceptsName_dollar_iff_of_not_outermost (hs : '.' ∉ s.toList) (hn : p.acceptsName n)
    (h : ¬p.acceptsName (Name.outermost n)) {t : Segment} (ht : p.type = some t) :
    t.accepts (Name.simple n) ∧
      (p.acceptsName (n ++ "$" ++ s) ↔ t.accepts (Name.simple n ++ "$" ++ s)) := by
  obtain ⟨hmethod, hpackage, htype⟩ := acceptsName_iff.mp hn
  have houter : ¬t.accepts (Name.outerSimple (Name.simple n)) := by
    intro haccepts
    refine h (acceptsName_outermost_iff.mpr ⟨hmethod, hpackage, fun t' ht' => ?_⟩)
    cases ht.symm.trans ht'
    exact haccepts
  refine ⟨(htype t ht).resolve_right houter, ?_⟩
  rw [acceptsName_dollar_iff hs]
  constructor
  · rintro ⟨-, -, hdollar⟩
    exact (hdollar t ht).resolve_right houter
  · intro hself
    refine ⟨hmethod, hpackage, fun t' ht' => ?_⟩
    cases ht.symm.trans ht'
    exact .inl hself

/-- A pattern that accepts a class accepts all that is nested in it, if it is open at the end of the
class, if the class is itself nested in none, or if it accepts the outermost one. Otherwise it names
a nested class: as a whole, and then it accepts nothing nested in that, or by the end of its name,
and then it accepts what ends in the same way. -/
theorem acceptsName_nested (p : Pattern) {n s : String} (hs : '.' ∉ s.toList)
    (hn : p.acceptsName n) :
    (p.IsOpen ∨ '$' ∉ (Name.simple n).toList ∨ p.acceptsName (Name.outermost n) →
      p.acceptsName (n ++ "$" ++ s)) ∧
    (¬p.acceptsName (Name.outermost n) →
      (∀ text, p.type = some (.exact text) → ¬p.acceptsName (n ++ "$" ++ s)) ∧
      ∀ tail, p.type = some (.endsWith tail) →
        (p.acceptsName (n ++ "$" ++ s) ↔
          tail.toList <:+ (Name.simple n ++ "$" ++ s).toList)) := by
  refine ⟨?_, fun houter => ⟨fun text ht => ?_, fun tail ht => ?_⟩⟩
  · rintro (hopen | htop | houter)
    · exact hopen.acceptsName_dollar hs hn
    · exact acceptsName_dollar_of_outermost hs (acceptsName_outermost_of_not_mem hn htop)
    · exact acceptsName_dollar_of_outermost hs houter
  · obtain ⟨hself, hiff⟩ := acceptsName_dollar_iff_of_not_outermost hs hn houter ht
    rw [hiff]
    simp only [Segment.accepts, decide_eq_true_eq] at hself ⊢
    -- A text does not equal itself with more behind it.
    intro heq
    have hlength := congrArg (List.length ∘ String.toList) (heq.trans hself.symm)
    simp at hlength
  · rw [(acceptsName_dollar_iff_of_not_outermost hs hn houter ht).2, Segment.accepts,
      List.isSuffixOf_iff_suffix]

/-- The pattern `a.*Inner` reaches an inner class and leaves out its anonymous classes. -/
theorem acceptsName_nested_inner :
    compile "a.*Inner" = .ok ⟨"a.*Inner", some (.exact "a"), some (.endsWith "Inner"), none⟩ ∧
      ¬acceptsName ⟨"a.*Inner", some (.exact "a"), some (.endsWith "Inner"), none⟩
        ("a.Outer$Inner" ++ "$" ++ "1") ∧
      acceptsName ⟨"a.*Inner", some (.exact "a"), some (.endsWith "Inner"), none⟩
        ("a.Outer$Inner" ++ "$" ++ "1$Inner") ∧
      acceptsName ⟨"a.Outer", some (.exact "a"), some (.exact "Outer"), none⟩
        ("a.Outer$Inner" ++ "$" ++ "1") := by
  have hinner (s : String) (hs : '.' ∉ s.toList) :=
    (acceptsName_nested ⟨"a.*Inner", some (.exact "a"), some (.endsWith "Inner"), none⟩
      (n := "a.Outer$Inner") hs (by decide)).2 (by decide)
  refine ⟨by decide, ?_, ?_, ?_⟩
  · rw [(hinner "1" (by decide)).2 "Inner" rfl]
    decide
  · rw [(hinner "1$Inner" (by decide)).2 "Inner" rfl]
    decide
  · exact (acceptsName_nested ⟨"a.Outer", some (.exact "a"), some (.exact "Outer"), none⟩
      (by decide) (by decide)).1 (.inr (.inr (by decide)))

/-- A pattern that names an inner class covers that class, and none of its anonymous classes. -/
theorem acceptsName_inner_not_anonymous :
    ∃ p : Pattern, compile "a.Outer$Inner" = .ok p ∧ p.acceptsName "a.Outer$Inner" ∧
      '.' ∉ "1".toList ∧ ¬p.acceptsName ("a.Outer$Inner" ++ "$" ++ "1") :=
  ⟨⟨"a.Outer$Inner", some (.exact "a"), some (.exact "Outer$Inner"), none⟩, by decide⟩

end Pattern

end ClassDeps
