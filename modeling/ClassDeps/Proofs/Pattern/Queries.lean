import ClassDeps.Proofs.Pattern.Language

namespace ClassDeps

/-- Only a wildcard that stands alone accepts everything. -/
theorem Segment.forall_accepts_iff {text : List Char} {s : Segment} (h : ofText? text = some s) :
    (∀ value, s.accepts value) ↔ s = .any := by
  have hwritten := (ofText?_eq_some h).1
  constructor
  · intro hall
    have hempty := hall ""
    cases s with
    | any => rfl
    | exact text =>
      have hletter := hall "a"
      simp only [accepts, decide_eq_true_eq] at hempty hletter
      rw [← hempty] at hletter
      exact absurd hletter (by decide)
    -- With nothing beside it, the wildcard would stand alone.
    | startsWith head =>
      simp only [accepts, List.isPrefixOf_iff_prefix, String.toList_empty,
        List.prefix_nil] at hempty
      rw [written, hempty] at hwritten
      rw [← hwritten] at h
      exact (Option.some.inj h).symm
    | endsWith tail =>
      simp only [accepts, List.isSuffixOf_iff_suffix, String.toList_empty,
        List.suffix_nil] at hempty
      rw [written, hempty] at hwritten
      rw [← hwritten] at h
      exact (Option.some.inj h).symm
  · rintro rfl value
    rfl

namespace Pattern

variable {pattern : String} {p : Pattern} {package type : String}

theorem method_eq_none_iff (h : compile pattern = .ok p) :
    p.method = none ↔ '#' ∉ pattern.toList := by
  rw [method_eq_none_iff_split h, split, splitMethod, ← Text.splitFirst?_eq_none_iff]
  cases Text.splitFirst? '#' pattern.toList <;> simp

/-- A package segment accepts every package only if it is a lone wildcard. -/
theorem forall_admits_package_iff (h : compile pattern = .ok p) :
    (∀ package, admits p.package package) ↔ p.package.all (· = .any) := by
  obtain ⟨-, -, -, hpackage, -⟩ := compile_eq_ok_iff.mp h
  cases hs : p.package with
  | none => simp [admits]
  | some s =>
    rw [hs] at hpackage
    obtain ⟨text, -, htext⟩ := Option.map_eq_some_iff.mp hpackage
    simpa [admits] using Segment.forall_accepts_iff htext

theorem acceptsPackageClass_iff : p.acceptsPackageClass package type ↔
    p.method = none ∧ admits p.package package ∧ p.type.all (·.acceptsClass type) := by
  rw [acceptsPackageClass, Bool.and_eq_true, Bool.and_eq_true, Option.isNone_iff_eq_none, and_assoc]

theorem acceptsClass_iff_forall_package (h : compile pattern = .ok p) :
    p.acceptsClass type ↔ ∀ package, p.acceptsPackageClass package type := by
  simp only [acceptsPackageClass_iff, forall_and, forall_const, forall_admits_package_iff h]
  rw [acceptsClass, Bool.and_eq_true, Bool.and_eq_true, Option.isNone_iff_eq_none, and_assoc]

theorem acceptsPackageClass_of_acceptsPackage (h : p.acceptsPackage package) (type : String) :
    p.acceptsPackageClass package type := by
  simp only [acceptsPackage, Bool.and_eq_true, Option.isNone_iff_eq_none, Option.any_eq_true] at h
  obtain ⟨⟨htype, hmethod⟩, s, hs, haccepts⟩ := h
  rw [acceptsPackageClass_iff, admits, htype, hs]
  exact ⟨hmethod, haccepts, rfl⟩

theorem acceptsMethod_eq_of_method_eq_none (h : p.method = none) (package type method : String) :
    p.acceptsMethod package type method = p.acceptsPackageClass package type := by
  simp [acceptsMethod, acceptsPackageClass, admits, h, Bool.and_comm]

/-- A pattern accepts a class whatever its package exactly if it accepts it in every package. If it
accepts a package it accepts every class of it, and if it accepts a class of a package it accepts
every method of that; a pattern without a method makes no difference between the two. A pattern with
a method accepts neither packages nor classes. -/
theorem queries_agree (h : compile pattern = .ok p) :
    (∀ type, p.acceptsClass type ↔ ∀ package, p.acceptsPackageClass package type) ∧
    (∀ package, p.acceptsPackage package → ∀ type, p.acceptsPackageClass package type) ∧
    (∀ package type, p.acceptsPackageClass package type →
      ∀ method, p.acceptsMethod package type method) ∧
    ('#' ∉ pattern.toList → ∀ package type method,
      p.acceptsMethod package type method = p.acceptsPackageClass package type) ∧
    ('#' ∈ pattern.toList → ∀ package type, p.acceptsPackage package = false ∧
      p.acceptsClass type = false ∧ p.acceptsPackageClass package type = false) := by
  refine ⟨fun _ => acceptsClass_iff_forall_package h,
    fun _ => acceptsPackageClass_of_acceptsPackage, fun package type haccepts method => ?_,
    fun hplain => ?_, fun hmethod package type => ?_⟩
  · have hnone := (acceptsPackageClass_iff.mp haccepts).1
    rwa [acceptsMethod_eq_of_method_eq_none hnone]
  · exact acceptsMethod_eq_of_method_eq_none ((method_eq_none_iff h).mpr hplain)
  · have hsome : p.method.isNone = false := by
      rw [Option.isNone_eq_false_iff, Option.isSome_iff_ne_none, Ne, method_eq_none_iff h]
      exact not_not_intro hmethod
    simp [acceptsPackage, acceptsClass, acceptsPackageClass, hsome]

/-- The pattern `*.Outer` reaches a nested class in every package and with all of its methods, and
`Outer#run` reaches a method without reaching its class. -/
theorem queries_agree_outer :
    (∃ p, compile "*.Outer" = .ok p ∧ p.acceptsClass "Outer$Inner" ∧
      ∀ package method, p.acceptsPackageClass package "Outer$Inner" ∧
        p.acceptsMethod package "Outer$Inner" method) ∧
    ∃ p, compile "Outer#run" = .ok p ∧ p.acceptsMethod "a" "Outer" "run" ∧
      ∀ package type, p.acceptsPackage package = false ∧ p.acceptsClass type = false ∧
        p.acceptsPackageClass package type = false := by
  constructor
  · have hp : compile "*.Outer" = .ok ⟨"*.Outer", some .any, some (.exact "Outer"), none⟩ := by
      decide
    obtain ⟨hclass, -, hmethod, -⟩ := queries_agree hp
    have haccepts : acceptsClass ⟨"*.Outer", some .any, some (.exact "Outer"), none⟩
        "Outer$Inner" := by decide
    have hall := (hclass _).mp haccepts
    exact ⟨_, hp, haccepts, fun package method => ⟨hall package, hmethod _ _ (hall package) method⟩⟩
  · have hp : compile "Outer#run" =
        .ok ⟨"Outer#run", none, some (.exact "Outer"), some (.exact "run")⟩ := by decide
    exact ⟨_, hp, by decide, (queries_agree hp).2.2.2.2 (by decide)⟩

end Pattern

end ClassDeps
