import ClassDeps.Policy.Basic
import ClassDeps.Proofs.Traverse

namespace ClassDeps.Policy

variable {default : Access} {declarations : List Declaration} {p : Policy}

theorem compilePattern_eq_ok_iff {text : String} {pattern : Pattern} :
    compilePattern text = .ok pattern ↔ Pattern.compile text = .ok pattern := by
  rw [compilePattern]
  cases Pattern.compile text with
  | error e => simp [Except.mapError]
  | ok x => simp [Except.mapError]

theorem mem_selected {γ : Type} {select : Declaration → Option γ} {x : γ} {e : Declaration}
    (h : ∀ d, select d = some x ↔ d = e) :
    x ∈ declarations.filterMap select ↔ e ∈ declarations := by
  simp only [List.mem_filterMap, h, exists_eq_right]

theorem mem_declared_subjects {name text : String} {allowAll : Bool} :
    (name, text, allowAll) ∈ declarations.filterMap Declaration.subject? ↔
      .subject name text allowAll ∈ declarations := by
  apply mem_selected
  intro d
  cases d <;> simp [Declaration.subject?]

theorem mem_declared_externals {text : String} :
    text ∈ declarations.filterMap Declaration.external? ↔ .external text ∈ declarations := by
  apply mem_selected
  intro d
  cases d <;> simp [Declaration.external?]

theorem mem_declared_exclusions {text : String} :
    text ∈ declarations.filterMap Declaration.exclude? ↔ .exclude text ∈ declarations := by
  apply mem_selected
  intro d
  cases d <;> simp [Declaration.exclude?]

theorem mem_targetsOf {relation : Declaration → Option (String × String)} {s u : String} :
    u ∈ targetsOf relation s declarations ↔ (s, u) ∈ declarations.filterMap relation := by
  rw [targetsOf, Std.ExtTreeSet.mem_ofList, List.contains_iff_mem, List.mem_filterMap]
  constructor
  · rintro ⟨⟨s', u'⟩, hr, he⟩
    split at he
    case isTrue hs =>
      cases hs
      cases he
      exact hr
    case isFalse => cases he
  · intro h
    exact ⟨(s, u), h, if_pos rfl⟩

theorem mem_mayUse_targets {s u : String} :
    u ∈ targetsOf Declaration.mayUse? s declarations ↔ .mayUse s u ∈ declarations := by
  rw [mem_targetsOf]
  apply mem_selected
  intro d
  cases d <;> simp [Declaration.mayUse?]

theorem mem_mustNotUse_targets {s u : String} :
    u ∈ targetsOf Declaration.mustNotUse? s declarations ↔ .mustNotUse s u ∈ declarations := by
  rw [mem_targetsOf]
  apply mem_selected
  intro d
  cases d <;> simp [Declaration.mustNotUse?]

/-- The subject that a declaration makes, once its pattern is compiled. -/
def declaredSubject (declarations : List Declaration) (name : String) (pattern : Pattern)
    (allowAll : Bool) : Subject where
  name
  pattern
  allowAll
  mayUse := targetsOf Declaration.mayUse? name declarations
  mustNotUse := targetsOf Declaration.mustNotUse? name declarations

/-- The subject of a declaration, if its pattern is valid. -/
def compileSubject (declarations : List Declaration) (entry : String × String × Bool) :
    Except PolicyError Subject := do
  return declaredSubject declarations entry.1 (← compilePattern entry.2.1) entry.2.2

/-- Of the other declarations a subject depends on the relations only, in no order. -/
theorem compileSubject_congr {declarations' : List Declaration}
    (hmay : ∀ s u, .mayUse s u ∈ declarations ↔ .mayUse s u ∈ declarations')
    (hmust : ∀ s u, .mustNotUse s u ∈ declarations ↔ .mustNotUse s u ∈ declarations') :
    compileSubject declarations = compileSubject declarations' := by
  have hmay' (name : String) : targetsOf Declaration.mayUse? name declarations =
      targetsOf Declaration.mayUse? name declarations' := by
    apply Std.ExtTreeSet.ext_mem
    intro u
    rw [mem_mayUse_targets, mem_mayUse_targets, hmay]
  have hmust' (name : String) : targetsOf Declaration.mustNotUse? name declarations =
      targetsOf Declaration.mustNotUse? name declarations' := by
    apply Std.ExtTreeSet.ext_mem
    intro u
    rw [mem_mustNotUse_targets, mem_mustNotUse_targets, hmust]
  funext entry
  simp only [compileSubject, declaredSubject, hmay', hmust']

/-- Subjects can be built exactly if no name is repeated and every pattern is valid. -/
theorem buildSubjects_eq_ok_iff {names : List String} {entries : List (String × String × Bool)}
    {subjects : List Subject} : buildSubjects declarations names entries = .ok subjects ↔
      (entries.map (·.1)).Nodup ∧ (∀ name ∈ entries.map (·.1), name ∉ names) ∧
        entries.mapM (compileSubject declarations) = .ok subjects := by
  induction entries generalizing names subjects with
  | nil => simp [buildSubjects, pure, Except.pure]
  | cons entry rest ih =>
    obtain ⟨name, text, allowAll⟩ := entry
    rw [buildSubjects, List.mapM_cons, List.map_cons, List.nodup_cons, List.forall_mem_cons]
    by_cases hname : name ∈ names
    · simp [hname]
    · simp only [List.contains_iff_mem, hname, if_false, bind_eq_ok_iff, ih, compileSubject,
        List.mem_cons, not_or, not_false_eq_true, true_and]
      constructor
      · rintro ⟨pattern, hpattern, others, ⟨hnodup, hnew, hothers⟩, he⟩
        refine ⟨⟨fun hmem => (hnew name hmem).1 rfl, hnodup⟩, fun n hn => (hnew n hn).2, ?_⟩
        exact ⟨_, ⟨pattern, hpattern, rfl⟩, others, hothers, he⟩
      · rintro ⟨⟨hfresh, hnodup⟩, hnew, _, ⟨pattern, hpattern, hs⟩, others, hothers, he⟩
        cases hs
        refine ⟨pattern, hpattern, others, ⟨hnodup, ?_, hothers⟩, he⟩
        intro n hn
        refine ⟨?_, hnew n hn⟩
        rintro rfl
        exact hfresh hn

theorem mem_of_buildSubjects {names : List String} {entries : List (String × String × Bool)}
    {subjects : List Subject} (h : buildSubjects declarations names entries = .ok subjects)
    {s : Subject} :
    s ∈ subjects ↔ ∃ name text allowAll pattern, (name, text, allowAll) ∈ entries ∧
      Pattern.compile text = .ok pattern ∧
      s = declaredSubject declarations name pattern allowAll := by
  rw [mem_of_mapM_eq_ok (buildSubjects_eq_ok_iff.mp h).2.2]
  simp only [compileSubject, bind_eq_ok_iff, compilePattern_eq_ok_iff, Prod.exists]
  constructor
  · rintro ⟨name, text, allowAll, hentry, pattern, hpattern, hs⟩
    exact ⟨name, text, allowAll, pattern, hentry, hpattern, (Except.ok.inj hs).symm⟩
  · rintro ⟨name, text, allowAll, pattern, hentry, hpattern, rfl⟩
    exact ⟨name, text, allowAll, hentry, pattern, hpattern, rfl⟩

theorem map_name_of_buildSubjects {names : List String} {entries : List (String × String × Bool)}
    {subjects : List Subject} (h : buildSubjects declarations names entries = .ok subjects) :
    subjects.map (·.name) = entries.map (·.1) := by
  apply map_eq_of_mapM_eq_ok (buildSubjects_eq_ok_iff.mp h).2.2
  intro entry s hs
  obtain ⟨pattern, -, he⟩ := bind_eq_ok_iff.mp hs
  cases he
  rfl

theorem any_name_iff {subjects : List Subject} {name : String} :
    subjects.any (·.name = name) ↔ name ∈ subjects.map (·.name) := by
  simp only [List.any_eq_true, decide_eq_true_eq, List.mem_map]

theorem checkRelation_eq_ok_iff {subjects : List Subject} {relation : String × String} :
    checkRelation subjects relation = .ok () ↔
      relation.1 ∈ subjects.map (·.name) ∧ relation.2 ∈ subjects.map (·.name) := by
  rw [checkRelation, ← any_name_iff, ← any_name_iff]
  split_ifs <;> simp_all

theorem build_eq_ok_iff : build default declarations = .ok p ↔
    p.default = default ∧
    buildSubjects declarations [] (declarations.filterMap Declaration.subject?) =
      .ok p.subjects ∧
    (∀ r ∈ declarations.filterMap Declaration.relation?,
      r.1 ∈ p.subjects.map (·.name) ∧ r.2 ∈ p.subjects.map (·.name)) ∧
    (declarations.filterMap Declaration.external?).mapM compilePattern = .ok p.externals ∧
    (declarations.filterMap Declaration.exclude?).mapM compilePattern = .ok p.cycleExclusions ∧
    p.cycleMode = ((declarations.filterMap Declaration.mode?).getLast?).getD .packages := by
  simp only [build, bind_eq_ok_iff]
  constructor
  · rintro ⟨subjects, hsubjects, ⟨⟩, hrelations, externals, hexternals, exclusions, hexclusions, hp⟩
    cases hp
    rw [forM_eq_ok_iff] at hrelations
    exact ⟨rfl, hsubjects, fun r hr => checkRelation_eq_ok_iff.mp (hrelations r hr), hexternals,
      hexclusions, rfl⟩
  · rintro ⟨rfl, hsubjects, hrelations, hexternals, hexclusions, hmode⟩
    refine ⟨p.subjects, hsubjects, (), ?_, p.externals, hexternals, p.cycleExclusions, hexclusions,
      ?_⟩
    · rw [forM_eq_ok_iff]
      intro r hr
      exact checkRelation_eq_ok_iff.mpr (hrelations r hr)
    · rw [← hmode]
      rfl

/-- The names of the subjects, in the order of their declaration. -/
def subjectNames (declarations : List Declaration) : List String :=
  (declarations.filterMap Declaration.subject?).map (·.1)

theorem map_name_subjects (h : build default declarations = .ok p) :
    p.subjects.map (·.name) = subjectNames declarations := by
  obtain ⟨-, hsubjects, -⟩ := build_eq_ok_iff.mp h
  exact map_name_of_buildSubjects hsubjects

theorem nodup_subjectNames (h : build default declarations = .ok p) :
    (subjectNames declarations).Nodup := by
  obtain ⟨-, hsubjects, -⟩ := build_eq_ok_iff.mp h
  exact (buildSubjects_eq_ok_iff.mp hsubjects).1

/-- The policy has exactly the subjects and the external patterns that are declared. -/
structure Reflects (p : Policy) (default : Access) (declarations : List Declaration) : Prop where
  default_eq : p.default = default
  mem_subjects : ∀ s, s ∈ p.subjects ↔ ∃ name text allowAll pattern,
    .subject name text allowAll ∈ declarations ∧ Pattern.compile text = .ok pattern ∧
    s = declaredSubject declarations name pattern allowAll
  mem_externals : ∀ pattern, pattern ∈ p.externals ↔
    ∃ text, .external text ∈ declarations ∧ Pattern.compile text = .ok pattern

theorem reflects_of_build (h : build default declarations = .ok p) :
    p.Reflects default declarations := by
  obtain ⟨hdefault, hsubjects, -, hexternals, -⟩ := build_eq_ok_iff.mp h
  refine ⟨hdefault, ?_, ?_⟩
  · intro s
    rw [mem_of_buildSubjects hsubjects]
    simp only [mem_declared_subjects]
  · intro pattern
    rw [mem_of_mapM_eq_ok hexternals]
    simp only [mem_declared_externals, compilePattern_eq_ok_iff]

namespace Reflects

theorem mem_mayUse (h : p.Reflects default declarations) {s : Subject} (hs : s ∈ p.subjects)
    {u : String} : u ∈ s.mayUse ↔ .mayUse s.name u ∈ declarations := by
  obtain ⟨name, text, allowAll, pattern, -, -, rfl⟩ := (h.mem_subjects s).mp hs
  exact mem_mayUse_targets

theorem mem_mustNotUse (h : p.Reflects default declarations) {s : Subject} (hs : s ∈ p.subjects)
    {u : String} : u ∈ s.mustNotUse ↔ .mustNotUse s.name u ∈ declarations := by
  obtain ⟨name, text, allowAll, pattern, -, -, rfl⟩ := (h.mem_subjects s).mp hs
  exact mem_mustNotUse_targets

end Reflects

end ClassDeps.Policy
