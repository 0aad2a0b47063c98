import ClassDeps.Proofs.Pattern.Language
import ClassDeps.Proofs.Policy.Build

namespace ClassDeps

section

variable {α β ε : Type} {x : Except ε α} {f : α → Except ε β} {ps qs : List ε}

/-- The computation fails exactly if there are problems, and with the first of them. -/
def Reports (x : Except ε α) (problems : List ε) : Prop :=
  ∀ e, x = .error e ↔ problems.head? = some e

theorem reports_ok (a : α) : Reports (.ok a : Except ε α) [] := by
  simp [Reports]

theorem reports_error (e : ε) (rest : List ε) : Reports (.error e : Except ε α) (e :: rest) := by
  simp [Reports]

theorem Reports.eq_nil_iff (h : Reports x ps) : ps = [] ↔ ∃ a, x = .ok a := by
  cases x with
  | error e =>
    have hhead := (h e).mp rfl
    exact iff_of_false (fun hnil => by simp [hnil] at hhead) (by simp)
  | ok a =>
    have hnone : ps.head? = none := by
      rw [Option.eq_none_iff_forall_ne_some]
      intro e he
      exact nomatch (h e).mpr he
    exact iff_of_true (List.head?_eq_none_iff.mp hnone) ⟨a, rfl⟩

theorem Reports.bind (h : Reports x ps) (hf : ∀ a, x = .ok a → Reports (f a) qs) :
    Reports (x >>= f) (ps ++ qs) := by
  cases x with
  | error e =>
    intro e'
    rw [List.head?_append, (h e).mp rfl]
    simp [Bind.bind, Except.bind]
  | ok a =>
    rw [h.eq_nil_iff.mpr ⟨a, rfl⟩]
    exact hf a rfl

theorem Reports.map (h : Reports x ps) (g : α → β) : Reports (do return g (← x)) ps := by
  rw [← List.append_nil ps]
  exact h.bind fun a _ => reports_ok (g a)

theorem reports_mapM {xs : List α} {g : α → List ε} (h : ∀ x ∈ xs, Reports (f x) (g x)) :
    Reports (xs.mapM f) (xs.flatMap g) := by
  induction xs with
  | nil => exact reports_ok []
  | cons x xs ih =>
    rw [List.mapM_cons, List.flatMap_cons]
    refine (h x List.mem_cons_self).bind fun y _ => ?_
    exact (ih fun z hz => h z (List.mem_cons_of_mem x hz)).map (y :: ·)

theorem reports_forM {xs : List α} {f : α → Except ε Unit} {g : α → List ε}
    (h : ∀ x ∈ xs, Reports (f x) (g x)) : Reports (xs.forM f) (xs.flatMap g) := by
  induction xs with
  | nil => exact reports_ok ()
  | cons x xs ih =>
    rw [List.flatMap_cons]
    exact (h x List.mem_cons_self).bind fun _ _ => ih fun z hz => h z (List.mem_cons_of_mem x hz)

end

namespace Policy

variable {default : Access} {declarations : List Declaration} {p : Policy}

def patternProblems (text : String) : List PolicyError :=
  match Pattern.compile text with
  | .ok _ => []
  | .error e => [.pattern e]

/-- The problems of subjects that are declared after those in `names`, for each the repeated name
before the pattern. -/
def subjectProblems : List String → List (String × String × Bool) → List PolicyError
  | _, [] => []
  | names, (name, text, _) :: rest =>
    (if name ∈ names then [.duplicateSubject name] else []) ++ patternProblems text ++
      subjectProblems (name :: names) rest

def nameProblems (names : List String) (name : String) : List PolicyError :=
  if name ∈ names then [] else [.unknownSubject name]

/-- The problems of a relation, the source before the target. -/
def relationProblems (names : List String) (relation : String × String) : List PolicyError :=
  nameProblems names relation.1 ++ nameProblems names relation.2

/-- All problems of the declarations, in the order in which they are looked for. -/
def problems (declarations : List Declaration) : List PolicyError :=
  subjectProblems [] (declarations.filterMap Declaration.subject?) ++
    (declarations.filterMap Declaration.relation?).flatMap
      (relationProblems (subjectNames declarations)) ++
    (declarations.filterMap Declaration.external?).flatMap patternProblems ++
    (declarations.filterMap Declaration.exclude?).flatMap patternProblems

theorem mem_patternProblems {text : String} {e : PolicyError} :
    e ∈ patternProblems text ↔ ∃ e', Pattern.compile text = .error e' ∧ e = .pattern e' := by
  rw [patternProblems]
  cases Pattern.compile text <;> simp

theorem mem_nameProblems {names : List String} {name : String} {e : PolicyError} :
    e ∈ nameProblems names name ↔ name ∉ names ∧ e = .unknownSubject name := by
  rw [nameProblems]
  split_ifs with h <;> simp [h]

theorem subjectProblems_of_nodup {names : List String} {entries : List (String × String × Bool)}
    (hnodup : (entries.map (·.1)).Nodup) (hnew : ∀ name ∈ entries.map (·.1), name ∉ names) :
    subjectProblems names entries = entries.flatMap fun entry => patternProblems entry.2.1 := by
  induction entries generalizing names with
  | nil => rfl
  | cons entry rest ih =>
    obtain ⟨hfresh, hrest⟩ := List.nodup_cons.mp hnodup
    obtain ⟨hname, hnames⟩ := List.forall_mem_cons.mp hnew
    rw [subjectProblems, if_neg hname, List.nil_append, List.flatMap_cons, ih hrest]
    intro n hn
    rw [List.mem_cons, not_or]
    refine ⟨?_, hnames n hn⟩
    rintro rfl
    exact hfresh hn

theorem reports_compilePattern (text : String) :
    Reports (compilePattern text) (patternProblems text) := by
  rw [compilePattern, patternProblems]
  cases Pattern.compile text with
  | error e => exact reports_error _ _
  | ok pattern => exact reports_ok pattern

theorem reports_buildSubjects (names : List String) (entries : List (String × String × Bool)) :
    Reports (buildSubjects declarations names entries) (subjectProblems names entries) := by
  induction entries generalizing names with
  | nil => exact reports_ok []
  | cons entry rest ih =>
    obtain ⟨name, text, allowAll⟩ := entry
    rw [buildSubjects, subjectProblems]
    by_cases hname : name ∈ names
    · rw [if_pos (List.contains_iff_mem.mpr hname), if_pos hname]
      exact reports_error _ _
    · rw [if_neg (mt List.contains_iff_mem.mp hname), if_neg hname, List.nil_append]
      exact (reports_compilePattern text).bind fun pattern _ => (ih (name :: names)).map _

theorem reports_checkRelation (subjects : List Subject) (relation : String × String) :
    Reports (checkRelation subjects relation)
      (relationProblems (subjects.map (·.name)) relation) := by
  have hany (name : String) :
      (!subjects.any (·.name = name)) = true ↔ name ∉ subjects.map (·.name) := by
    rw [Bool.not_eq_true', ← Bool.not_eq_true, any_name_iff]
  simp only [checkRelation, hany, relationProblems, nameProblems, ite_not]
  by_cases hsource : relation.1 ∈ subjects.map (·.name)
  · rw [if_pos hsource, if_pos hsource, List.nil_append]
    by_cases htarget : relation.2 ∈ subjects.map (·.name)
    · rw [if_pos htarget, if_pos htarget]
      exact reports_ok ()
    · rw [if_neg htarget, if_neg htarget]
      exact reports_error _ _
  · rw [if_neg hsource, if_neg hsource]
    exact reports_error _ _

theorem reports_build : Reports (build default declarations) (problems declarations) := by
  rw [problems, List.append_assoc, List.append_assoc]
  refine (reports_buildSubjects _ _).bind fun subjects hsubjects => ?_
  rw [subjectNames, ← map_name_of_buildSubjects hsubjects]
  refine (reports_forM fun r _ => reports_checkRelation subjects r).bind fun _ _ => ?_
  refine (reports_mapM fun text _ => reports_compilePattern text).bind fun externals _ => ?_
  exact (reports_mapM fun text _ => reports_compilePattern text).map _

/-- Subjects have different names, patterns are valid, and relations are between subjects, wherever
these are declared. -/
structure Sound (declarations : List Declaration) : Prop where
  distinct : (subjectNames declarations).Nodup
  subjects : ∀ name text allowAll, .subject name text allowAll ∈ declarations →
    ∃ pattern, Pattern.compile text = .ok pattern
  externals : ∀ text, .external text ∈ declarations → ∃ pattern, Pattern.compile text = .ok pattern
  exclusions : ∀ text, .exclude text ∈ declarations → ∃ pattern, Pattern.compile text = .ok pattern
  relations : ∀ s u, .mayUse s u ∈ declarations ∨ .mustNotUse s u ∈ declarations →
    s ∈ subjectNames declarations ∧ u ∈ subjectNames declarations

theorem patternProblems_eq_nil_iff {text : String} :
    patternProblems text = [] ↔ ∃ pattern, Pattern.compile text = .ok pattern := by
  simp only [(reports_compilePattern text).eq_nil_iff, compilePattern_eq_ok_iff]

theorem exists_compileSubject_iff {entry : String × String × Bool} :
    (∃ s, compileSubject declarations entry = .ok s) ↔
      ∃ pattern, Pattern.compile entry.2.1 = .ok pattern := by
  simp only [compileSubject, bind_eq_ok_iff, compilePattern_eq_ok_iff]
  constructor
  · rintro ⟨_, pattern, hpattern, -⟩
    exact ⟨pattern, hpattern⟩
  · rintro ⟨pattern, hpattern⟩
    exact ⟨_, pattern, hpattern, rfl⟩

theorem subjectProblems_eq_nil_iff {entries : List (String × String × Bool)} :
    subjectProblems [] entries = [] ↔ (entries.map (·.1)).Nodup ∧
      ∀ entry ∈ entries, ∃ pattern, Pattern.compile entry.2.1 = .ok pattern := by
  rw [(@reports_buildSubjects [] [] entries).eq_nil_iff]
  simp only [buildSubjects_eq_ok_iff, exists_and_left, exists_mapM_eq_ok_iff,
    exists_compileSubject_iff, List.not_mem_nil, not_false_eq_true, implies_true, true_and]

theorem relationProblems_eq_nil_iff {names : List String} {relation : String × String} :
    relationProblems names relation = [] ↔ relation.1 ∈ names ∧ relation.2 ∈ names := by
  simp [relationProblems, nameProblems]

theorem mem_declared_relations {s u : String} :
    (s, u) ∈ declarations.filterMap Declaration.relation? ↔
      .mayUse s u ∈ declarations ∨ .mustNotUse s u ∈ declarations := by
  have hrelation (d : Declaration) :
      d.relation? = some (s, u) ↔ d = .mayUse s u ∨ d = .mustNotUse s u := by
    cases d <;> simp [Declaration.relation?]
  simp only [List.mem_filterMap, hrelation, and_or_left, exists_or, exists_eq_right]

theorem problems_eq_nil_iff : problems declarations = [] ↔ Sound declarations := by
  simp only [problems, List.append_eq_nil_iff, List.flatMap_eq_nil_iff, subjectProblems_eq_nil_iff,
    patternProblems_eq_nil_iff, relationProblems_eq_nil_iff, Prod.forall, mem_declared_subjects,
    mem_declared_externals, mem_declared_exclusions, mem_declared_relations]
  constructor
  · rintro ⟨⟨⟨⟨hdistinct, hsubjects⟩, hrelations⟩, hexternals⟩, hexclusions⟩
    exact ⟨hdistinct, hsubjects, hexternals, hexclusions, hrelations⟩
  · rintro ⟨hdistinct, hsubjects, hexternals, hexclusions, hrelations⟩
    exact ⟨⟨⟨⟨hdistinct, hsubjects⟩, hrelations⟩, hexternals⟩, hexclusions⟩

/-- The subject of number `i` has the one of number `j` among its targets of one kind. -/
def Relates (p : Policy) (targets : Subject → Std.ExtTreeSet String) (i j : Nat) : Prop :=
  ∃ s t, p.subjects[i]? = some s ∧ p.subjects[j]? = some t ∧ t.name ∈ targets s

/-- The subjects are numbered as they are declared, and their targets are the declared ones. -/
structure Numbered (p : Policy) (declarations : List Declaration) : Prop where
  subjects : p.subjects.map (fun s => (s.name, s.pattern.text, s.allowAll)) =
    declarations.filterMap Declaration.subject?
  patterns : ∀ s ∈ p.subjects, Pattern.compile s.pattern.text = .ok s.pattern
  mayUse : ∀ i j, p.Relates (·.mayUse) i j ↔ ∃ s u, (subjectNames declarations)[i]? = some s ∧
    (subjectNames declarations)[j]? = some u ∧ .mayUse s u ∈ declarations
  mustNotUse : ∀ i j, p.Relates (·.mustNotUse) i j ↔ ∃ s u,
    (subjectNames declarations)[i]? = some s ∧ (subjectNames declarations)[j]? = some u ∧
      .mustNotUse s u ∈ declarations
  targets : ∀ s ∈ p.subjects, ∀ u, u ∈ s.mayUse ∨ u ∈ s.mustNotUse →
    u ∈ subjectNames declarations

theorem relates_iff (h : build default declarations = .ok p)
    {targets : Subject → Std.ExtTreeSet String} {relation : String → String → Declaration}
    (htargets : ∀ s ∈ p.subjects, ∀ u, u ∈ targets s ↔ relation s.name u ∈ declarations)
    (i j : Nat) : p.Relates targets i j ↔ ∃ s u, (subjectNames declarations)[i]? = some s ∧
      (subjectNames declarations)[j]? = some u ∧ relation s u ∈ declarations := by
  simp only [← map_name_subjects h, List.getElem?_map, Option.map_eq_some_iff]
  constructor
  · rintro ⟨s, t, hs, ht, hmem⟩
    exact ⟨_, _, ⟨s, hs, rfl⟩, ⟨t, ht, rfl⟩, (htargets s (List.mem_of_getElem? hs) _).mp hmem⟩
  · rintro ⟨_, _, ⟨s, hs, rfl⟩, ⟨t, ht, rfl⟩, hmem⟩
    exact ⟨s, t, hs, ht, (htargets s (List.mem_of_getElem? hs) _).mpr hmem⟩

theorem declared_of_compileSubject {entry : String × String × Bool} {s : Subject}
    (h : compileSubject declarations entry = .ok s) :
    (s.name, s.pattern.text, s.allowAll) = entry ∧
      Pattern.compile s.pattern.text = .ok s.pattern := by
  obtain ⟨pattern, hpattern, he⟩ := bind_eq_ok_iff.mp h
  cases he
  rw [compilePattern_eq_ok_iff] at hpattern
  have htext : pattern.text = entry.2.1 := (Pattern.compile_eq_ok_iff.mp hpattern).2.2.1
  rw [declaredSubject, htext]
  exact ⟨rfl, hpattern⟩

theorem numbered_of_build (h : build default declarations = .ok p) : p.Numbered declarations := by
  have hreflects := reflects_of_build h
  obtain ⟨-, hsubjects, hrelations, -⟩ := build_eq_ok_iff.mp h
  obtain ⟨-, -, hcompiled⟩ := buildSubjects_eq_ok_iff.mp hsubjects
  refine ⟨?_, fun s hs => ?_, relates_iff h fun _ hs _ => hreflects.mem_mayUse hs,
    relates_iff h fun _ hs _ => hreflects.mem_mustNotUse hs, fun s hs u hu => ?_⟩
  · rw [map_eq_of_mapM_eq_ok hcompiled fun _ _ hs => (declared_of_compileSubject hs).1,
      List.map_id']
  · obtain ⟨entry, -, he⟩ := (mem_of_mapM_eq_ok hcompiled).mp hs
    exact (declared_of_compileSubject he).2
  · rw [hreflects.mem_mayUse hs, hreflects.mem_mustNotUse hs, ← mem_declared_relations] at hu
    rw [← map_name_subjects h]
    exact (hrelations _ hu).2

/-- Declarations make a policy exactly if they are sound. It then has the subjects and relations
that are declared, the subjects numbered in the order of their declaration. Otherwise the error is
the first of the problems. -/
theorem build_reports_first_problem (default : Access) (declarations : List Declaration) :
    ((∃ p, build default declarations = .ok p) ↔ Sound declarations) ∧
    (∀ p, build default declarations = .ok p → p.Numbered declarations) ∧
    ∀ e, build default declarations = .error e ↔ (problems declarations).head? = some e := by
  refine ⟨?_, fun p => numbered_of_build, reports_build⟩
  rw [← problems_eq_nil_iff, reports_build.eq_nil_iff]

/-- Nothing is right here: a name is declared twice, no pattern but the first is valid, and the
relation has an end that is no subject. -/
def muddle : List Declaration :=
  [.exclude "", .external "a*b", .mayUse "low" "high", .subject "low" "low" false,
    .subject "low" "**" false]

/-- Relations before and between the subjects that they are about. -/
def scattered : List Declaration :=
  [.mustNotUse "high" "low", .subject "low" "low" false, .mayUse "low" "high",
    .subject "high" "high" false]

theorem build_reports_first_problem_muddle :
    (problems muddle).length = 5 ∧ build .deny muddle = .error (.duplicateSubject "low") ∧
      ∃ p, build .deny scattered = .ok p ∧ p.Relates (·.mustNotUse) 1 0 ∧
        p.Relates (·.mayUse) 0 1 ∧ ¬p.Relates (·.mayUse) 1 0 := by
  obtain ⟨-, -, hfirst⟩ := build_reports_first_problem .deny muddle
  obtain ⟨hsound, hnumbered, -⟩ := build_reports_first_problem .deny scattered
  obtain ⟨p, hp⟩ := hsound.mpr (problems_eq_nil_iff.mp (by decide))
  refine ⟨by decide, (hfirst _).mpr (by decide), p, hp,
    ((hnumbered p hp).mustNotUse 1 0).mpr ⟨"high", "low", by decide⟩,
    ((hnumbered p hp).mayUse 0 1).mpr ⟨"low", "high", by decide⟩, ?_⟩
  rw [(hnumbered p hp).mayUse]
  rintro ⟨s, u, hs, hu, hmem⟩
  obtain rfl : "high" = s := Option.some.inj hs
  obtain rfl : "low" = u := Option.some.inj hu
  exact absurd hmem (by decide)

end Policy

end ClassDeps
