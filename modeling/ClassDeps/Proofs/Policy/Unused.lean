import ClassDeps.Proofs.Policy.SubjectCycle

namespace ClassDeps.Policy

variable {default : Access} {declarations : List Declaration} {p : Policy} {m : Model}
  {placed : Std.ExtTreeMap ClassId Placement} {edges : List PlacedEdge}

/-- The number of subjects that are declared before the one called `name`. -/
def position (declarations : List Declaration) (name : String) : Nat :=
  (subjectNames declarations).idxOf name

/-- The place of a permission: by the subject that has it, then by the one it is for. -/
def rulePosition (declarations : List Declaration) (r : UnusedRule) : Nat ×ₗ Nat :=
  toLex (position declarations r.subject, position declarations r.target)

theorem subjectNames_ascending (h : (subjectNames declarations).Nodup) :
    (subjectNames declarations).Pairwise fun s u =>
      position declarations s < position declarations u := by
  rw [List.pairwise_iff_getElem]
  intro i j hi hj hij
  rw [position, position, h.idxOf_getElem i hi, h.idxOf_getElem j hj]
  exact hij

theorem exists_subject_iff (h : build default declarations = .ok p) {name : String} :
    (∃ s ∈ p.subjects, s.name = name) ↔ name ∈ subjectNames declarations := by
  rw [← map_name_subjects h, List.mem_map]

/-- A class edge makes use of the permission of `s` to use `u`. One that is forbidden does not,
except inside one subject. -/
def Exercised (p : Policy) (declarations : List Declaration) (m : Model) (s u : String) : Prop :=
  (∃ x y, m.UsesName x y ∧ p.Resolves x s ∧ p.Resolves y u) ∧
    (s = u ∨ .mustNotUse s u ∉ declarations)

/-- The permission of `s` to use `u`, if it is not in use. -/
def unusedRule? (used : Permissions) (s u : Subject) : Option UnusedRule :=
  if s.mayUse.contains u.name && !used.contains (s.name, u.name) then some ⟨s.name, u.name⟩
  else none

theorem unusedRules_eq (p : Policy) (used : Permissions) :
    p.unusedRules used = p.subjects.flatMap fun s => p.subjects.filterMap (unusedRule? used s) :=
  rfl

theorem unusedRule?_eq_some_iff {used : Permissions} {s u : Subject} {r : UnusedRule} :
    unusedRule? used s u = some r ↔ u.name ∈ s.mayUse ∧ (s.name, u.name) ∉ used ∧
      ⟨s.name, u.name⟩ = r := by
  simp only [unusedRule?, Option.ite_none_right_eq_some, Bool.and_eq_true,
    Std.ExtTreeSet.contains_iff_mem, Bool.not_eq_true', ← Bool.not_eq_true, Option.some_inj,
    and_assoc]

section

variable (hp : build default declarations = .ok p)

include hp

/-- Both ends of a declared permission are subjects. -/
theorem mem_subjectNames_of_mayUse {s u : String} (h : .mayUse s u ∈ declarations) :
    s ∈ subjectNames declarations ∧ u ∈ subjectNames declarations := by
  obtain ⟨-, -, hrelations, -⟩ := build_eq_ok_iff.mp hp
  rw [map_name_subjects hp] at hrelations
  exact hrelations (s, u) (List.mem_filterMap.mpr ⟨_, h, rfl⟩)

theorem mem_unusedRules_iff_exercised (hm : m.Coherent) (hplaced : p.placements m = .ok placed)
    (hedges : p.placedEdges m placed = .ok edges) {s u : String} :
    ⟨s, u⟩ ∈ p.unusedRules (p.used edges) ↔
      .mayUse s u ∈ declarations ∧ ¬p.Exercised declarations m s u := by
  have hreflects := reflects_of_build hp
  have hexercised : ∀ {x y : Subject}, x ∈ p.subjects → y.name ∈ x.mayUse →
      ((x.name, y.name) ∈ p.used edges ↔ p.Exercised declarations m x.name y.name) := by
    intro x y hx hmay
    have hsource : ∀ e ∈ edges, e.source ∈ p.subjects := by
      intro e he
      rw [mem_placedEdges_iff_names hm (List.ne_nil_of_mem hx) hplaced hedges] at he
      exact (mem_matching.mp he.2.2.2.1).1
    rw [mem_used_iff, Exercised, ← exists_placedEdge_iff_resolves hm hplaced hedges]
    constructor
    · rintro ⟨e, he, hs, htarget, -, hrule⟩
      rw [hreflects.mem_mustNotUse (hsource e he), hs] at hrule
      exact ⟨⟨e, he, hs, htarget⟩, hrule⟩
    · rintro ⟨⟨e, he, hs, htarget⟩, hrule⟩
      refine ⟨e, he, hs, htarget, ?_, ?_⟩
      · rwa [hreflects.mem_mayUse (hsource e he), hs, ← hreflects.mem_mayUse hx]
      · rwa [hreflects.mem_mustNotUse (hsource e he), hs]
  rw [unusedRules_eq, List.mem_flatMap]
  simp only [List.mem_filterMap, unusedRule?_eq_some_iff, UnusedRule.mk.injEq]
  constructor
  · rintro ⟨x, hx, y, -, hmay, hnone, rfl, rfl⟩
    rw [hexercised hx hmay] at hnone
    exact ⟨(hreflects.mem_mayUse hx).mp hmay, hnone⟩
  · rintro ⟨hmay, hnone⟩
    obtain ⟨hs, hu⟩ := mem_subjectNames_of_mayUse hp hmay
    obtain ⟨x, hx, rfl⟩ := (exists_subject_iff hp).mpr hs
    obtain ⟨y, hy, rfl⟩ := (exists_subject_iff hp).mpr hu
    rw [← hreflects.mem_mayUse hx] at hmay
    rw [← hexercised hx hmay] at hnone
    exact ⟨x, hx, y, hy, hmay, hnone, rfl, rfl⟩

theorem subjects_ascending :
    p.subjects.Pairwise fun s u => position declarations s.name < position declarations u.name := by
  have hascending := subjectNames_ascending (nodup_subjectNames hp)
  rw [← map_name_subjects hp, List.pairwise_map] at hascending
  exact hascending

theorem unusedRules_ascending (used : Permissions) :
    (p.unusedRules used).Pairwise fun r r' =>
      rulePosition declarations r < rulePosition declarations r' := by
  have hascending := subjects_ascending hp
  rw [unusedRules_eq, List.pairwise_flatMap]
  constructor
  · intro s _
    rw [List.pairwise_filterMap]
    apply hascending.imp
    intro u u' hlt r hr r' hr'
    obtain ⟨-, -, rfl⟩ := unusedRule?_eq_some_iff.mp hr
    obtain ⟨-, -, rfl⟩ := unusedRule?_eq_some_iff.mp hr'
    exact Prod.Lex.right _ hlt
  · apply hascending.imp
    intro s s' hlt r hr r' hr'
    obtain ⟨u, -, hr⟩ := List.mem_filterMap.mp hr
    obtain ⟨u', -, hr'⟩ := List.mem_filterMap.mp hr'
    obtain ⟨-, -, rfl⟩ := unusedRule?_eq_some_iff.mp hr
    obtain ⟨-, -, rfl⟩ := unusedRule?_eq_some_iff.mp hr'
    exact Prod.Lex.left _ _ hlt

theorem mem_emptySubjects (hm : m.Coherent) (hplaced : p.placements m = .ok placed)
    {s : String} : s ∈ p.emptySubjects placed ↔ s ∈ subjectNames declarations ∧
      ¬∃ x a, m.DefinesName x ∧ Name.isPackageInfo x = false ∧ Matches declarations s a x := by
  rw [emptySubjects, List.mem_filter, map_name_subjects hp]
  refine and_congr_right fun hs => ?_
  have hne : p.subjects ≠ [] := by
    obtain ⟨x, hx, -⟩ := (exists_subject_iff hp).mpr hs
    exact List.ne_nil_of_mem hx
  rw [Bool.not_eq_true', ← Bool.not_eq_true, List.contains_iff_mem,
    mem_populated_iff_names hm hne hplaced]
  refine not_congr (exists_congr fun x => ?_)
  simp only [(reflects_of_build hp).matches_iff]
  constructor
  · rintro ⟨y, hx, hinfo, hy, hname⟩
    exact ⟨y.allowAll, hx, hinfo, y, hy, hname, rfl⟩
  · rintro ⟨_, hx, hinfo, y, hy, hname, -⟩
    exact ⟨y, hx, hinfo, hy, hname⟩

theorem emptySubjects_ascending (placed : Std.ExtTreeMap ClassId Placement) :
    (p.emptySubjects placed).Pairwise fun s u =>
      position declarations s < position declarations u := by
  rw [emptySubjects, map_name_subjects hp]
  exact (subjectNames_ascending (nodup_subjectNames hp)).filter _

end

/-- On every model, an evaluation that succeeds reports as unused exactly the declared permissions
that no class edge makes use of, and as empty exactly the subjects whose patterns match no defined
class apart from the information of packages. Permissions come in the order in which the subjects
that have them and then the others were declared, subjects in the order of their declaration, and
each comes once. -/
theorem unused_and_empty_exact (hp : build default declarations = .ok p) (mode : CycleMode)
    (hm : m.Reachable) {e : Evaluation}
    (he : evaluate { p with cycleMode := mode } m = .ok e) :
    (∀ s u, ⟨s, u⟩ ∈ e.unusedRules ↔
      .mayUse s u ∈ declarations ∧ ¬p.Exercised declarations m s u) ∧
    (e.unusedRules.Pairwise fun r r' =>
      rulePosition declarations r < rulePosition declarations r') ∧
    (∀ s, s ∈ e.emptySubjects ↔ s ∈ subjectNames declarations ∧
      ¬∃ x a, m.DefinesName x ∧ Name.isPackageInfo x = false ∧ Matches declarations s a x) ∧
    e.emptySubjects.Pairwise fun s u =>
      position declarations s < position declarations u := by
  obtain ⟨placed, edges, hplaced, hedges, rfl⟩ := evaluate_eq_ok_iff.mp he
  exact ⟨fun _ _ => mem_unusedRules_iff_exercised hp hm.coherent hplaced hedges,
    unusedRules_ascending hp _, fun _ => mem_emptySubjects hp hm.coherent hplaced,
    emptySubjects_ascending hp placed⟩

/-- The layers and a subject beside them. Of the four permissions one is forbidden as well, and one
is for the subject itself. -/
def sparePermissions : List Declaration :=
  [.mayUse "spare" "low", .subject "low" "low" false, .subject "high" "high" false,
    .subject "spare" "spare" false, .mayUse "high" "low", .mayUse "high" "high",
    .mayUse "low" "high", .mustNotUse "low" "high"]

def sparePolicy : Policy :=
  match build .deny sparePermissions with
  | .ok p => p
  | .error _ => permissive

theorem build_sparePermissions : build .deny sparePermissions = .ok sparePolicy :=
  eq_ok_of_isOk permissive (by decide)

/-- The layers use each other, the higher one also a class of its own that is not defined. The
subject beside them has nothing but the information of a package. -/
def spareModel : Model :=
  let low := (Model.empty.define ⟨"low.A", 1, 0, none, ∅, .ofList ["high.B"]⟩).2
  let high := (low.define ⟨"high.B", 1, 0, none, ∅, .ofList ["low.A", "high.C"]⟩).2
  (high.define ⟨"spare.package-info", 1, 0, none, ∅, ∅⟩).2

theorem unused_and_empty_exact_spare :
    ∃ e, sparePolicy.evaluate spareModel = .ok e ∧
      e.unusedRules = [⟨"low", "high"⟩, ⟨"spare", "low"⟩] ∧ e.emptySubjects = ["spare"] ∧
      ¬sparePolicy.Exercised sparePermissions spareModel "low" "high" ∧
      sparePolicy.Exercised sparePermissions spareModel "high" "high" ∧
      ¬∃ x a, spareModel.DefinesName x ∧ Name.isPackageInfo x = false ∧
        Matches sparePermissions "spare" a x := by
  have hm : spareModel.Reachable := .define _ (.define _ (.define _ .empty))
  have hfound : (do
      let placed ← sparePolicy.placements spareModel
      let edges ← sparePolicy.placedEdges spareModel placed
      return (sparePolicy.unusedRules (sparePolicy.used edges),
        sparePolicy.emptySubjects placed)) =
      .ok ([⟨"low", "high"⟩, ⟨"spare", "low"⟩], ["spare"]) := by
    decide
  obtain ⟨placed, hplaced, hfound⟩ := bind_eq_ok_iff.mp hfound
  obtain ⟨edges, hedges, hfound⟩ := bind_eq_ok_iff.mp hfound
  have he := evaluate_eq_ok_iff.mpr ⟨placed, edges, hplaced, hedges, rfl⟩
  obtain ⟨hunused, hempty⟩ : (sparePolicy.report spareModel placed edges).unusedRules = _ ∧
      (sparePolicy.report spareModel placed edges).emptySubjects = _ :=
    Prod.mk.inj (Except.ok.inj hfound)
  obtain ⟨hrules, -, hsubjects, -⟩ :=
    unused_and_empty_exact build_sparePermissions sparePolicy.cycleMode hm he
  rw [hunused] at hrules
  rw [hempty] at hsubjects
  refine ⟨_, he, hunused, hempty, ((hrules "low" "high").mp (by decide)).2, ?_,
    ((hsubjects "spare").mp (by decide)).2⟩
  by_contra hnone
  have hlisted := (hrules "high" "high").mpr ⟨by decide, hnone⟩
  revert hlisted
  decide

end ClassDeps.Policy
