import ClassDeps.Policy.Evaluate
import ClassDeps.Proofs.Traverse

namespace ClassDeps.Policy

variable {p : Policy} {m : Model} {edges : List PlacedEdge}

/-- Why an edge is rejected, if it is. -/
def verdict (p : Policy) (e : PlacedEdge) : Option ViolationKind :=
  let closed := !e.source.allowAll && p.default = .deny
  match e.target with
  | .subject target =>
    if target.name = e.source.name then none
    else if e.source.mustNotUse.contains target.name then some .forbidden
    else if e.source.mayUse.contains target.name then none
    else if closed then some .notAllowed
    else none
  | .external => none
  | .undeclared => if closed then some .notAllowed else none

def violation? (p : Policy) (e : PlacedEdge) : Option Violation :=
  (p.verdict e).map e.violation

/-- The permission that an edge makes use of. A rule that forbids the use comes first, except inside
one subject. -/
def permission? (e : PlacedEdge) : Option (String × String) :=
  match e.target with
  | .subject target =>
    if e.source.mayUse.contains target.name &&
        (target.name = e.source.name || !e.source.mustNotUse.contains target.name) then
      some (e.source.name, target.name)
    else none
  | _ => none

theorem permission?_eq_some_iff {e : PlacedEdge} {s u : String} :
    permission? e = some (s, u) ↔ e.source.name = s ∧ (∃ x, e.target = .subject x ∧ x.name = u) ∧
      u ∈ e.source.mayUse ∧ (s = u ∨ u ∉ e.source.mustNotUse) := by
  unfold permission?
  cases e.target with
  | external => simp
  | undeclared => simp
  | subject target =>
    simp only [Option.ite_none_right_eq_some, Bool.and_eq_true, Bool.or_eq_true,
      decide_eq_true_eq, Bool.not_eq_true', ← Bool.not_eq_true, Std.ExtTreeSet.contains_iff_mem,
      Option.some_inj, Prod.mk.injEq, Placement.subject.injEq]
    constructor
    · rintro ⟨⟨hmay, hrule⟩, rfl, rfl⟩
      exact ⟨rfl, ⟨target, rfl, rfl⟩, hmay, hrule.imp_left Eq.symm⟩
    · rintro ⟨rfl, ⟨_, rfl, rfl⟩, hmay, hrule⟩
      exact ⟨⟨hmay, hrule.imp_left Eq.symm⟩, rfl, rfl⟩

/-- The check of one edge gives its verdict and notes its permission. -/
theorem run_check (e : PlacedEdge) (used : Permissions) :
    (p.check e).run used = (p.verdict e, (permission? e).elim used used.insert) := by
  unfold check verdict permission?
  cases e.target with
  | external => rfl
  | undeclared => rfl
  | subject target =>
    dsimp only
    by_cases hself : target.name = e.source.name
    · simp only [hself, if_true, decide_true, Bool.true_or]
      cases e.source.mayUse.contains e.source.name with
      | true => rfl
      | false => rfl
    · simp only [hself, if_false, decide_false, Bool.false_or]
      cases e.source.mustNotUse.contains target.name with
      | true =>
        rw [Bool.not_true, Bool.and_false]
        rfl
      | false =>
        cases e.source.mayUse.contains target.name with
        | true => rfl
        | false => rfl

/-- The check of all edges gives the violations and notes the permissions of the edges. -/
theorem run_checkAll (edges : List PlacedEdge) (used : Permissions) :
    (p.checkAll edges).run used =
      (edges.filterMap p.violation?, (edges.filterMap permission?).foldl .insert used) := by
  induction edges generalizing used with
  | nil => rfl
  | cons e edges ih =>
    have hrest := ih ((permission? e).elim used used.insert)
    have hpermissions : ((e :: edges).filterMap permission?).foldl .insert used =
        (edges.filterMap permission?).foldl .insert ((permission? e).elim used used.insert) := by
      cases hpermission : permission? e with
      | none => rw [List.filterMap_cons_none hpermission, Option.elim_none]
      | some x => rw [List.filterMap_cons_some hpermission, List.foldl_cons, Option.elim_some]
    rw [checkAll, List.filterMapM_cons, bind_assoc, StateT.run_bind, run_check, hpermissions]
    cases hverdict : p.verdict e with
    | none =>
      have hviolation : p.violation? e = none := by rw [violation?, hverdict, Option.map_none]
      rw [List.filterMap_cons_none hviolation]
      exact hrest
    | some kind =>
      have hviolation : p.violation? e = some (e.violation kind) := by
        rw [violation?, hverdict, Option.map_some]
      rw [List.filterMap_cons_some hviolation]
      exact congrArg (Prod.map (List.cons (e.violation kind)) id) hrest

theorem mem_foldl_insert {α β : Type} {cmp : β → β → Ordering} [Std.TransCmp cmp]
    [Std.LawfulEqCmp cmp] (f : α → β) {l : List α} {t : Std.ExtTreeSet β cmp} {x : β} :
    x ∈ l.foldl (fun t a => t.insert (f a)) t ↔ x ∈ t ∨ ∃ a ∈ l, f a = x := by
  induction l generalizing t with
  | nil => simp
  | cons a l ih =>
    rw [List.foldl_cons, ih, Std.ExtTreeSet.mem_insert, Std.LawfulEqCmp.compare_eq_iff_eq,
      List.exists_mem_cons_iff, or_assoc, or_left_comm]

/-- The permissions that the edges make use of. -/
def used (p : Policy) (edges : List PlacedEdge) : Permissions :=
  ((p.checkAll edges).run ∅).2

/-- A permission is in use exactly if an edge goes from the subject that has it to the one it is
for, and no rule forbids that, except inside one subject. -/
theorem mem_used_iff {s u : String} : (s, u) ∈ p.used edges ↔
    ∃ e ∈ edges, e.source.name = s ∧ (∃ x, e.target = .subject x ∧ x.name = u) ∧
      u ∈ e.source.mayUse ∧ (s = u ∨ u ∉ e.source.mustNotUse) := by
  rw [used, run_checkAll, mem_foldl_insert fun r => r]
  simp only [Std.ExtTreeSet.not_mem_empty, false_or, exists_eq_right, List.mem_filterMap,
    permission?_eq_some_iff]

/-- The order of the report. -/
def reportedBefore (v w : Violation) : Bool :=
  !w.edge.lt v.edge

/-- The report on the placed classes and edges. -/
def report (p : Policy) (m : Model) (placed : Std.ExtTreeMap ClassId Placement)
    (edges : List PlacedEdge) : Evaluation where
  violations := (edges.filterMap p.violation?).mergeSort reportedBefore
  unusedRules := p.unusedRules (p.used edges)
  cycles :=
    match p.cycleMode with
    | .packages => m.packageCycles p.cycleExclusions
    | .subjects => (subjectGraph edges).cycles
    | .off => []
  emptySubjects := p.emptySubjects placed

theorem evaluate_eq_ok_iff {e : Evaluation} :
    p.evaluate m = .ok e ↔ ∃ placed edges, p.placements m = .ok placed ∧
      p.placedEdges m placed = .ok edges ∧ p.report m placed edges = e := by
  have hviolations : ∀ edges, edges.filterMap p.violation? = ((p.checkAll edges).run ∅).1 := by
    intro edges
    rw [run_checkAll]
  rw [evaluate, bind_eq_ok_iff]
  simp only [bind_eq_ok_iff, report, hviolations]
  constructor
  · rintro ⟨placed, hplaced, edges, hedges, he⟩
    exact ⟨placed, edges, hplaced, hedges, Except.ok.inj he⟩
  · rintro ⟨placed, edges, hplaced, hedges, rfl⟩
    exact ⟨placed, hplaced, edges, hedges, rfl⟩

end ClassDeps.Policy
