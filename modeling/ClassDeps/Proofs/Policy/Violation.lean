import ClassDeps.Proofs.Graph.Reach
import ClassDeps.Proofs.Model.Reachable
import ClassDeps.Proofs.Policy.Build
import ClassDeps.Proofs.Policy.Check
import ClassDeps.Proofs.Policy.Placement

namespace ClassDeps

/-- A defined class uses another one, and neither is a package's information. -/
def Model.ClassUse (m : Model) (edge : ClassEdge) : Prop :=
  ∃ c t, m.Uses c t ∧ c.defined ∧ c.isPackageInfo = false ∧ t.isPackageInfo = false ∧
    edge = ⟨c.name, t.name⟩

namespace Policy

variable {default : Access} {declarations : List Declaration} {p : Policy} {m : Model}

/-- A subject is declared with a pattern that matches the class `name`. -/
def Matches (declarations : List Declaration) (subject : String) (allowAll : Bool)
    (name : String) : Prop :=
  ∃ text pattern, .subject subject text allowAll ∈ declarations ∧
    Pattern.compile text = .ok pattern ∧ pattern.acceptsName name

/-- An external pattern is declared that matches the class `name`. -/
def MatchesExternal (declarations : List Declaration) (name : String) : Prop :=
  ∃ text pattern, .external text ∈ declarations ∧
    Pattern.compile text = .ok pattern ∧ pattern.acceptsName name

/-- The use of a class is against the declarations, for the reason that is reported. -/
inductive Breach (default : Access) (declarations : List Declaration) : Violation → Prop
  | forbidden {edge : ClassEdge} {s u : String} {a b : Bool} :
    Matches declarations s a edge.source → Matches declarations u b edge.target → u ≠ s →
    .mustNotUse s u ∈ declarations →
    Breach default declarations ⟨s, some u, edge, .forbidden⟩
  | notAllowed {edge : ClassEdge} {s u : String} {b : Bool} :
    Matches declarations s false edge.source → Matches declarations u b edge.target → u ≠ s →
    .mustNotUse s u ∉ declarations → .mayUse s u ∉ declarations → default = .deny →
    Breach default declarations ⟨s, some u, edge, .notAllowed⟩
  | undeclared {edge : ClassEdge} {s : String} :
    Matches declarations s false edge.source → (∀ u b, ¬Matches declarations u b edge.target) →
    ¬MatchesExternal declarations edge.target → default = .deny →
    Breach default declarations ⟨s, none, edge, .notAllowed⟩

theorem violation?_subject {s u : Subject} {edge : ClassEdge} {v : Violation} :
    p.violation? ⟨s, .subject u, edge⟩ = some v ↔ u.name ≠ s.name ∧
      (u.name ∈ s.mustNotUse ∧ ⟨s.name, some u.name, edge, .forbidden⟩ = v ∨
        u.name ∉ s.mustNotUse ∧ u.name ∉ s.mayUse ∧ s.allowAll = false ∧ p.default = .deny ∧
          ⟨s.name, some u.name, edge, .notAllowed⟩ = v) := by
  by_cases hne : u.name = s.name
  · simp [violation?, verdict, hne]
  · by_cases hmust : u.name ∈ s.mustNotUse
    · simp [violation?, verdict, PlacedEdge.violation, Placement.subject?, hne, hmust]
    · by_cases hmay : u.name ∈ s.mayUse
      · simp [violation?, verdict, hne, hmust, hmay]
      · simp [violation?, verdict, PlacedEdge.violation, Placement.subject?, hne, hmust, hmay,
          and_assoc]

theorem violation?_undeclared {s : Subject} {edge : ClassEdge} {v : Violation} :
    p.violation? ⟨s, .undeclared, edge⟩ = some v ↔
      s.allowAll = false ∧ p.default = .deny ∧ ⟨s.name, none, edge, .notAllowed⟩ = v := by
  simp [violation?, verdict, PlacedEdge.violation, Placement.subject?, and_assoc]

namespace Reflects

variable (h : p.Reflects default declarations) {name : String}

include h

theorem matches_iff {s : String} {a : Bool} :
    Matches declarations s a name ↔ ∃ x ∈ p.matching name, x.name = s ∧ x.allowAll = a := by
  simp only [mem_matching, h.mem_subjects]
  constructor
  · rintro ⟨text, pattern, hd, hc, hp⟩
    exact ⟨_, ⟨⟨s, text, a, pattern, hd, hc, rfl⟩, hp⟩, rfl, rfl⟩
  · rintro ⟨_, ⟨⟨s, text, a, pattern, hd, hc, rfl⟩, hp⟩, rfl, rfl⟩
    exact ⟨text, pattern, hd, hc, hp⟩

theorem matching_eq_nil_iff :
    p.matching name = [] ↔ ∀ u b, ¬Matches declarations u b name := by
  simp only [h.matches_iff, List.eq_nil_iff_forall_not_mem]
  constructor
  · rintro hnone u b ⟨x, hx, -⟩
    exact hnone x hx
  · intro hnone x hx
    exact hnone x.name x.allowAll ⟨x, hx, rfl, rfl⟩

theorem isExternal_iff : p.isExternal name ↔ MatchesExternal declarations name := by
  simp only [isExternal, List.any_eq_true, h.mem_externals, MatchesExternal]
  constructor
  · rintro ⟨pattern, ⟨text, hd, hc⟩, hp⟩
    exact ⟨text, pattern, hd, hc, hp⟩
  · rintro ⟨text, pattern, hd, hc, hp⟩
    exact ⟨pattern, ⟨text, hd, hc⟩, hp⟩

/-- The verdict on an edge between placed classes is right. -/
theorem breach_iff {v : Violation} :
    Breach default declarations v ↔ ∃ s place, p.Places v.edge.source (.subject s) ∧
      p.Places v.edge.target place ∧ p.violation? ⟨s, place, v.edge⟩ = some v := by
  constructor
  · intro hv
    cases hv with
    | forbidden hs hu hne hmust =>
      obtain ⟨s, hsource, rfl, -⟩ := h.matches_iff.mp hs
      obtain ⟨u, htarget, rfl, -⟩ := h.matches_iff.mp hu
      rw [← h.mem_mustNotUse (mem_matching.mp hsource).1] at hmust
      exact ⟨s, .subject u, hsource, htarget, violation?_subject.mpr ⟨hne, .inl ⟨hmust, rfl⟩⟩⟩
    | notAllowed hs hu hne hmust hmay hdeny =>
      obtain ⟨s, hsource, rfl, hall⟩ := h.matches_iff.mp hs
      obtain ⟨u, htarget, rfl, -⟩ := h.matches_iff.mp hu
      rw [← h.mem_mustNotUse (mem_matching.mp hsource).1] at hmust
      rw [← h.mem_mayUse (mem_matching.mp hsource).1] at hmay
      exact ⟨s, .subject u, hsource, htarget, violation?_subject.mpr
        ⟨hne, .inr ⟨hmust, hmay, hall, h.default_eq.trans hdeny, rfl⟩⟩⟩
    | undeclared hs hnone hext hdeny =>
      obtain ⟨s, hsource, rfl, hall⟩ := h.matches_iff.mp hs
      rw [← h.isExternal_iff] at hext
      exact ⟨s, .undeclared, hsource, ⟨h.matching_eq_nil_iff.mpr hnone, hext⟩,
        violation?_undeclared.mpr ⟨hall, h.default_eq.trans hdeny, rfl⟩⟩
  · rintro ⟨s, place, hsource, htarget, hv⟩
    have hs : Matches declarations s.name s.allowAll v.edge.source :=
      h.matches_iff.mpr ⟨s, hsource, rfl, rfl⟩
    cases place with
    | subject u =>
      have hu : Matches declarations u.name u.allowAll v.edge.target :=
        h.matches_iff.mpr ⟨u, htarget, rfl, rfl⟩
      obtain ⟨hne, ⟨hmust, he⟩ | ⟨hmust, hmay, hall, hdeny, he⟩⟩ := violation?_subject.mp hv
      · rw [← he]
        exact .forbidden hs hu hne ((h.mem_mustNotUse (mem_matching.mp hsource).1).mp hmust)
      · rw [h.mem_mustNotUse (mem_matching.mp hsource).1] at hmust
        rw [h.mem_mayUse (mem_matching.mp hsource).1] at hmay
        rw [hall] at hs
        rw [← he]
        exact .notAllowed hs hu hne hmust hmay (h.default_eq.symm.trans hdeny)
    | external => cases hv
    | undeclared =>
      obtain ⟨hall, hdeny, he⟩ := violation?_undeclared.mp hv
      rw [hall] at hs
      rw [← he]
      refine .undeclared hs (h.matching_eq_nil_iff.mp htarget.1) ?_
        (h.default_eq.symm.trans hdeny)
      rw [← h.isExternal_iff]
      exact htarget.2

end Reflects

theorem reportedBefore_iff {v w : Violation} :
    reportedBefore v w ↔ v.edge.key ≤ w.edge.key := by
  rw [reportedBefore, Bool.not_eq_true', ← Bool.not_eq_true, ClassEdge.lt_iff_key_lt, not_lt]

/-- Sorting makes a list without repeated edges strictly ascending. -/
theorem mergeSort_ascending {l : List Violation} (h : l.Pairwise fun v w => v.edge ≠ w.edge) :
    (l.mergeSort reportedBefore).Pairwise fun v w => v.edge.lt w.edge := by
  have hsorted : (l.mergeSort reportedBefore).Pairwise fun v w => reportedBefore v w := by
    apply List.pairwise_mergeSort
    · intro a b c hab hbc
      rw [reportedBefore_iff] at hab hbc ⊢
      exact hab.trans hbc
    · intro a b
      rw [Bool.or_eq_true, reportedBefore_iff, reportedBefore_iff]
      exact le_total _ _
  have hdistinct : (l.mergeSort reportedBefore).Pairwise fun v w => v.edge ≠ w.edge :=
    ((List.mergeSort_perm l _).pairwise_iff Ne.symm).mpr h
  apply (hsorted.and hdistinct).imp
  rintro v w ⟨hle, hne⟩
  rw [ClassEdge.lt_iff_key_lt]
  exact (reportedBefore_iff.mp hle).lt_of_ne (ClassEdge.key_injective.ne hne)

theorem violation?_edge {e : PlacedEdge} {v : Violation} (h : p.violation? e = some v) :
    v.edge = e.edge := by
  obtain ⟨kind, -, rfl⟩ := Option.map_eq_some_iff.mp h
  rfl

theorem Reflects.mem_violations (h : p.Reflects default declarations) (hm : m.Coherent)
    (hne : p.subjects ≠ []) {e : Evaluation} (he : p.evaluate m = .ok e) {v : Violation} :
    v ∈ e.violations ↔ m.ClassUse v.edge ∧ Breach default declarations v := by
  obtain ⟨placed, edges, hplaced, hedges, rfl⟩ := evaluate_eq_ok_iff.mp he
  have hchecked := placesChecked_of_placements hm hne hplaced
  rw [report, List.mem_mergeSort, List.mem_filterMap, h.breach_iff]
  simp only [mem_placedEdges hm hchecked hedges]
  constructor
  · rintro ⟨x, ⟨c, t, hu, hd, hc, ht, hsource, htarget, hedge⟩, hx⟩
    rw [violation?_edge hx, hedge]
    refine ⟨⟨c, t, hu, hd, hc, ht, rfl⟩, x.source, x.target, hsource, htarget, ?_⟩
    rw [← hedge]
    exact hx
  · rintro ⟨⟨c, t, hu, hd, hc, ht, hedge⟩, s, place, hsource, htarget, hx⟩
    rw [hedge] at hsource htarget
    exact ⟨_, ⟨c, t, hu, hd, hc, ht, hsource, htarget, hedge⟩, hx⟩

theorem violations_ascending (hm : m.Coherent) (hne : p.subjects ≠ []) {e : Evaluation}
    (he : p.evaluate m = .ok e) : e.violations.Pairwise fun v w => v.edge.lt w.edge := by
  obtain ⟨placed, edges, hplaced, hedges, rfl⟩ := evaluate_eq_ok_iff.mp he
  have hchecked := placesChecked_of_placements hm hne hplaced
  apply mergeSort_ascending
  rw [List.pairwise_filterMap]
  apply (placedEdges_distinct hm hchecked hedges).imp
  intro a b hab v hv w hw
  rw [violation?_edge hv, violation?_edge hw]
  exact hab

/-- The violations, before they are sorted. -/
def foundViolations (p : Policy) (m : Model) : Except EvaluationError (List Violation) := do
  let placed ← p.placements m
  let edges ← p.placedEdges m placed
  return edges.filterMap p.violation?

theorem evaluate_of_foundViolations {l : List Violation} (h : p.foundViolations m = .ok l) :
    ∃ e, p.evaluate m = .ok e ∧ e.violations = l.mergeSort reportedBefore := by
  obtain ⟨placed, hplaced, h⟩ := bind_eq_ok_iff.mp h
  obtain ⟨edges, hedges, h⟩ := bind_eq_ok_iff.mp h
  cases h
  exact ⟨_, evaluate_eq_ok_iff.mpr ⟨placed, edges, hplaced, hedges, rfl⟩, rfl⟩

theorem evaluate_of_no_subjects (m : Model) (h : p.subjects = []) :
    ∃ e, p.evaluate m = .ok e ∧ e.violations = [] := by
  have hfound : p.foundViolations m = .ok [] := by
    rw [foundViolations, placements, h]
    rfl
  obtain ⟨e, he, hviolations⟩ := evaluate_of_foundViolations hfound
  exact ⟨e, he, hviolations.trans List.mergeSort_nil⟩

/-- On every model, an evaluation that succeeds under a policy with subjects reports exactly the
uses that are against the declarations, each once, in strictly ascending order. Without subjects
it succeeds and reports none. -/
theorem violations_iff_breach (hp : build default declarations = .ok p) (mode : CycleMode)
    (hm : m.Reachable) :
    (p.subjects ≠ [] → ∀ e, evaluate { p with cycleMode := mode } m = .ok e →
      (∀ v, v ∈ e.violations ↔ m.ClassUse v.edge ∧ Breach default declarations v) ∧
        e.violations.Pairwise fun v w => v.edge.lt w.edge) ∧
    (p.subjects = [] →
      ∃ e, evaluate { p with cycleMode := mode } m = .ok e ∧ e.violations = []) := by
  obtain ⟨hdefault, hsubjects, hexternals⟩ := reflects_of_build hp
  have hreflects : Reflects { p with cycleMode := mode } default declarations :=
    ⟨hdefault, hsubjects, hexternals⟩
  constructor
  · intro hne e he
    exact ⟨fun _ => hreflects.mem_violations hm.coherent hne he,
      violations_ascending (p := { p with cycleMode := mode }) hm.coherent hne he⟩
  · intro h
    exact evaluate_of_no_subjects m h

/-- Two layers, of which the first must not use the second. -/
def layers : List Declaration :=
  [.subject "low" "low" false, .subject "high" "high" false, .mustNotUse "low" "high"]

def layersPolicy : Policy :=
  match build .deny layers with
  | .ok p => p
  | .error _ => permissive

theorem build_layers : build .deny layers = .ok layersPolicy :=
  eq_ok_of_isOk permissive (by decide)

def layersModel : Model :=
  let low := (Model.empty.define ⟨"low.A", 1, 0, none, ∅, .ofList ["high.B", "other.C"]⟩).2
  (low.define ⟨"high.B", 1, 0, none, ∅, .ofList ["low.A"]⟩).2

/-- One violation for each of the three reasons. -/
def layersViolations : List Violation :=
  [⟨"low", some "high", ⟨"low.A", "high.B"⟩, .forbidden⟩,
    ⟨"low", none, ⟨"low.A", "other.C"⟩, .notAllowed⟩,
    ⟨"high", some "low", ⟨"high.B", "low.A"⟩, .notAllowed⟩]

theorem violations_iff_breach_layers :
    ∃ e, layersPolicy.evaluate layersModel = .ok e ∧ ∀ v ∈ layersViolations,
      v ∈ e.violations ∧ layersModel.ClassUse v.edge ∧ Breach .deny layers v := by
  have hm : layersModel.Reachable := .define _ (.define _ .empty)
  have hne : layersPolicy.subjects ≠ [] := by decide
  have hfound : layersPolicy.foundViolations layersModel = .ok layersViolations := by
    decide
  obtain ⟨e, he, hviolations⟩ := evaluate_of_foundViolations hfound
  refine ⟨e, he, ?_⟩
  intro v hv
  have hmem : v ∈ e.violations := by
    rw [hviolations, List.mem_mergeSort]
    exact hv
  exact ⟨hmem, (((violations_iff_breach build_layers layersPolicy.cycleMode hm).1 hne e he).1
    v).mp hmem⟩

end Policy

end ClassDeps
