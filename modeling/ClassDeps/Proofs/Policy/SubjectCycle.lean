import ClassDeps.Proofs.Policy.ByName
import ClassDeps.Proofs.Text.ByteOrder

namespace ClassDeps.Policy

variable {p : Policy} {m : Model} {placed : Std.ExtTreeMap ClassId Placement}
  {edges : List PlacedEdge}

/-- The class called `name` belongs to the subject called `s`: the one that matches it. The
information of a package belongs to none. -/
def Resolves (p : Policy) (name s : String) : Prop :=
  Name.isPackageInfo name = false ∧ ∃ x, p.matching name = [x] ∧ x.name = s

/-- A defined class of the subject `s` uses a class of the subject `u`, defined or not, and the
subjects are different. -/
def SubjectUse (p : Policy) (m : Model) (s u : String) : Prop :=
  s ≠ u ∧ ∃ x y, m.UsesName x y ∧ p.Resolves x s ∧ p.Resolves y u

namespace Resolves

variable {name s : String}

theorem mem_subjects (h : p.Resolves name s) : s ∈ p.subjects.map (·.name) := by
  obtain ⟨-, x, hx, rfl⟩ := h
  have hmem : x ∈ p.matching name := by
    rw [hx]
    exact List.mem_singleton_self x
  exact List.mem_map_of_mem (mem_matching.mp hmem).1

theorem exists_places (h : p.Resolves name s) : ∃ x, p.Places name (.subject x) ∧ x.name = s := by
  obtain ⟨-, x, hx, hs⟩ := h
  refine ⟨x, ?_, hs⟩
  show x ∈ p.matching name
  rw [hx]
  exact List.mem_singleton_self x

/-- Of a class that could be placed only one subject is a match. -/
theorem of_places {defined : Bool} {place : Placement} {x : Subject}
    (hinfo : Name.isPackageInfo name = false) (hplace : p.place name defined = .ok place)
    (hx : p.Places name (.subject x)) : p.Resolves name x.name := by
  rw [← (places_iff_of_place hplace).mp hx, place_eq_ok_subject_iff] at hplace
  exact ⟨hinfo, x, hplace, rfl⟩

end Resolves

theorem edge_subjectGraph_iff {s u : String} : (subjectGraph edges).Edge s u ↔
    s ≠ u ∧ ∃ e ∈ edges, e.source.name = s ∧ ∃ x, e.target = .subject x ∧ x.name = u := by
  rw [subjectGraph_eq, Graph.edge_ofHops]
  refine and_congr_right fun _ => ?_
  simp only [List.mem_filterMap]
  constructor
  · rintro ⟨hop, ⟨e, he, hhop⟩, rfl, rfl⟩
    obtain ⟨x, hx, rfl⟩ := Option.map_eq_some_iff.mp hhop
    have htarget : e.target = .subject x := by
      cases ht : e.target <;> simp_all [Placement.subject?]
    exact ⟨e, he, rfl, x, htarget, rfl⟩
  · rintro ⟨e, he, rfl, x, htarget, rfl⟩
    refine ⟨⟨e.source.name, x.name, e.edge⟩, ⟨e, he, ?_⟩, rfl, rfl⟩
    rw [subjectHop?, htarget]
    rfl

/-- Where all classes could be placed, the edges between subjects are the uses between classes that
belong to them. -/
theorem exists_placedEdge_iff_resolves (hm : m.Coherent) (hplaced : p.placements m = .ok placed)
    (hedges : p.placedEdges m placed = .ok edges) {s u : String} :
    (∃ e ∈ edges, e.source.name = s ∧ ∃ x, e.target = .subject x ∧ x.name = u) ↔
      ∃ x y, m.UsesName x y ∧ p.Resolves x s ∧ p.Resolves y u := by
  by_cases hne : p.subjects = []
  · -- Without subjects there are neither edges nor classes of a subject.
    rw [placements_of_no_subjects hne] at hplaced
    cases hplaced
    rw [placedEdges_empty] at hedges
    cases hedges
    constructor
    · rintro ⟨e, he, -⟩
      cases he
    · rintro ⟨x, y, -, hx, -⟩
      have hmem := hx.mem_subjects
      rw [hne] at hmem
      cases hmem
  · have hsources := (exists_placements_iff_names hm hne).mp ⟨placed, hplaced⟩
    have htargets := (exists_placedEdges_iff_names hm hne hplaced).mp ⟨edges, hedges⟩
    simp only [mem_placedEdges_iff_names hm hne hplaced hedges]
    constructor
    · rintro ⟨e, ⟨huse, hsinfo, htinfo, hs, ht⟩, rfl, x, hx, rfl⟩
      obtain ⟨_, hplace⟩ := hsources _ huse.definesName hsinfo
      obtain ⟨_, hplace'⟩ := htargets _ _ huse hsinfo htinfo ⟨_, hs⟩
      rw [hx] at ht
      exact ⟨_, _, huse, .of_places hsinfo hplace hs, .of_places htinfo hplace' ht⟩
    · rintro ⟨x, y, huse, hs, hu⟩
      obtain ⟨source, hsource, rfl⟩ := hs.exists_places
      obtain ⟨target, htarget, rfl⟩ := hu.exists_places
      exact ⟨⟨source, .subject target, ⟨x, y⟩⟩, ⟨huse, hs.1, hu.1, hsource, htarget⟩, rfl, target,
        rfl, rfl⟩

theorem edge_subjectGraph (hm : m.Coherent) (hplaced : p.placements m = .ok placed)
    (hedges : p.placedEdges m placed = .ok edges) :
    (subjectGraph edges).Edge = p.SubjectUse m := by
  funext s u
  rw [edge_subjectGraph_iff, exists_placedEdge_iff_resolves hm hplaced hedges, SubjectUse]

/-- When cycles of subjects are asked for, an evaluation reports exactly the strongly connected
components of two subjects or more, whether their uses are violations or not. Members and cycles
ascend by the bytes of the names. -/
theorem cycles_subject_components (p : Policy) (hmode : p.cycleMode = .subjects)
    (hm : m.Reachable) {e : Evaluation} (he : p.evaluate m = .ok e) :
    (∀ members, members ∈ e.cycles.map (·.members) ↔
      IsComponent (· ∈ p.subjects.map (·.name)) (p.SubjectUse m) members) ∧
    (∀ c ∈ e.cycles, (c.members.map Text.utf8).Pairwise (· < ·)) ∧
    e.cycles.Pairwise (fun c d => c.members.map Text.utf8 < d.members.map Text.utf8) := by
  obtain ⟨placed, edges, hplaced, hedges, rfl⟩ := evaluate_eq_ok_iff.mp he
  have hedge := edge_subjectGraph hm.coherent hplaced hedges
  have hcycles : (p.report m placed edges).cycles = (subjectGraph edges).cycles := by
    rw [report, hmode]
  have hcomponent : ∀ members,
      members ∈ (p.report m placed edges).cycles.map (·.members) ↔
        IsComponent (· ∈ p.subjects.map (·.name)) (p.SubjectUse m) members := by
    intro members
    rw [hcycles, Graph.map_members_cycles, Graph.mem_components, hedge]
    -- Subjects without edges are missing from the graph, and they are in no component.
    have hnode : ∀ s u, p.SubjectUse m s u → s ∈ (subjectGraph edges).nodes := by
      intro s u hsu
      rw [← hedge] at hsu
      exact hsu.mem_nodes.1
    have hsubject : ∀ s u, p.SubjectUse m s u → s ∈ p.subjects.map (·.name) := by
      rintro s u ⟨-, x, y, -, hs, -⟩
      exact hs.mem_subjects
    exact ⟨.of_nodes hnode hsubject, .of_nodes hsubject hnode⟩
  refine ⟨hcomponent, ?_, ?_⟩
  · intro c hc
    have hascending := ((hcomponent _).mp (List.mem_map_of_mem hc)).ascending
    exact hascending.map _ fun _ _ => Text.lt_iff_utf8_lt.mp
  · have hascending := Graph.components_ascending (subjectGraph edges)
    rw [← Graph.map_members_cycles, ← hcycles, List.pairwise_map] at hascending
    exact hascending.imp fun h => List.map_lt (fun _ _ => Text.lt_iff_utf8_lt.mp) h

/-- The lower layer uses a class of the higher one that is not defined, which is forbidden. -/
def upwardModel : Model :=
  let low := (Model.empty.define ⟨"low.A", 1, 0, none, ∅, .ofList ["high.X"]⟩).2
  (low.define ⟨"high.B", 1, 0, none, ∅, .ofList ["low.A", "high.package-info"]⟩).2

theorem cycles_subject_components_upward :
    ∃ e, evaluate { layersPolicy with cycleMode := .subjects } upwardModel = .ok e ∧
      ⟨"low", some "high", ⟨"low.A", "high.X"⟩, .forbidden⟩ ∈ e.violations ∧
      e.cycles.map (·.members) = [["high", "low"]] ∧
      IsComponent (· ∈ ["low", "high"])
        (SubjectUse { layersPolicy with cycleMode := .subjects } upwardModel) ["high", "low"] := by
  have hm : upwardModel.Reachable := .define _ (.define _ .empty)
  let p : Policy := { layersPolicy with cycleMode := .subjects }
  have hfound : (do
      let placed ← p.placements upwardModel
      let edges ← p.placedEdges upwardModel placed
      return (edges.filterMap p.violation?, (subjectGraph edges).components)) =
      .ok ([⟨"low", some "high", ⟨"low.A", "high.X"⟩, .forbidden⟩,
        ⟨"high", some "low", ⟨"high.B", "low.A"⟩, .notAllowed⟩], [["high", "low"]]) := by
    decide
  obtain ⟨placed, hplaced, hfound⟩ := bind_eq_ok_iff.mp hfound
  obtain ⟨edges, hedges, hfound⟩ := bind_eq_ok_iff.mp hfound
  obtain ⟨hviolations, hcycles⟩ := Prod.mk.inj (Except.ok.inj hfound)
  rw [← Graph.map_members_cycles] at hcycles
  have he := evaluate_eq_ok_iff.mpr ⟨placed, edges, hplaced, hedges, rfl⟩
  refine ⟨_, he, ?_, hcycles, ?_⟩
  · show _ ∈ (edges.filterMap p.violation?).mergeSort reportedBefore
    rw [List.mem_mergeSort, hviolations]
    exact List.mem_cons_self
  · have hnames : p.subjects.map (·.name) = ["low", "high"] := by decide
    have hcomponent := ((cycles_subject_components p rfl hm he).1 ["high", "low"]).mp
      (hcycles ▸ List.mem_singleton_self _)
    rw [hnames] at hcomponent
    exact hcomponent

end ClassDeps.Policy
