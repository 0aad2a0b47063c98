import ClassDeps.Proofs.Graph.Hops
import ClassDeps.Proofs.Graph.Package
import ClassDeps.Proofs.Policy.Violation

namespace ClassDeps

namespace Model

variable {m a b : Model} {x y : String}

/-- A class called `x` is defined and uses the class called `y`. -/
def UsesName (m : Model) (x y : String) : Prop :=
  ∃ k, m.classContent? x = some k ∧ k.defined ∧ y ∈ k.uses

/-- The same classes under the same names, defined in both models or in none and with the same uses
by name. The packages of classes follow from their names; others play no part. -/
def SameUses (a b : Model) : Prop :=
  ∀ name, (a.classContent? name).map (fun k => (k.defined, k.uses)) =
    (b.classContent? name).map fun k => (k.defined, k.uses)

/-- Only the names of classes have to be compared. -/
theorem sameUses_iff : a.SameUses b ↔ ∀ name ∈ a.classes.index.keys ++ b.classes.index.keys,
    (a.classContent? name).map (fun k => (k.defined, k.uses)) =
      (b.classContent? name).map fun k => (k.defined, k.uses) := by
  constructor
  · intro h name _
    exact h name
  · intro h name
    by_cases hname : name ∈ a.classes.index.keys ++ b.classes.index.keys
    · exact h name hname
    · rw [List.mem_append, not_or, Std.ExtTreeMap.mem_keys, Std.ExtTreeMap.mem_keys] at hname
      have ha : a.classes.find? name = none := Std.ExtTreeMap.getElem?_eq_none hname.1
      have hb : b.classes.find? name = none := Std.ExtTreeMap.getElem?_eq_none hname.2
      rw [classContent?, classContent?, ha, hb]
      rfl

instance : Decidable (a.SameUses b) :=
  decidable_of_iff _ sameUses_iff.symm

theorem SameUses.symm (h : a.SameUses b) : b.SameUses a :=
  fun name => (h name).symm

theorem UsesName.definesName (h : m.UsesName x y) : m.DefinesName x := by
  obtain ⟨k, hk, hd, -⟩ := h
  exact ⟨k, hk, hd⟩

theorem definesName_iff : m.DefinesName x ↔
    ∃ uses, (m.classContent? x).map (fun k => (k.defined, k.uses)) = some (true, uses) := by
  simp only [DefinesName, Option.map_eq_some_iff, Prod.mk.injEq]
  constructor
  · rintro ⟨k, hk, hd⟩
    exact ⟨k.uses, k, hk, hd, rfl⟩
  · rintro ⟨_, k, hk, hd, -⟩
    exact ⟨k, hk, hd⟩

theorem usesName_iff : m.UsesName x y ↔
    ∃ uses, (m.classContent? x).map (fun k => (k.defined, k.uses)) = some (true, uses) ∧
      y ∈ uses := by
  simp only [UsesName, Option.map_eq_some_iff, Prod.mk.injEq]
  constructor
  · rintro ⟨k, hk, hd, hy⟩
    exact ⟨k.uses, ⟨k, hk, hd, rfl⟩, hy⟩
  · rintro ⟨_, ⟨k, hk, hd, rfl⟩, hy⟩
    exact ⟨k, hk, hd, hy⟩

theorem SameUses.definesName (h : a.SameUses b) : a.DefinesName x ↔ b.DefinesName x := by
  rw [definesName_iff, definesName_iff, h x]

theorem SameUses.usesName (h : a.SameUses b) : a.UsesName x y ↔ b.UsesName x y := by
  rw [usesName_iff, usesName_iff, h x]

theorem Coherent.usesName_iff_exists (h : m.Coherent) :
    m.UsesName x y ↔ ∃ c t, m.Uses c t ∧ c.defined ∧ c.name = x ∧ t.name = y := by
  simp only [UsesName, h.classContent?_eq_some_iff]
  constructor
  · rintro ⟨_, ⟨i, c, hc, hn, rfl⟩, hd, hy⟩
    obtain ⟨j, hj, hf⟩ := h.mem_names.mp hy
    obtain ⟨t, ht, hty⟩ := h.classes.get?_of_find? hf
    exact ⟨c, t, ⟨i, j, hc, hj, ht⟩, hd, hn, hty⟩
  · rintro ⟨c, t, ⟨i, j, hc, hj, ht⟩, hd, hn, rfl⟩
    have hy : t.name ∈ m.names c.uses := h.mem_names.mpr ⟨j, hj, h.classes.find?_eq ht⟩
    exact ⟨_, ⟨i, c, hc, hn, rfl⟩, hd, hy⟩

theorem Coherent.mem_packageHops_iff_usesName (h : m.Coherent) {exclude : List Pattern}
    {hop : Hop} : hop ∈ m.packageHops exclude ↔
      ∃ x y, m.UsesName x y ∧ isExcluded exclude (Name.packageOf x) = false ∧
        isExcluded exclude (Name.packageOf y) = false ∧
        ⟨Name.packageOf x, Name.packageOf y, ⟨x, y⟩⟩ = hop := by
  simp only [h.mem_packageHops, h.usesName_iff_exists]
  constructor
  · rintro ⟨c, t, hu, hd, hc, ht, hhop⟩
    exact ⟨c.name, t.name, ⟨c, t, hu, hd, rfl, rfl⟩, hc, ht, hhop⟩
  · rintro ⟨_, _, ⟨c, t, hu, hd, rfl, rfl⟩, hc, ht, hhop⟩
    exact ⟨c, t, hu, hd, hc, ht, hhop⟩

theorem SameUses.packageCycles_eq (h : a.SameUses b) (ha : a.Coherent) (hb : b.Coherent)
    (exclude : List Pattern) : a.packageCycles exclude = b.packageCycles exclude := by
  have hgraph : a.packageGraph exclude = b.packageGraph exclude := by
    rw [packageGraph_eq, packageGraph_eq]
    apply Graph.ofHops_congr
    intro hop
    rw [ha.mem_packageHops_iff_usesName, hb.mem_packageHops_iff_usesName]
    simp only [h.usesName]
  rw [packageCycles, packageCycles, hgraph]

end Model

namespace Policy

variable {p : Policy} {m a b : Model} {placed : Std.ExtTreeMap ClassId Placement}
  {edges : List PlacedEdge}

theorem place_false_of_true {name : String} {x : Placement} (h : p.place name true = .ok x) :
    p.place name false = .ok x := by
  rw [place] at h ⊢
  split at h
  case h_1 => exact h
  case h_2 =>
    split at h
    case isTrue he =>
      rw [if_pos he]
      exact h
    case isFalse => cases h
  case h_3 => cases h

theorem exists_placements_iff_names (hm : m.Coherent) (hne : p.subjects ≠ []) :
    (∃ placed, p.placements m = .ok placed) ↔
      ∀ x, m.DefinesName x → Name.isPackageInfo x = false → ∃ r, p.place x true = .ok r := by
  rw [exists_placements_iff hm hne]
  simp only [hm.definesName_iff_exists]
  constructor
  · rintro h _ ⟨i, c, hc, hd, rfl⟩ hinfo
    exact h i c ⟨hc, hd, hinfo⟩
  · rintro h i c ⟨hc, hd, hinfo⟩
    exact h c.name ⟨i, c, hc, hd, rfl⟩ hinfo

section

variable (hm : m.Coherent) (hne : p.subjects ≠ []) (hplaced : p.placements m = .ok placed)

include hm hne hplaced

theorem exists_placeTarget_iff {j : ClassId} {t : ClassNode} (ht : m.classes.get? j = some t) :
    (∃ r, p.placeTarget placed j t = .ok r) ↔
      (t.isPackageInfo = false → ∃ r, p.place t.name false = .ok r) := by
  cases hj : placed[j]? with
  | some y =>
    obtain ⟨c, ⟨hc, -, -⟩, hy⟩ := (getElem?_placements hm hne hplaced).mp hj
    have hct : c = t := Option.some_inj.mp (hc.symm.trans ht)
    rw [hct] at hy
    simp only [placeTarget, hj]
    exact iff_of_true ⟨_, rfl⟩ fun _ => ⟨y, place_false_of_true hy⟩
  | none =>
    simp only [placeTarget, hj]
    by_cases hinfo : t.isPackageInfo
    · simp [hinfo]
    · cases hplace : p.place t.name false with
      | error e => simp [hinfo]
      | ok y => simp [hinfo]

theorem exists_edgesFrom_iff {i : ClassId} {c : ClassNode} {s : Subject}
    (hc : m.classes.get? i = some c) :
    (∃ es, p.edgesFrom m placed i s = .ok es) ↔ ∀ j t, j ∈ c.uses →
      m.classes.get? j = some t → t.isPackageInfo = false → ∃ r, p.place t.name false = .ok r := by
  have hlist : (∃ es, p.edgesFrom m placed i s = .ok es) ↔
      ∃ l, c.uses.toList.mapM (p.placedEdge? m placed c s) = .ok l := by
    constructor
    · rintro ⟨es, hes⟩
      obtain ⟨l, hl, -⟩ := edgesFrom_cases hc hes
      exact ⟨l, hl⟩
    · rintro ⟨l, hl⟩
      simp only [edgesFrom, hc]
      exact ⟨_, bind_eq_ok_iff.mpr ⟨l, hl, rfl⟩⟩
  have hedge : ∀ {j t}, m.classes.get? j = some t →
      ((∃ r, p.placedEdge? m placed c s j = .ok r) ↔
        ∃ r, p.placeTarget placed j t = .ok r) := by
    intro j t ht
    simp only [placedEdge?, ht, bind_eq_ok_iff]
    constructor
    · rintro ⟨_, r, hr, -⟩
      exact ⟨r, hr⟩
    · rintro ⟨r, hr⟩
      exact ⟨_, r, hr, rfl⟩
  rw [hlist, exists_mapM_eq_ok_iff]
  constructor
  · intro h j t hj ht
    have hr := hedge ht |>.mp (h j (Std.ExtTreeSet.mem_toList.mpr hj))
    exact (exists_placeTarget_iff hm hne hplaced ht).mp hr
  · intro h j hj
    have hj' := Std.ExtTreeSet.mem_toList.mp hj
    obtain ⟨t, ht⟩ := Arena.exists_get?_of_lt_size (hm.uses hc hj').1
    exact (hedge ht).mpr ((exists_placeTarget_iff hm hne hplaced ht).mpr (h j t hj' ht))

theorem exists_placedEdges_iff_names :
    (∃ edges, p.placedEdges m placed = .ok edges) ↔
      ∀ x y, m.UsesName x y → Name.isPackageInfo x = false → Name.isPackageInfo y = false →
        (∃ s, p.Places x (.subject s)) → ∃ r, p.place y false = .ok r := by
  have hchecked := placesChecked_of_placements hm hne hplaced
  have hlist : (∃ edges, p.placedEdges m placed = .ok edges) ↔
      ∀ i s, placed[i]? = some (.subject s) → ∃ es, p.edgesFrom m placed i s = .ok es := by
    simp only [placedEdges, bind_eq_ok_iff]
    rw [exists_comm]
    simp only [exists_and_left]
    refine (exists_congr fun l => and_iff_left ⟨l.flatten, rfl⟩).trans
      (exists_mapM_eq_ok_iff.trans ?_)
    constructor
    · intro h i s hi
      exact h (i, .subject s) (Std.ExtTreeMap.mem_toList_iff_getElem?_eq_some.mpr hi)
    · rintro h ⟨i, place⟩ hmem
      have hi := Std.ExtTreeMap.mem_toList_iff_getElem?_eq_some.mp hmem
      cases place with
      | subject s => exact h i s hi
      | external => exact ⟨[], rfl⟩
      | undeclared => exact ⟨[], rfl⟩
  rw [hlist]
  simp only [hm.usesName_iff_exists]
  constructor
  · rintro h _ _ ⟨c, t, ⟨i, j, hc, hj, ht⟩, hd, rfl, rfl⟩ hinfo htinfo ⟨s, hs⟩
    have hi := (hchecked i _).mpr ⟨c, ⟨hc, hd, hinfo⟩, hs⟩
    exact (exists_edgesFrom_iff hm hne hplaced hc).mp (h i s hi) j t hj ht htinfo
  · intro h i s hi
    obtain ⟨c, ⟨hc, hd, hinfo⟩, hs⟩ := (hchecked i _).mp hi
    rw [exists_edgesFrom_iff hm hne hplaced hc]
    intro j t hj ht htinfo
    exact h c.name t.name ⟨c, t, ⟨i, j, hc, hj, ht⟩, hd, rfl, rfl⟩ hinfo htinfo ⟨s, hs⟩

theorem mem_placedEdges_iff_names (hedges : p.placedEdges m placed = .ok edges) {e : PlacedEdge} :
    e ∈ edges ↔ m.UsesName e.edge.source e.edge.target ∧
      Name.isPackageInfo e.edge.source = false ∧ Name.isPackageInfo e.edge.target = false ∧
      p.Places e.edge.source (.subject e.source) ∧ p.Places e.edge.target e.target := by
  rw [mem_placedEdges hm (placesChecked_of_placements hm hne hplaced) hedges,
    hm.usesName_iff_exists]
  constructor
  · rintro ⟨c, t, hu, hd, hc, ht, hs, hplace, he⟩
    rw [he]
    exact ⟨⟨c, t, hu, hd, rfl, rfl⟩, hc, ht, hs, hplace⟩
  · rintro ⟨⟨c, t, hu, hd, hsource, htarget⟩, hc, ht, hs, hplace⟩
    have he : e.edge = ⟨c.name, t.name⟩ := by rw [hsource, htarget]
    rw [he] at hc ht hs hplace
    exact ⟨c, t, hu, hd, hc, ht, hs, hplace, he⟩

theorem mem_populated_iff_names (name : String) :
    name ∈ placed.toList.filterMap (fun entry => entry.2.subject?.map (·.name)) ↔
      ∃ x s, m.DefinesName x ∧ Name.isPackageInfo x = false ∧ p.Places x (.subject s) ∧
        s.name = name := by
  have hchecked := placesChecked_of_placements hm hne hplaced
  simp only [List.mem_filterMap, Prod.exists, Std.ExtTreeMap.mem_toList_iff_getElem?_eq_some,
    hm.definesName_iff_exists]
  constructor
  · rintro ⟨i, place, hi, hname⟩
    obtain ⟨s, hs, hn⟩ := Option.map_eq_some_iff.mp hname
    have hplace : place = .subject s := by
      cases place <;> simp_all [Placement.subject?]
    rw [hplace] at hi
    obtain ⟨c, ⟨hc, hd, hinfo⟩, hplaces⟩ := (hchecked i _).mp hi
    exact ⟨c.name, s, ⟨i, c, hc, hd, rfl⟩, hinfo, hplaces, hn⟩
  · rintro ⟨_, s, ⟨i, c, hc, hd, rfl⟩, hinfo, hplaces, hn⟩
    refine ⟨i, .subject s, (hchecked i _).mpr ⟨c, ⟨hc, hd, hinfo⟩, hplaces⟩, ?_⟩
    rw [← hn]
    rfl

end

theorem used_congr {edges' : List PlacedEdge} (h : ∀ e, e ∈ edges ↔ e ∈ edges') :
    p.used edges = p.used edges' := by
  apply Std.ExtTreeSet.ext_mem
  rintro ⟨s, u⟩
  simp only [mem_used_iff, h]

/-- The hop between subjects that an edge makes. -/
def subjectHop? (e : PlacedEdge) : Option Hop :=
  e.target.subject?.map fun target => ⟨e.source.name, target.name, e.edge⟩

theorem subjectGraph_eq (edges : List PlacedEdge) :
    subjectGraph edges = Graph.ofHops (edges.filterMap subjectHop?) := by
  rw [subjectGraph, Graph.ofHops, List.foldl_filterMap]
  congr 1
  funext g e
  cases he : e.target.subject? <;> simp [subjectHop?, he]

theorem subjectGraph_congr {edges' : List PlacedEdge} (h : ∀ e, e ∈ edges ↔ e ∈ edges') :
    subjectGraph edges = subjectGraph edges' := by
  rw [subjectGraph_eq, subjectGraph_eq]
  apply Graph.ofHops_congr
  intro hop
  simp only [List.mem_filterMap, h]

section

variable (hab : a.SameUses b) (ha : a.Coherent) (hb : b.Coherent)

include hab ha hb

theorem report_congr (hne : p.subjects ≠ []) {placed' : Std.ExtTreeMap ClassId Placement}
    {edges' : List PlacedEdge} (hplaced : p.placements a = .ok placed)
    (hedges : p.placedEdges a placed = .ok edges) (hplaced' : p.placements b = .ok placed')
    (hedges' : p.placedEdges b placed' = .ok edges') :
    p.report a placed edges = p.report b placed' edges' := by
  have hmem : ∀ e, e ∈ edges ↔ e ∈ edges' := by
    intro e
    rw [mem_placedEdges_iff_names ha hne hplaced hedges,
      mem_placedEdges_iff_names hb hne hplaced' hedges', hab.usesName]
  have hviolations : (edges.filterMap p.violation?).mergeSort reportedBefore =
      (edges'.filterMap p.violation?).mergeSort reportedBefore := by
    -- Both lists are strictly ascending, so their members determine them.
    have hasc := violations_ascending ha hne
      (evaluate_eq_ok_iff.mpr ⟨placed, edges, hplaced, hedges, rfl⟩)
    have hasc' := violations_ascending hb hne
      (evaluate_eq_ok_iff.mpr ⟨placed', edges', hplaced', hedges', rfl⟩)
    have hirrefl : Std.Irrefl fun v w : Violation => v.edge.lt w.edge := by
      constructor
      intro v
      rw [ClassEdge.lt_iff_key_lt]
      exact lt_irrefl _
    have hantisymm : Std.Antisymm fun v w : Violation => v.edge.lt w.edge := by
      constructor
      intro v w hvw hwv
      rw [ClassEdge.lt_iff_key_lt] at hvw hwv
      exact absurd hwv hvw.asymm
    apply hasc.eq_of_mem_iff hasc'
    intro v
    simp only [report, List.mem_mergeSort, List.mem_filterMap, hmem]
  have hempty : p.emptySubjects placed = p.emptySubjects placed' := by
    apply List.filter_congr
    intro name _
    have hpop := mem_populated_iff_names ha hne hplaced name
    have hpop' := mem_populated_iff_names hb hne hplaced' name
    rw [Bool.not_inj_iff, Bool.eq_iff_iff, List.contains_iff_mem, List.contains_iff_mem, hpop,
      hpop']
    simp only [hab.definesName]
  rw [report, report, hviolations, used_congr hmem, subjectGraph_congr hmem, hempty,
    hab.packageCycles_eq ha hb]

theorem exists_placedEdges_of_sameUses (hne : p.subjects ≠ [])
    (hplaced : p.placements a = .ok placed) (hedges : p.placedEdges a placed = .ok edges) :
    ∃ placed' edges', p.placements b = .ok placed' ∧ p.placedEdges b placed' = .ok edges' := by
  have hnames := (exists_placements_iff_names ha hne).mp ⟨placed, hplaced⟩
  simp only [hab.definesName] at hnames
  obtain ⟨placed', hplaced'⟩ := (exists_placements_iff_names hb hne).mpr hnames
  have huses := (exists_placedEdges_iff_names ha hne hplaced).mp ⟨edges, hedges⟩
  simp only [hab.usesName] at huses
  obtain ⟨edges', hedges'⟩ := (exists_placedEdges_iff_names hb hne hplaced').mpr huses
  exact ⟨placed', edges', hplaced', hedges'⟩

theorem evaluate_ok_of_sameUses {e : Evaluation} (h : p.evaluate a = .ok e) :
    p.evaluate b = .ok e := by
  obtain ⟨placed, edges, hplaced, hedges, rfl⟩ := evaluate_eq_ok_iff.mp h
  rw [evaluate_eq_ok_iff]
  by_cases hne : p.subjects = []
  · -- Without subjects nothing is placed, and only the cycles of packages look at the model.
    have hnone : ∀ m : Model, p.placements m = .ok ∅ := by
      intro m
      rw [placements, hne]
      rfl
    rw [hnone a] at hplaced
    cases hplaced
    refine ⟨∅, edges, hnone b, hedges, ?_⟩
    rw [report, report, hab.packageCycles_eq ha hb]
  · obtain ⟨placed', edges', hplaced', hedges'⟩ :=
      exists_placedEdges_of_sameUses hab ha hb hne hplaced hedges
    exact ⟨placed', edges', hplaced', hedges',
      (report_congr hab ha hb hne hplaced hedges hplaced' hedges').symm⟩

end

/-- Under any policy, two models with the same classes and uses by name are both refused or both
accepted, however their classes and packages are numbered, and then the evaluations are equal: the
violations, the unused rules, the cycles with their chains and class edges, and the empty subjects.
All models that operations make are coherent. -/
theorem evaluate_numbering (p : Policy) (ha : a.Coherent) (hb : b.Coherent)
    (hab : a.SameUses b) :
    ((∃ err, p.evaluate a = .error err) ↔ ∃ err, p.evaluate b = .error err) ∧
    ∀ e e', p.evaluate a = .ok e → p.evaluate b = .ok e' →
      e.violations = e'.violations ∧ e.unusedRules = e'.unusedRules ∧ e.cycles = e'.cycles ∧
        e.emptySubjects = e'.emptySubjects := by
  have hok : ∀ e, p.evaluate a = .ok e → p.evaluate b = .ok e :=
    fun _ => evaluate_ok_of_sameUses hab ha hb
  have hok' : ∀ e, p.evaluate b = .ok e → p.evaluate a = .ok e :=
    fun _ => evaluate_ok_of_sameUses hab.symm hb ha
  constructor
  · cases hea : p.evaluate a with
    | ok e => rw [hok e hea]
    | error err =>
      cases heb : p.evaluate b with
      | ok e =>
        rw [hok' e heb] at hea
        cases hea
      | error err' => exact iff_of_true ⟨err, rfl⟩ ⟨err', rfl⟩
  · intro e e' he he'
    rw [hok e he] at he'
    cases he'
    exact ⟨rfl, rfl, rfl, rfl⟩

/-- The classes of `layersModel` in the other order, so that all of them have other numbers. -/
def turnedModel : Model :=
  let other := (Model.empty.internClass "other.C").2
  let high := (other.define ⟨"high.B", 1, 0, none, ∅, .ofList ["low.A"]⟩).2
  (high.define ⟨"low.A", 1, 0, none, ∅, .ofList ["high.B", "other.C"]⟩).2

theorem evaluate_numbering_turned :
    layersModel.classNames (.ofList [0, 1, 2]) = ["low.A", "high.B", "other.C"] ∧
    turnedModel.classNames (.ofList [0, 1, 2]) = ["other.C", "high.B", "low.A"] ∧
    ∃ e e', layersPolicy.evaluate layersModel = .ok e ∧
      layersPolicy.evaluate turnedModel = .ok e' ∧ e.violations ≠ [] ∧
      e.violations = e'.violations ∧ e.unusedRules = e'.unusedRules ∧ e.cycles = e'.cycles ∧
      e.emptySubjects = e'.emptySubjects := by
  have ha : layersModel.Reachable := .define _ (.define _ .empty)
  have hb : turnedModel.Reachable := .define _ (.define _ (.internClass _ .empty))
  have hab : layersModel.SameUses turnedModel := by decide
  have hfound : layersPolicy.foundViolations layersModel = .ok layersViolations := by
    decide
  obtain ⟨herr, heq⟩ := evaluate_numbering layersPolicy ha.coherent hb.coherent hab
  obtain ⟨e, he, hviolations⟩ := evaluate_of_foundViolations hfound
  have hne : e.violations ≠ [] := by
    rw [hviolations, Ne, ← List.length_eq_zero_iff, List.length_mergeSort]
    decide
  cases he' : layersPolicy.evaluate turnedModel with
  | error err =>
    obtain ⟨_, h⟩ := herr.mpr ⟨err, he'⟩
    rw [he] at h
    cases h
  | ok e' =>
    exact ⟨by decide, by decide, e, e', he, rfl, hne, heq e e' he he'⟩

end Policy

end ClassDeps
