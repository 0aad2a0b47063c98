import ClassDeps.Policy.Evaluate
import ClassDeps.Proofs.Graph.Numbering
import ClassDeps.Proofs.Model.Merge

namespace ClassDeps.Model

variable {m : Model} {exclude : List Pattern}

theorem Coherent.packageName?_eq (h : m.Coherent) {i : ClassId} {c : ClassNode}
    (hc : m.classes.get? i = some c) : m.packageName? c = some (Name.packageOf c.name) := by
  obtain ⟨p, hp, hn⟩ := h.get?_package hc
  rw [packageName?, hp, Option.map_some, hn]

/-- What the use of the class `id` by the class `c` says of their packages. -/
def packageHop? (m : Model) (exclude : List Pattern) (c : ClassNode) (id : ClassId) :
    Option Hop := do
  let source ← m.packageName? c
  let used ← m.classes.get? id
  let target ← m.packageName? used
  if isExcluded exclude source || isExcluded exclude target then none
  else some ⟨source, target, ⟨c.name, used.name⟩⟩

def packageHops (m : Model) (exclude : List Pattern) : List Hop :=
  m.definedClasses.flatMap fun (_, c) => c.uses.toList.filterMap (m.packageHop? exclude c)

theorem packageGraph_eq (m : Model) (exclude : List Pattern) :
    m.packageGraph exclude = Graph.ofHops (m.packageHops exclude) := by
  rw [packageGraph, Graph.ofHops, packageHops, List.foldl_flatMap]
  congr 1
  funext g entry
  obtain ⟨i, c⟩ := entry
  rw [List.foldl_filterMap]
  cases hc : m.packageName? c with
  | none => simp [packageHop?, hc]
  | some source =>
    by_cases hs : isExcluded exclude source
    · simp [packageHop?, hc, hs]
    · simp only [hc, if_neg hs]
      congr 1
      funext g id
      rcases hu : m.classes.get? id with _ | used
      · simp [packageHop?, hc, hu]
      · rcases ht : m.packageName? used with _ | target
        · simp [packageHop?, hc, hu, ht]
        · by_cases he : isExcluded exclude target
          · simp [packageHop?, hc, hu, ht, he]
          · simp [packageHop?, hc, hu, ht, hs, he]

theorem Coherent.packageHop?_eq_some_iff (h : m.Coherent) {i j : ClassId} {c used : ClassNode}
    {hop : Hop} (hc : m.classes.get? i = some c) (hu : m.classes.get? j = some used) :
    m.packageHop? exclude c j = some hop ↔
      isExcluded exclude (Name.packageOf c.name) = false ∧
        isExcluded exclude (Name.packageOf used.name) = false ∧
        ⟨Name.packageOf c.name, Name.packageOf used.name, ⟨c.name, used.name⟩⟩ = hop := by
  simp [packageHop?, h.packageName?_eq hc, hu, h.packageName?_eq hu, and_assoc]

theorem Coherent.mem_packageHops (h : m.Coherent) {hop : Hop} :
    hop ∈ m.packageHops exclude ↔
      ∃ c used, m.Uses c used ∧ c.defined ∧
        isExcluded exclude (Name.packageOf c.name) = false ∧
        isExcluded exclude (Name.packageOf used.name) = false ∧
        ⟨Name.packageOf c.name, Name.packageOf used.name, ⟨c.name, used.name⟩⟩ = hop := by
  simp only [packageHops, List.mem_flatMap, List.mem_filterMap, definedClasses, List.mem_filter,
    Prod.exists, h.classes.mem_byName, Std.ExtTreeSet.mem_toList]
  constructor
  · rintro ⟨i, c, ⟨hc, hd⟩, j, hj, hhop⟩
    obtain ⟨used, hu⟩ := Arena.exists_get?_of_lt_size (h.uses hc hj).1
    exact ⟨c, used, ⟨i, j, hc, hj, hu⟩, hd, (h.packageHop?_eq_some_iff hc hu).mp hhop⟩
  · rintro ⟨c, used, ⟨i, j, hc, hj, hu⟩, hd, hhop⟩
    exact ⟨i, c, ⟨hc, hd⟩, j, hj, (h.packageHop?_eq_some_iff hc hu).mpr hhop⟩

/-- The package `p` uses the package `q`. -/
def PackageUse (m : Model) (p q : String) : Prop :=
  ∃ i j, m.packages.find? p = some i ∧ m.packages.find? q = some j ∧ j ∈ m.packageUses i

theorem Coherent.mem_packageUses (h : m.Coherent) {k l : PackageId} :
    l ∈ m.packageUses k ↔
      l ≠ k ∧ ∃ c used, m.Uses c used ∧ c.package = k ∧ used.package = l := by
  rw [packageUses]
  cases hk : m.packages.get? k with
  | none =>
    refine iff_of_false Std.ExtTreeSet.not_mem_empty ?_
    rintro ⟨-, c, used, ⟨i, j, hc, -⟩, rfl, -⟩
    obtain ⟨p, hp, -⟩ := h.get?_package hc
    rw [hk] at hp
    cases hp
  | some p =>
    simp only [Std.ExtTreeSet.mem_ofList, List.contains_iff_mem, List.mem_filter,
      List.mem_filterMap, List.mem_flatMap, Std.ExtTreeSet.mem_toList, Option.map_eq_some_iff,
      decide_eq_true_eq, h.member_iff hk]
    constructor
    · rintro ⟨⟨j, ⟨i, ⟨c, hc, hp⟩, hj⟩, used, hu, hl⟩, hne⟩
      rw [hc] at hj
      exact ⟨hne, c, used, ⟨i, j, hc, Std.ExtTreeSet.mem_toList.mp hj, hu⟩, hp, hl⟩
    · rintro ⟨hne, c, used, ⟨i, j, hc, hj, hu⟩, hp, hl⟩
      refine ⟨⟨j, ⟨i, ⟨c, hc, hp⟩, ?_⟩, used, hu, hl⟩, hne⟩
      rw [hc]
      exact Std.ExtTreeSet.mem_toList.mpr hj

theorem Coherent.packageUse_iff (h : m.Coherent) {p q : String} :
    m.PackageUse p q ↔ p ≠ q ∧
      ∃ c used, m.Uses c used ∧ Name.packageOf c.name = p ∧ Name.packageOf used.name = q := by
  constructor
  · rintro ⟨k, l, hk, hl, hkl⟩
    obtain ⟨hne, c, used, ⟨i, j, hc, hj, hu⟩, hp, hq⟩ := h.mem_packageUses.mp hkl
    refine ⟨?_, c, used, ⟨i, j, hc, hj, hu⟩, (h.package_eq_iff hc hk).mp hp,
      (h.package_eq_iff hu hl).mp hq⟩
    rintro rfl
    rw [hk, Option.some_inj] at hl
    exact hne hl.symm
  · rintro ⟨hne, c, used, ⟨i, j, hc, hj, hu⟩, rfl, rfl⟩
    refine ⟨c.package, used.package, h.package hc, h.package hu, h.mem_packageUses.mpr
      ⟨?_, c, used, ⟨i, j, hc, hj, hu⟩, rfl, rfl⟩⟩
    intro he
    exact hne ((h.package_eq_iff hu (h.package hc)).mp he).symm

/-- A class that is not defined uses nothing. -/
theorem Settled.defined_of_uses (h : m.Settled) {c used : ClassNode} (hu : m.Uses c used) :
    c.defined := by
  obtain ⟨i, j, hc, hj, hused⟩ := hu
  by_contra hd
  have hm := h.undefined (h.coherent.classContent?_name hc) (Bool.eq_false_of_not_eq_true hd)
  have hname : used.name ∈ m.names c.uses :=
    h.coherent.mem_names.mpr ⟨j, hj, h.coherent.classes.find?_eq hused⟩
  have hempty : m.names c.uses = ∅ := congrArg (·.uses) hm
  rw [hempty] at hname
  exact Std.ExtTreeSet.not_mem_empty hname

/-- One of the patterns matches the package, the unnamed one as the empty text. -/
def Excluded (exclude : List Pattern) (p : String) : Prop :=
  ∃ pattern ∈ exclude, pattern.acceptsPackage (if p = Name.unnamedPackage then "" else p)

theorem isExcluded_eq_false_iff {p : String} :
    isExcluded exclude p = false ↔ ¬Excluded exclude p := by
  rw [← Bool.not_eq_true, isExcluded, List.any_eq_true]
  rfl

/-- A package that is searched for cycles. -/
def Included (m : Model) (exclude : List Pattern) (p : String) : Prop :=
  (m.packages.find? p).isSome ∧ ¬Excluded exclude p

/-- A use between packages that are searched. -/
def IncludedUse (m : Model) (exclude : List Pattern) (p q : String) : Prop :=
  m.Included exclude p ∧ m.Included exclude q ∧ m.PackageUse p q

theorem Settled.edge_packageGraph (h : m.Settled) :
    (m.packageGraph exclude).Edge = m.IncludedUse exclude := by
  funext p q
  rw [packageGraph_eq, Graph.edge_ofHops, IncludedUse, h.coherent.packageUse_iff]
  simp only [h.coherent.mem_packageHops, isExcluded_eq_false_iff, Included, eq_iff_iff]
  constructor
  · rintro ⟨hne, hop, ⟨c, used, hu, -, hp, hq, rfl⟩, rfl, rfl⟩
    have ⟨i, j, hc, hj, hused⟩ := hu
    refine ⟨⟨?_, hp⟩, ⟨?_, hq⟩, hne, c, used, hu, rfl, rfl⟩
    · rw [h.coherent.package hc]
      rfl
    · rw [h.coherent.package hused]
      rfl
  · rintro ⟨⟨-, hp⟩, ⟨-, hq⟩, hne, c, used, hu, rfl, rfl⟩
    exact ⟨hne, _, ⟨c, used, hu, h.defined_of_uses hu, hp, hq, rfl⟩, rfl, rfl⟩

theorem Settled.mem_packageCycles (h : m.Settled) {members : List String} :
    members ∈ (m.packageCycles exclude).map (·.members) ↔
      IsComponent (m.Included exclude) (m.IncludedUse exclude) members := by
  rw [packageCycles, Graph.map_members_cycles, Graph.mem_components, h.edge_packageGraph]
  -- The graph has only nodes with edges, which makes no difference to its components.
  have hnode : ∀ p q, m.IncludedUse exclude p q → p ∈ (m.packageGraph exclude).nodes := by
    intro p q hpq
    rw [← h.edge_packageGraph] at hpq
    exact hpq.mem_nodes.1
  exact ⟨.of_nodes hnode fun _ _ h => h.1, .of_nodes (fun _ _ h => h.1) hnode⟩

/-- The cycles of packages are exactly the strongly connected components of two packages or more
among those that are not excluded: two packages are in one cycle exactly if each reaches the other.
Their members ascend, they have none in common, and they ascend themselves. -/
theorem packageCycles_components (h : Assembled m) (exclude : List Pattern) :
    (∀ members, members ∈ (m.packageCycles exclude).map (·.members) ↔
      IsComponent (m.Included exclude) (m.IncludedUse exclude) members) ∧
    (∀ p q, p ≠ q → m.Included exclude p → m.Included exclude q →
      ((∃ c ∈ m.packageCycles exclude, p ∈ c.members ∧ q ∈ c.members) ↔
        Relation.ReflTransGen (m.IncludedUse exclude) p q ∧
          Relation.ReflTransGen (m.IncludedUse exclude) q p)) ∧
    (∀ c ∈ m.packageCycles exclude, c.members.Pairwise (· < ·)) ∧
    (m.packageCycles exclude).Pairwise (fun c d => c.members.Disjoint d.members) ∧
    (m.packageCycles exclude).Pairwise (fun c d => c.members < d.members) := by
  have hs := h.settled
  have hcomponent : ∀ c ∈ m.packageCycles exclude,
      IsComponent (m.Included exclude) (m.IncludedUse exclude) c.members := by
    intro c hc
    exact hs.mem_packageCycles.mp (List.mem_map_of_mem hc)
  refine ⟨fun _ => hs.mem_packageCycles, ?_, fun c hc => (hcomponent c hc).ascending, ?_, ?_⟩
  · intro p q hne _ _
    constructor
    · rintro ⟨c, hc, hp, hq⟩
      exact (hcomponent c hc).connected hp hq
    · intro hpq
      rw [← hs.edge_packageGraph] at hpq
      obtain ⟨members, hm, hp, hq⟩ := Graph.exists_mem_components hpq hne
      rw [← Graph.map_members_cycles] at hm
      obtain ⟨c, hc, rfl⟩ := List.mem_map.mp hm
      exact ⟨c, hc, hp, hq⟩
  · rw [← List.pairwise_map (f := Cycle.members), packageCycles, Graph.map_members_cycles]
    exact Graph.components_disjoint _
  · rw [← List.pairwise_map (f := Cycle.members), packageCycles, Graph.map_members_cycles]
    exact Graph.components_ascending _

/-- Three packages of a class each: the first uses both others, and they use the first. -/
def ringModel : Model :=
  let a := (empty.define ⟨"a.A", 1, 0, none, ∅, .ofList ["b.B", "c.C"]⟩).2
  let b := (a.define ⟨"b.B", 1, 0, none, ∅, .ofList ["a.A"]⟩).2
  (b.define ⟨"c.C", 1, 0, none, ∅, .ofList ["a.A"]⟩).2

theorem assembled_ringModel : Assembled ringModel :=
  .define _ (.define _ (.define _ .empty))

theorem packageCycles_components_ring :
    IsComponent (ringModel.Included [⟨"c", some (.exact "c"), none, none⟩])
      (ringModel.IncludedUse [⟨"c", some (.exact "c"), none, none⟩]) ["a", "b"] :=
  ((packageCycles_components assembled_ringModel _).1 _).mp (by
    rw [packageCycles, Graph.map_members_cycles]
    decide)

end ClassDeps.Model
