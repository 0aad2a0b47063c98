import ClassDeps.Proofs.Graph.Tarjan

namespace ClassDeps.Graph

variable {g : Graph} {n : Nat} {nodes : Vector String n}

theorem get_inj (h : nodes.toList.Nodup) {i j : Fin n} :
    nodes.get i = nodes.get j ↔ i = j := by
  rw [Fin.ext_iff]
  exact h.getElem_inj_iff

/-- Every node is found at its position. -/
theorem getElem?_positions_self (h : nodes.toList.Nodup) (i : Fin n) :
    (positions nodes)[nodes.get i]? = some i := by
  apply Std.ExtTreeMap.getElem?_ofList_of_mem Std.ReflCmp.compare_self
  · rw [List.pairwise_map]
    refine (List.nodup_finRange n).imp ?_
    intro i j hne he
    exact hne ((get_inj h).mp (Std.LawfulEqCmp.compare_eq_iff_eq.mp he))
  · exact List.mem_map_of_mem (List.mem_finRange i)

theorem getElem?_positions (h : nodes.toList.Nodup) {x : String} {i : Fin n} :
    (positions nodes)[x]? = some i ↔ nodes.get i = x := by
  constructor
  · intro hx
    have hmem : x ∈ positions nodes := Std.ExtTreeMap.mem_iff_isSome_getElem?.mpr (by simp [hx])
    rw [positions, Std.ExtTreeMap.mem_ofList, List.contains_iff_mem, List.map_map] at hmem
    obtain ⟨j, -, rfl⟩ := List.mem_map.mp hmem
    have hj := getElem?_positions_self h j
    cases hx.symm.trans hj
    rfl
  · rintro rfl
    exact getElem?_positions_self h i

theorem edge_adjacency (h : nodes.toList.Nodup) {i j : Fin n} :
    Tarjan.Edge (g.adjacency nodes) i j ↔ g.Edge (nodes.get i) (nodes.get j) := by
  have hget : (g.adjacency nodes).get i =
      (g.successors (nodes.get i)).filterMap ((positions nodes)[·]?) := Vector.getElem_ofFn ..
  rw [Tarjan.Edge, Edge, hget, List.mem_filterMap]
  constructor
  · rintro ⟨x, hx, hj⟩
    rw [getElem?_positions h] at hj
    rw [hj]
    exact hx
  · intro hj
    exact ⟨_, hj, getElem?_positions_self h j⟩

theorem nodup_of_eq (h : nodes.toList = g.nodes) : nodes.toList.Nodup :=
  h ▸ g.nodes_ascending.imp LT.lt.ne

theorem exists_position (h : nodes.toList = g.nodes) {x : String} (hx : x ∈ g.nodes) :
    ∃ i : Fin n, nodes.get i = x := by
  rw [← h, Vector.mem_toList_iff] at hx
  obtain ⟨i, hi, rfl⟩ := Vector.getElem_of_mem hx
  exact ⟨⟨i, hi⟩, rfl⟩

/-- The walks between nodes are those between their positions. -/
theorem reaches_adjacency (h : nodes.toList = g.nodes) {i j : Fin n} :
    Tarjan.Reaches (g.adjacency nodes) i j ↔ g.Reaches (nodes.get i) (nodes.get j) := by
  have hnodup := nodup_of_eq h
  constructor
  · intro hij
    exact hij.lift nodes.get fun _ _ => (edge_adjacency hnodup).mp
  · intro hij
    generalize hx : nodes.get j = x at hij
    induction hij generalizing j with
    | refl =>
      rw [(get_inj hnodup).mp hx]
    | @tail x y _ hxy ih =>
      obtain ⟨k, hk⟩ := exists_position h hxy.mem_nodes.1
      refine (ih hk).tail ((edge_adjacency hnodup).mpr ?_)
      rw [hk, hx]
      exact hxy

theorem connected_adjacency (h : nodes.toList = g.nodes) {i j : Fin n} :
    StronglyConnected (Tarjan.Edge (g.adjacency nodes)) i j ↔
      StronglyConnected g.Edge (nodes.get i) (nodes.get j) :=
  and_congr (reaches_adjacency h) (reaches_adjacency h)

/-- The components that the search finds. -/
def found (g : Graph) {n : Nat} (nodes : Vector String n) : List (List (Fin n)) :=
  (Tarjan.search (g.adjacency nodes)).components.filter (1 < ·.length)

theorem mem_members_cycle {component : List (Fin n)} {x : String} :
    x ∈ (g.cycle nodes component).members ↔ ∃ i ∈ component, nodes.get i = x := by
  rw [cycle, List.mem_mergeSort, List.mem_map]

theorem length_members_cycle (component : List (Fin n)) :
    (g.cycle nodes component).members.length = component.length := by
  rw [cycle, List.length_mergeSort, List.length_map]

/-- What is sorted by keys without a repetition ascends. -/
theorem ascending_mergeSort {α β : Type} [LinearOrder β] (key : α → β) (le : α → α → Bool)
    (hle : ∀ a b, le a b = true ↔ key a ≤ key b) {l : List α} (h : (l.map key).Nodup) :
    ((l.mergeSort le).map key).Pairwise (· < ·) := by
  have hsorted : (l.mergeSort le).Pairwise (le · ·) := List.pairwise_mergeSort
    (fun a b c hab hbc => (hle a c).mpr (((hle a b).mp hab).trans ((hle b c).mp hbc)))
    (fun a b => by simpa [hle] using le_total (key a) (key b)) l
  have hnodup := ((List.mergeSort_perm l le).map key).nodup_iff.mpr h
  rw [List.nodup_iff_pairwise_ne, List.pairwise_map] at hnodup
  rw [List.pairwise_map]
  exact (hsorted.and hnodup).imp fun hab => lt_of_le_of_ne ((hle _ _).mp hab.1) hab.2

theorem members_cycle_ascending (h : nodes.toList.Nodup) {component : List (Fin n)}
    (hcomponent : component.Nodup) : (g.cycle nodes component).members.Pairwise (· < ·) := by
  have hnames : (component.map nodes.get).Nodup :=
    hcomponent.map fun i j hij => (get_inj h).mp hij
  rw [← List.map_id (component.map _)] at hnames
  have hascending := ascending_mergeSort id (fun a b : String => a ≤ b)
    (fun _ _ => decide_eq_true_iff) hnames
  rw [List.map_id] at hascending
  exact hascending

/-- What is found together is connected, and nothing else is. -/
theorem mem_members_cycle_iff (h : nodes.toList = g.nodes) {component : List (Fin n)}
    (hc : component ∈ (Tarjan.search (g.adjacency nodes)).components) {i : Fin n}
    (hi : i ∈ component) (b : String) : b ∈ (g.cycle nodes component).members ↔
      b ∈ g.nodes ∧ StronglyConnected g.Edge (nodes.get i) b := by
  obtain ⟨-, -, hcomponent⟩ := Tarjan.search_components (g.adjacency nodes)
  rw [mem_members_cycle]
  constructor
  · rintro ⟨j, hj, rfl⟩
    exact ⟨h ▸ nodes.toList.getElem_mem _,
      (connected_adjacency h).mp ((hcomponent _ hc i hi j).mp hj)⟩
  · rintro ⟨hb, hib⟩
    obtain ⟨j, rfl⟩ := exists_position h hb
    exact ⟨j, (hcomponent _ hc i hi j).mpr ((connected_adjacency h).mpr hib), rfl⟩

theorem cycle_ascending (h : nodes.toList = g.nodes) {component : List (Fin n)}
    (hc : component ∈ (Tarjan.search (g.adjacency nodes)).components) :
    (g.cycle nodes component).members.Pairwise (· < ·) := by
  obtain ⟨-, hnodup, -⟩ := Tarjan.search_components (g.adjacency nodes)
  exact members_cycle_ascending (nodup_of_eq h) ((List.nodup_flatten.mp hnodup).1 _ hc)

/-- The components that are found are those of the graph, in the order of names. -/
theorem isComponent_iff_found (h : nodes.toList = g.nodes) {members : List String} :
    IsComponent (· ∈ g.nodes) g.Edge members ↔
      ∃ component ∈ g.found nodes, (g.cycle nodes component).members = members := by
  constructor
  · intro hm
    match members, hm with
    | a :: rest, hm =>
      have ha : a ∈ a :: rest := List.mem_cons_self
      obtain ⟨i, rfl⟩ := exists_position h ((hm.mem_iff a ha a).mp ha).1
      obtain ⟨hall, -, -⟩ := Tarjan.search_components (g.adjacency nodes)
      obtain ⟨component, hc, hi⟩ := List.mem_flatten.mp (hall i)
      have hmembers : (g.cycle nodes component).members = nodes.get i :: rest := by
        refine (cycle_ascending h hc).eq_of_mem_iff hm.ascending fun b => ?_
        rw [hm.mem_iff _ ha b, mem_members_cycle_iff h hc hi]
      refine ⟨component, List.mem_filter.mpr ⟨hc, decide_eq_true ?_⟩, hmembers⟩
      rw [← length_members_cycle (g := g), hmembers]
      exact hm.two_le
  · rintro ⟨component, hfound, rfl⟩
    obtain ⟨hc, hlength⟩ := List.mem_filter.mp hfound
    refine ⟨cycle_ascending h hc, ?_, ?_⟩
    · rw [length_members_cycle]
      exact of_decide_eq_true hlength
    · intro a ha b
      obtain ⟨i, hi, rfl⟩ := mem_members_cycle.mp ha
      exact mem_members_cycle_iff h hc hi b

/-- Components have no node in common, so that none is found twice. -/
theorem nodup_found (h : nodes.toList = g.nodes) :
    (((g.found nodes).map (g.cycle nodes)).map Cycle.members).Nodup := by
  obtain ⟨-, hnodup, -⟩ := Tarjan.search_components (g.adjacency nodes)
  have hdisjoint := (List.nodup_flatten.mp hnodup).2.filter (1 < ·.length)
  rw [List.nodup_iff_pairwise_ne, List.pairwise_map, List.pairwise_map]
  refine hdisjoint.imp_of_mem ?_
  intro c d hc _ hcd he
  obtain ⟨i, rest, rfl⟩ : ∃ i rest, c = i :: rest := by
    have hlength := of_decide_eq_true (List.mem_filter.mp hc).2
    exact List.exists_cons_of_length_pos (by omega)
  have hi : nodes.get i ∈ (g.cycle nodes d).members :=
    he ▸ mem_members_cycle.mpr ⟨i, by simp, rfl⟩
  obtain ⟨j, hj, hij⟩ := mem_members_cycle.mp hi
  cases (get_inj (nodup_of_eq h)).mp hij
  exact hcd List.mem_cons_self hj

theorem map_members_cycles (g : Graph) : g.cycles.map (·.members) = g.components := by
  have h : g.nodes.toArray.toVector.toList = g.nodes := rfl
  have hascending : (g.cycles.map Cycle.members).Pairwise (· < ·) := by
    refine ascending_mergeSort _ _ (fun a b => ?_) (nodup_found h)
    rw [Bool.not_eq_true', decide_eq_false_iff_not, not_lt]
  refine hascending.eq_of_mem_iff g.components_ascending fun members => ?_
  rw [mem_components, isComponent_iff_found h]
  simp only [cycles, List.mem_map, List.mem_mergeSort, exists_exists_and_eq_and]
  rfl

/-- The cycles are the components with their chains. -/
theorem cycles_eq (g : Graph) :
    g.cycles = g.components.map fun members => ⟨members, g.chain members⟩ := by
  have hcycle : ∀ c ∈ g.cycles, (⟨c.members, g.chain c.members⟩ : Cycle) = c := by
    intro c hc
    obtain ⟨component, -, rfl⟩ := List.mem_map.mp (List.mem_mergeSort.mp hc)
    rfl
  rw [← map_members_cycles, List.map_map]
  conv_lhs => rw [← List.map_id g.cycles]
  exact List.map_congr_left fun c hc => (hcycle c hc).symm

end ClassDeps.Graph
