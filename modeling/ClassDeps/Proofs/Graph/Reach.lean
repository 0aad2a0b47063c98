import ClassDeps.Graph.Cycle
import Mathlib.Data.Prod.Lex
import Mathlib.Data.String.Basic
import Mathlib.Logic.Relation

namespace ClassDeps

namespace ClassEdge

/-- The ends of an edge, in the order in which edges compare. -/
def key (e : ClassEdge) : String ×ₗ String :=
  toLex (e.source, e.target)

theorem key_injective : Function.Injective key := by
  rintro ⟨a, b⟩ ⟨c, d⟩ h
  simpa [key] using h

theorem lt_iff_key_lt {a b : ClassEdge} : a.lt b ↔ a.key < b.key := by
  simp [lt, key, Prod.Lex.lt_iff]

end ClassEdge

namespace Graph

variable {g : Graph}

/-- There is an edge from `a` to `b`. -/
def Edge (g : Graph) (a b : String) : Prop :=
  b ∈ g.successors a

/-- There is a walk from `a` to `b`, which may be empty. -/
def Reaches (g : Graph) : String → String → Prop :=
  Relation.ReflTransGen g.Edge

theorem edge_iff_isSome_edge? {a b : String} : g.Edge a b ↔ (g.edge? a b).isSome := by
  rw [Edge, successors, edge?]
  cases g.edges[a]? with
  | none => simp
  | some targets =>
    simp only [Option.map_some, Option.getD_some, Option.bind_some, Std.ExtTreeMap.mem_keys]
    exact Std.ExtTreeMap.mem_iff_isSome_getElem?

theorem edge?_empty (a b : String) : empty.edge? a b = none := by
  simp [edge?, empty]

theorem not_edge_empty (a b : String) : ¬empty.Edge a b := by
  rw [edge_iff_isSome_edge?, edge?_empty]
  exact Bool.false_ne_true

/-- The class edges that are kept, after one more. -/
theorem edge?_addEdge (g : Graph) (source target : String) (e : ClassEdge) (a b : String) :
    (g.addEdge source target e).edge? a b =
      if source ≠ target ∧ source = a ∧ target = b then
        some (((g.edge? a b).map (·.min e)).getD e)
      else g.edge? a b := by
  rw [addEdge]
  by_cases hst : source = target
  · simp [hst]
  · rw [if_neg hst, edge?]
    simp only [Std.ExtTreeMap.getElem?_alter, Std.LawfulEqCmp.compare_eq_iff_eq]
    by_cases ha : source = a
    · by_cases hb : target = b
      · subst ha hb
        rcases hs : g.edges[source]? with _ | targets
        · simp [hst, hs, edge?]
        · rcases ht : targets[target]? with _ | smallest
          · simp [hst, hs, ht, edge?]
          · simp [hst, hs, ht, edge?]
      · subst ha
        rcases hs : g.edges[source]? with _ | targets
        · simp [hb, hs, edge?, Std.ExtTreeMap.getElem?_alter]
        · simp [hb, hs, edge?, Std.ExtTreeMap.getElem?_alter]
    · simp [ha, edge?]

theorem edge_addEdge {source target a b : String} {e : ClassEdge} :
    (g.addEdge source target e).Edge a b ↔
      g.Edge a b ∨ source ≠ target ∧ source = a ∧ target = b := by
  rw [edge_iff_isSome_edge?, edge_iff_isSome_edge?, edge?_addEdge]
  by_cases h : source ≠ target ∧ source = a ∧ target = b
  · rw [if_pos h]
    exact iff_of_true rfl (.inr h)
  · rw [if_neg h, or_iff_left h]

/-- The graph of the edges that `hops` account for. -/
def ofHops (hops : List Hop) : Graph :=
  hops.foldl (fun g h => g.addEdge h.source h.target h.edge) empty

theorem edge_foldl_addEdge {hops : List Hop} {a b : String} :
    (hops.foldl (fun g h => g.addEdge h.source h.target h.edge) g).Edge a b ↔
      g.Edge a b ∨ a ≠ b ∧ ∃ h ∈ hops, h.source = a ∧ h.target = b := by
  induction hops generalizing g with
  | nil => simp
  | cons h hops ih =>
    have hhead : (h.source ≠ h.target ∧ h.source = a ∧ h.target = b) ↔
        a ≠ b ∧ h.source = a ∧ h.target = b := by
      constructor
      · rintro ⟨hne, rfl, rfl⟩
        exact ⟨hne, rfl, rfl⟩
      · rintro ⟨hne, rfl, rfl⟩
        exact ⟨hne, rfl, rfl⟩
    rw [List.foldl_cons, ih, edge_addEdge, hhead, or_assoc, ← and_or_left,
      List.exists_mem_cons_iff]

theorem edge_ofHops {hops : List Hop} {a b : String} :
    (ofHops hops).Edge a b ↔ a ≠ b ∧ ∃ h ∈ hops, h.source = a ∧ h.target = b := by
  rw [ofHops, edge_foldl_addEdge, or_iff_right (not_edge_empty a b)]

theorem nodes_ascending (g : Graph) : g.nodes.Pairwise (· < ·) := by
  have h := Std.ExtTreeSet.ordered_toList
    (t := Std.ExtTreeSet.ofList (g.edges.toList.flatMap fun entry => entry.1 :: entry.2.keys))
  exact h.imp compare_lt_iff_lt.mp

theorem Edge.mem_nodes {a b : String} (h : g.Edge a b) : a ∈ g.nodes ∧ b ∈ g.nodes := by
  rw [Edge, successors] at h
  rcases ha : g.edges[a]? with _ | targets
  · simp [ha] at h
  · rw [ha] at h
    have hmem : (a, targets) ∈ g.edges.toList :=
      Std.ExtTreeMap.mem_toList_iff_getElem?_eq_some.mpr ha
    simp only [nodes, Std.ExtTreeSet.mem_toList, Std.ExtTreeSet.mem_ofList,
      List.contains_iff_mem, List.mem_flatMap]
    exact ⟨⟨_, hmem, List.mem_cons_self⟩, ⟨_, hmem, List.mem_cons_of_mem _ h⟩⟩

/-- The nodes among `seen` and those reached from `frontier` in at most `n` more steps. -/
def spread (g : Graph) : Nat → List String → Std.ExtTreeSet String → Std.ExtTreeSet String
  | 0, _, seen => seen
  | n + 1, frontier, seen =>
    let fresh := (Std.ExtTreeSet.ofList (frontier.flatMap g.successors)).toList.filter
      (!seen.contains ·)
    if fresh.isEmpty then seen else g.spread n fresh (seen.insertMany fresh)

/-- Every node that a walk of any length from `source` ends at. No walk without a repetition has
more steps than the graph has nodes. -/
def reach (g : Graph) (source : String) : Std.ExtTreeSet String :=
  g.spread g.nodes.length [source] (({} : Std.ExtTreeSet String).insert source)

/-- A state of the search from `source`: all that was seen is reached, and only nodes in the
frontier may have edges to nodes not seen yet. -/
structure Searched (g : Graph) (source : String) (frontier : List String)
    (seen : Std.ExtTreeSet String) : Prop where
  source_mem : source ∈ seen
  frontier_mem : ∀ x ∈ frontier, x ∈ seen
  sound : ∀ x ∈ seen, g.Reaches source x
  closed : ∀ x ∈ seen, x ∉ frontier → ∀ y, g.Edge x y → y ∈ seen

/-- The nodes that are seen for the first time from `frontier`. -/
def fresh (g : Graph) (frontier : List String) (seen : Std.ExtTreeSet String) : List String :=
  (Std.ExtTreeSet.ofList (frontier.flatMap g.successors)).toList.filter (!seen.contains ·)

theorem mem_fresh {frontier : List String} {seen : Std.ExtTreeSet String} {y : String} :
    y ∈ g.fresh frontier seen ↔ (∃ x ∈ frontier, g.Edge x y) ∧ y ∉ seen := by
  simp only [fresh, Edge, List.mem_filter, Std.ExtTreeSet.mem_toList, Std.ExtTreeSet.mem_ofList,
    List.contains_iff_mem, List.mem_flatMap, Bool.not_eq_true', ← Bool.not_eq_true,
    Std.ExtTreeSet.contains_iff_mem]

theorem spread_succ (g : Graph) (n : Nat) (frontier : List String)
    (seen : Std.ExtTreeSet String) :
    g.spread (n + 1) frontier seen =
      if (g.fresh frontier seen).isEmpty then seen
      else g.spread n (g.fresh frontier seen) (seen.insertMany (g.fresh frontier seen)) :=
  rfl

/-- The nodes that were not seen yet. -/
def unseen (g : Graph) (seen : Std.ExtTreeSet String) : List String :=
  g.nodes.filter (!seen.contains ·)

theorem unseen_insertMany_lt {frontier : List String} {seen : Std.ExtTreeSet String}
    (h : g.fresh frontier seen ≠ []) :
    (g.unseen (seen.insertMany (g.fresh frontier seen))).length < (g.unseen seen).length := by
  have hsub : g.unseen (seen.insertMany (g.fresh frontier seen)) =
      (g.unseen seen).filter (!(g.fresh frontier seen).contains ·) := by
    rw [unseen, unseen, List.filter_filter]
    apply List.filter_congr
    intro x _
    rw [Std.ExtTreeSet.contains_insertMany_list, Bool.not_or, Bool.and_comm]
  obtain ⟨y, hy⟩ := List.exists_mem_of_ne_nil _ h
  obtain ⟨⟨x, -, hxy⟩, hseen⟩ := mem_fresh.mp hy
  rw [hsub, List.length_filter_lt_length_iff_exists]
  refine ⟨y, ?_, ?_⟩
  · rw [unseen, List.mem_filter]
    exact ⟨hxy.mem_nodes.2, by rwa [Bool.not_eq_true', ← Bool.not_eq_true]⟩
  · simpa using hy

namespace Searched

variable {source : String} {frontier : List String} {seen : Std.ExtTreeSet String}

theorem start (g : Graph) (source : String) :
    g.Searched source [source] (({} : Std.ExtTreeSet String).insert source) where
  source_mem := by simp
  frontier_mem := by simp
  sound := by
    intro x hx
    have he : source = x := by simpa [Std.ExtTreeSet.mem_insert] using hx
    rw [he]
    exact .refl
  closed := by
    intro x hx hn
    have he : source = x := by simpa [Std.ExtTreeSet.mem_insert] using hx
    exact absurd (List.mem_singleton.mpr he.symm) hn

theorem step (h : g.Searched source frontier seen) :
    g.Searched source (g.fresh frontier seen) (seen.insertMany (g.fresh frontier seen)) where
  source_mem := Std.ExtTreeSet.mem_insertMany_list.mpr (.inl h.source_mem)
  frontier_mem := by
    intro x hx
    exact Std.ExtTreeSet.mem_insertMany_list.mpr (.inr (List.contains_iff_mem.mpr hx))
  sound := by
    intro x hx
    rcases Std.ExtTreeSet.mem_insertMany_list.mp hx with hx | hx
    · exact h.sound x hx
    · obtain ⟨⟨w, hw, hwx⟩, -⟩ := mem_fresh.mp (List.contains_iff_mem.mp hx)
      exact (h.sound w (h.frontier_mem w hw)).tail hwx
  closed := by
    intro x hx hn y hxy
    have hseen : x ∈ seen := by
      rcases Std.ExtTreeSet.mem_insertMany_list.mp hx with hx | hx
      · exact hx
      · exact absurd (List.contains_iff_mem.mp hx) hn
    rw [Std.ExtTreeSet.mem_insertMany_list]
    -- An edge out of the old frontier ends at a fresh node or at one seen before.
    by_cases hy : y ∈ seen
    · exact .inl hy
    · by_cases hf : x ∈ frontier
      · exact .inr (List.contains_iff_mem.mpr (mem_fresh.mpr ⟨⟨x, hf, hxy⟩, hy⟩))
      · exact absurd (h.closed x hseen hf y hxy) hy

/-- A search that finds nothing new is over. -/
theorem done (h : g.Searched source frontier seen) (hn : g.fresh frontier seen = []) :
    g.Searched source [] seen := by
  have hs := h.step
  rw [hn, Std.ExtTreeSet.insertMany_nil] at hs
  exact hs

theorem spread (h : g.Searched source frontier seen) {n : Nat}
    (hn : (g.unseen seen).length ≤ n) : g.Searched source [] (g.spread n frontier seen) := by
  induction n generalizing frontier seen with
  | zero =>
    -- Every node is seen already, so none can be fresh.
    apply h.done
    by_contra hne
    have := unseen_insertMany_lt hne
    omega
  | succ n ih =>
    rw [spread_succ]
    by_cases he : g.fresh frontier seen = []
    · rw [if_pos (List.isEmpty_iff.mpr he)]
      exact h.done he
    · rw [if_neg (by simpa using he)]
      apply ih h.step
      have := unseen_insertMany_lt he
      omega

theorem mem_iff (h : g.Searched source [] seen) {x : String} :
    x ∈ seen ↔ g.Reaches source x := by
  constructor
  · exact h.sound x
  · intro hx
    induction hx with
    | refl => exact h.source_mem
    | tail _ hyz ih => exact h.closed _ ih List.not_mem_nil _ hyz

end Searched

theorem mem_reach {source x : String} : x ∈ g.reach source ↔ g.Reaches source x := by
  apply Searched.mem_iff
  apply (Searched.start g source).spread
  exact List.length_filter_le _ _

end Graph

end ClassDeps
