import ClassDeps.Graph.Tarjan
import ClassDeps.Proofs.Graph.Component
import Mathlib.Data.Fintype.Card

namespace ClassDeps.Tarjan

variable {n : Nat} {adjacency : Adjacency n} {t u : Tarjan n} {gray : List (Fin n)}
  {node : Fin n}

/-- There is an edge from `a` to `b`. -/
def Edge (adjacency : Adjacency n) (a b : Fin n) : Prop :=
  b ∈ adjacency.get a

abbrev Reaches (adjacency : Adjacency n) : Fin n → Fin n → Prop :=
  Relation.ReflTransGen (Edge adjacency)

def Visited (t : Tarjan n) (v : Fin n) : Prop :=
  (t.index.get v).isSome

/-- The number of the visit to `v`. -/
def number (t : Tarjan n) (v : Fin n) : Nat :=
  (t.index.get v).getD 0

theorem visited_of_index {i : Nat} (h : t.index.get node = some i) :
    t.Visited node ∧ t.number node = i := by
  rw [Visited, number, h]
  exact ⟨rfl, rfl⟩

theorem isNone_index_iff : (t.index.get node).isNone = true ↔ ¬t.Visited node := by
  rw [Visited, ← Option.not_isSome, Bool.not_eq_true', Bool.not_eq_true]

theorem get_set {α : Type} (xs : Vector α n) (i j : Fin n) (x : α) :
    (xs.set i x i.isLt).get j = if i = j then x else xs.get j := by
  simp only [Fin.ext_iff]
  exact Vector.getElem_set ..

theorem get_replicate {α : Type} (x : α) (i : Fin n) : (Vector.replicate n x).get i = x :=
  Vector.getElem_replicate ..

theorem index_enter (t : Tarjan n) (node v : Fin n) :
    (t.enter node).index.get v = if node = v then some t.counter else t.index.get v :=
  get_set ..

theorem onStack_enter (t : Tarjan n) (node v : Fin n) :
    (t.enter node).onStack.get v = if node = v then true else t.onStack.get v :=
  get_set ..

theorem lowlink_enter (t : Tarjan n) (node v : Fin n) :
    (t.enter node).lowlink.get v = if node = v then t.counter else t.lowlink.get v :=
  get_set ..

theorem lowlink_lower (t : Tarjan n) (node v : Fin n) (bound : Nat) :
    (t.lower node bound).lowlink.get v =
      if node = v then min (t.lowlink.get node) bound else t.lowlink.get v :=
  get_set ..

theorem visited_enter {v : Fin n} : (t.enter node).Visited v ↔ node = v ∨ t.Visited v := by
  rw [Visited, Visited, index_enter]
  split <;> simp_all

/-- A state of the search while the visits to `gray` go on, of which the first is the latest. Only
edges out of these may lead to nodes that were not visited. What is on the stack is in the order of
the visits, reaches what is above it, and reaches one of `gray` that is not above it; what is not on
the stack any more has its component and leads nowhere else. -/
structure Searching (adjacency : Adjacency n) (gray : List (Fin n)) (t : Tarjan n) : Prop where
  number_lt : ∀ v, t.Visited v → t.number v < t.counter
  onStack_iff : ∀ v, t.onStack.get v = true ↔ v ∈ t.stack
  visited : ∀ v ∈ t.stack, t.Visited v
  descending : t.stack.Pairwise fun a b => t.number b < t.number a
  gray_mem : ∀ g ∈ gray, g ∈ t.stack
  seen : ∀ v, t.Visited v → v ∉ gray → ∀ w, Edge adjacency v w → t.Visited w
  upward : t.stack.Pairwise fun a b => Reaches adjacency b a
  downward : ∀ v ∈ t.stack, ∃ g ∈ gray, t.number g ≤ t.number v ∧ Reaches adjacency v g
  done : ∀ v, t.Visited v → v ∉ t.stack → ∀ w, Edge adjacency v w → w ∉ t.stack
  mem_components : ∀ v, v ∈ t.components.flatten ↔ t.Visited v ∧ v ∉ t.stack
  nodup : t.components.flatten.Nodup
  component : ∀ c ∈ t.components, ∀ a ∈ c, ∀ b,
    b ∈ c ↔ StronglyConnected (Edge adjacency) a b

theorem Searching.nodup_stack (h : Searching adjacency gray t) : t.stack.Nodup := by
  refine h.descending.imp ?_
  rintro a b hlt rfl
  exact Nat.lt_irrefl _ hlt

/-- Edges out of a node that has its component lead to such nodes only. -/
theorem Searching.done_of_edge (h : Searching adjacency gray t) {v w : Fin n}
    (hv : t.Visited v ∧ v ∉ t.stack) (hvw : Edge adjacency v w) : t.Visited w ∧ w ∉ t.stack := by
  have hgray : v ∉ gray := fun hg => hv.2 (h.gray_mem v hg)
  exact ⟨h.seen v hv.1 hgray w hvw, h.done v hv.1 hv.2 w hvw⟩

theorem Searching.start (adjacency : Adjacency n) : Searching adjacency [] (start n) := by
  have hnone : ∀ v, ¬(Tarjan.start n).Visited v := by
    intro v
    rw [Visited, Tarjan.start, get_replicate]
    exact Bool.false_ne_true
  constructor
  case number_lt => exact fun v hv => absurd hv (hnone v)
  case onStack_iff =>
    intro v
    rw [Tarjan.start, get_replicate]
    exact iff_of_false Bool.false_ne_true List.not_mem_nil
  case visited => simp [Tarjan.start]
  case descending => exact .nil
  case gray_mem => simp
  case seen => exact fun v hv => absurd hv (hnone v)
  case upward => exact .nil
  case downward => simp [Tarjan.start]
  case done => exact fun v hv => absurd hv (hnone v)
  case mem_components => exact fun v => iff_of_false List.not_mem_nil fun hv => hnone v hv.1
  case nodup => exact .nil
  case component => simp [Tarjan.start]

/-- What was known of the visited nodes stays known, and new nodes have later numbers. -/
structure Extends (t u : Tarjan n) : Prop where
  index_eq : ∀ v, t.Visited v → u.index.get v = t.index.get v
  lowlink_eq : ∀ v, t.Visited v → u.lowlink.get v = t.lowlink.get v
  later : ∀ v, ¬t.Visited v → u.Visited v → t.counter ≤ u.number v
  counter_le : t.counter ≤ u.counter

namespace Extends

theorem refl (t : Tarjan n) : Extends t t where
  index_eq _ _ := rfl
  lowlink_eq _ _ := rfl
  later _ hv hv' := absurd hv' hv
  counter_le := Nat.le_refl _

theorem visited (h : Extends t u) {v : Fin n} (hv : t.Visited v) : u.Visited v := by
  rw [Visited, h.index_eq v hv]
  exact hv

theorem number_eq (h : Extends t u) {v : Fin n} (hv : t.Visited v) : u.number v = t.number v := by
  rw [number, number, h.index_eq v hv]

theorem trans {w : Tarjan n} (h : Extends t u) (h' : Extends u w) : Extends t w where
  index_eq v hv := (h'.index_eq v (h.visited hv)).trans (h.index_eq v hv)
  lowlink_eq v hv := (h'.lowlink_eq v (h.visited hv)).trans (h.lowlink_eq v hv)
  later v hv hw := by
    by_cases hu : u.Visited v
    · rw [h'.number_eq hu]
      exact h.later v hv hu
    · exact h.counter_le.trans (h'.later v hu hw)
  counter_le := h.counter_le.trans h'.counter_le

theorem enter (t : Tarjan n) (hnode : ¬t.Visited node) : Extends t (t.enter node) where
  index_eq v hv := by
    have hne : node ≠ v := fun he => hnode (he ▸ hv)
    rw [index_enter, if_neg hne]
  lowlink_eq v hv := by
    have hne : node ≠ v := fun he => hnode (he ▸ hv)
    rw [lowlink_enter, if_neg hne]
  later v hv hu := by
    obtain rfl : node = v := (visited_enter.mp hu).resolve_right hv
    have hindex : (t.enter node).index.get node = some t.counter := by
      rw [index_enter, if_pos rfl]
    exact (visited_of_index hindex).2.ge
  counter_le := Nat.le_succ _

theorem lower (h : Extends t u) (hnode : ¬t.Visited node) (bound : Nat) :
    Extends t (u.lower node bound) where
  index_eq := h.index_eq
  lowlink_eq v hv := by
    have hne : node ≠ v := fun he => hnode (he ▸ hv)
    rw [lowlink_lower, if_neg hne]
    exact h.lowlink_eq v hv
  later := h.later
  counter_le := h.counter_le

end Extends

/-- Lowlinks have no part in the state of a search. -/
theorem Searching.lower (h : Searching adjacency gray t) (node : Fin n) (bound : Nat) :
    Searching adjacency gray (t.lower node bound) :=
  ⟨h.number_lt, h.onStack_iff, h.visited, h.descending, h.gray_mem, h.seen, h.upward, h.downward,
    h.done, h.mem_components, h.nodup, h.component⟩

theorem Searching.enter (h : Searching adjacency gray t) (hnode : ¬t.Visited node)
    (hgray : ∀ g ∈ gray, Reaches adjacency g node) :
    Searching adjacency (node :: gray) (t.enter node) := by
  have hext := Extends.enter t hnode
  have hindex : (t.enter node).index.get node = some t.counter := by
    rw [index_enter, if_pos rfl]
  obtain ⟨-, hnumber⟩ := visited_of_index hindex
  have hfresh : node ∉ t.stack := fun hmem => hnode (h.visited node hmem)
  constructor
  case number_lt =>
    intro v hv
    rcases visited_enter.mp hv with rfl | hv
    · rw [hnumber]
      exact Nat.lt_succ_self _
    · rw [hext.number_eq hv]
      exact Nat.lt_succ_of_lt (h.number_lt v hv)
  case onStack_iff =>
    intro v
    have hstack : (t.enter node).stack = node :: t.stack := rfl
    rw [onStack_enter, hstack, List.mem_cons, ← h.onStack_iff v]
    by_cases he : node = v
    · simp [he]
    · simp [he, Ne.symm he]
  case visited =>
    intro v hv
    rcases List.mem_cons.mp hv with rfl | hv
    · exact visited_enter.mpr (.inl rfl)
    · exact visited_enter.mpr (.inr (h.visited v hv))
  case descending =>
    refine List.pairwise_cons.mpr ⟨?_, h.descending.imp_of_mem ?_⟩
    · intro v hv
      rw [hnumber, hext.number_eq (h.visited v hv)]
      exact h.number_lt v (h.visited v hv)
    · intro a b ha hb hlt
      rw [hext.number_eq (h.visited a ha), hext.number_eq (h.visited b hb)]
      exact hlt
  case gray_mem =>
    intro g hg
    rcases List.mem_cons.mp hg with rfl | hg
    · exact List.mem_cons_self
    · exact List.mem_cons_of_mem _ (h.gray_mem g hg)
  case seen =>
    intro v hv hgrays w hvw
    obtain ⟨hne, hgrays⟩ := List.ne_and_not_mem_of_not_mem_cons hgrays
    have hold := (visited_enter.mp hv).resolve_left (Ne.symm hne)
    exact visited_enter.mpr (.inr (h.seen v hold hgrays w hvw))
  case upward =>
    refine List.pairwise_cons.mpr ⟨?_, h.upward⟩
    intro v hv
    obtain ⟨g, hg, -, hvg⟩ := h.downward v hv
    exact hvg.trans (hgray g hg)
  case downward =>
    intro v hv
    rcases List.mem_cons.mp hv with rfl | hv
    · exact ⟨v, List.mem_cons_self, Nat.le_refl _, .refl⟩
    · obtain ⟨g, hg, hle, hvg⟩ := h.downward v hv
      refine ⟨g, List.mem_cons_of_mem _ hg, ?_, hvg⟩
      rw [hext.number_eq (h.visited g (h.gray_mem g hg)), hext.number_eq (h.visited v hv)]
      exact hle
  case done =>
    intro v hv hout w hvw hw
    obtain ⟨hne, hoff⟩ := List.ne_and_not_mem_of_not_mem_cons hout
    have hold := (visited_enter.mp hv).resolve_left (Ne.symm hne)
    rcases List.mem_cons.mp hw with rfl | hw
    -- All edges out of a node with a component lead to visited nodes.
    · exact hnode (h.seen v hold (fun hg => hoff (h.gray_mem v hg)) w hvw)
    · exact h.done v hold hoff w hvw hw
  case mem_components =>
    intro v
    show v ∈ t.components.flatten ↔ (t.enter node).Visited v ∧ v ∉ node :: t.stack
    rw [h.mem_components v, visited_enter, List.mem_cons, not_or]
    constructor
    · rintro ⟨hv, hoff⟩
      exact ⟨.inr hv, fun he => hnode (he ▸ hv), hoff⟩
    · rintro ⟨hv, hne, hoff⟩
      exact ⟨hv.resolve_left (Ne.symm hne), hoff⟩
  case nodup => exact h.nodup
  case component => exact h.component

/-- From `node` edges lead to the node of the stack with the number `bound`. A number that none of
them has is larger than all of theirs. -/
def Leads (adjacency : Adjacency n) (node : Fin n) (t : Tarjan n) (bound : Nat) : Prop :=
  t.counter ≤ bound ∨ ∃ v ∈ t.stack, t.number v = bound ∧ Reaches adjacency node v

/-- A state of the visit to `node` that began at `t`, after the edges to `met` were followed. Since
then `above` came on the stack. Edges that were followed from `node` or lead out of `above` end at
no node of the stack with a number below the lowlink. -/
structure Visiting (adjacency : Adjacency n) (gray : List (Fin n)) (node : Fin n) (t : Tarjan n)
    (met above : List (Fin n)) (u : Tarjan n) : Prop where
  searching : Searching adjacency (node :: gray) u
  ext : Extends t u
  index_eq : u.index.get node = some t.counter
  stack_eq : u.stack = above ++ node :: t.stack
  visited_met : ∀ y ∈ met, u.Visited y
  low_le : u.lowlink.get node ≤ t.counter
  low : Leads adjacency node t (u.lowlink.get node)
  low_met : ∀ y ∈ met, y ∈ t.stack → u.lowlink.get node ≤ t.number y
  low_above : ∀ x ∈ above, ∀ y ∈ t.stack, Edge adjacency x y → u.lowlink.get node ≤ t.number y

/-- What a visit to `node` from the state `t` leads to. It leaves `above` on the stack. -/
structure Finished (adjacency : Adjacency n) (gray : List (Fin n)) (node : Fin n)
    (t : Tarjan n) (above : List (Fin n)) (u : Tarjan n) : Prop where
  searching : Searching adjacency gray u
  ext : Extends t u
  visited : u.Visited node
  stack_eq : u.stack = above ++ t.stack
  low : Leads adjacency node t (u.lowlink.get node)
  low_above : ∀ x ∈ above, ∀ y ∈ t.stack, Edge adjacency x y → u.lowlink.get node ≤ t.number y

namespace Visiting

variable {met above : List (Fin n)}

theorem start (h : Searching adjacency gray t) (hnode : ¬t.Visited node)
    (hgray : ∀ g ∈ gray, Reaches adjacency g node) :
    Visiting adjacency gray node t [] [] (t.enter node) := by
  have hlow : (t.enter node).lowlink.get node = t.counter := by rw [lowlink_enter, if_pos rfl]
  constructor
  case searching => exact h.enter hnode hgray
  case ext => exact .enter t hnode
  case index_eq => rw [index_enter, if_pos rfl]
  case stack_eq => rfl
  case visited_met => simp
  case low_le => exact hlow.le
  case low => exact .inl hlow.ge
  case low_met => simp
  case low_above => simp

theorem number_eq (h : Visiting adjacency gray node t met above u) : u.number node = t.counter :=
  (visited_of_index h.index_eq).2

theorem not_visited (ht : Searching adjacency gray t)
    (h : Visiting adjacency gray node t met above u) : ¬t.Visited node := by
  intro hv
  have hlt := ht.number_lt node hv
  rw [← h.ext.number_eq hv, h.number_eq] at hlt
  exact Nat.lt_irrefl _ hlt

theorem number_above (h : Visiting adjacency gray node t met above u) :
    ∀ x ∈ above, t.counter < u.number x := by
  intro x hx
  have hdescending := h.searching.descending
  rw [h.stack_eq, List.pairwise_append] at hdescending
  rw [← h.number_eq]
  exact hdescending.2.2 x hx node List.mem_cons_self

theorem mem_stack_iff (h : Visiting adjacency gray node t met above u) {v : Fin n} :
    v ∈ u.stack ↔ v ∈ above ++ [node] ∨ v ∈ t.stack := by
  rw [h.stack_eq, List.append_cons, List.mem_append]

theorem not_mem_of_mem (h : Visiting adjacency gray node t met above u) {v : Fin n}
    (hv : v ∈ above ++ [node]) : v ∉ t.stack := by
  have hnodup := h.searching.nodup_stack
  rw [h.stack_eq, List.append_cons, List.nodup_append] at hnodup
  exact fun hbelow => hnodup.2.2 v hv v hbelow rfl

/-- An edge to `next` was followed, by which `bound` is known and `new` came on the stack. -/
theorem lower (ht : Searching adjacency gray t)
    (h : Visiting adjacency gray node t met above u) {next : Fin n} {bound : Nat} {w : Tarjan n}
    (new : List (Fin n)) (hw : Searching adjacency (node :: gray) w) (hext : Extends u w)
    (hstack : w.stack = new ++ u.stack) (hnext : w.Visited next)
    (hlow : Leads adjacency node t bound)
    (hbound : next ∈ t.stack → bound ≤ t.number next)
    (hnew : ∀ x ∈ new, ∀ y ∈ t.stack, Edge adjacency x y → bound ≤ t.number y) :
    Visiting adjacency gray node t (next :: met) (new ++ above) (w.lower node bound) := by
  obtain ⟨hnode, -⟩ := visited_of_index h.index_eq
  have hmin : (w.lower node bound).lowlink.get node = min (u.lowlink.get node) bound := by
    rw [lowlink_lower, if_pos rfl, hext.lowlink_eq node hnode]
  have hle := h.low_le
  constructor
  case searching => exact hw.lower node bound
  case ext => exact (h.ext.trans hext).lower (not_visited ht h) bound
  case index_eq => exact (hext.index_eq node hnode).trans h.index_eq
  case stack_eq =>
    show w.stack = _
    rw [hstack, h.stack_eq, List.append_assoc]
  case visited_met =>
    exact List.forall_mem_cons.mpr ⟨hnext, fun y hy => hext.visited (h.visited_met y hy)⟩
  case low_le =>
    rw [hmin]
    exact (Nat.min_le_left _ _).trans hle
  case low =>
    rw [hmin]
    rcases Nat.le_total (u.lowlink.get node) bound with hmin | hmin
    · rw [Nat.min_eq_left hmin]
      exact h.low
    · rw [Nat.min_eq_right hmin]
      exact hlow
  case low_met =>
    rw [hmin]
    refine List.forall_mem_cons.mpr ⟨fun hmem => ?_, fun y hy hmem => ?_⟩
    · exact (Nat.min_le_right _ _).trans (hbound hmem)
    · exact (Nat.min_le_left _ _).trans (h.low_met y hy hmem)
  case low_above =>
    intro x hx y hy hxy
    rw [hmin]
    rcases List.mem_append.mp hx with hx | hx
    · exact (Nat.min_le_right _ _).trans (hnew x hx y hy hxy)
    · exact (Nat.min_le_left _ _).trans (h.low_above x hx y hy hxy)

/-- A node of the stack is below `node`, and known from before, or its number is not smaller. -/
theorem leads_of_mem (ht : Searching adjacency gray t)
    (h : Visiting adjacency gray node t met above u) {v : Fin n} (hv : v ∈ u.stack)
    (hreach : Reaches adjacency node v) : Leads adjacency node t (u.number v) := by
  rw [h.stack_eq, List.mem_append, List.mem_cons] at hv
  rcases hv with hv | rfl | hv
  · exact .inl (h.number_above v hv).le
  · exact .inl h.number_eq.ge
  · exact .inr ⟨v, hv, (h.ext.number_eq (ht.visited v hv)).symm, hreach⟩

/-- An edge to a node of the stack. -/
theorem onStack (ht : Searching adjacency gray t)
    (h : Visiting adjacency gray node t met above u) {next : Fin n}
    (hedge : Edge adjacency node next) (hnext : next ∈ u.stack) :
    Visiting adjacency gray node t (next :: met) above (u.lower node (u.number next)) := by
  refine h.lower ht [] h.searching (.refl u) rfl (h.searching.visited next hnext)
    (h.leads_of_mem ht hnext (.single hedge)) ?_ (by simp)
  intro hmem
  exact (h.ext.number_eq (ht.visited next hmem)).le

/-- An edge to a node that has its component. -/
theorem offStack (h : Visiting adjacency gray node t met above u) {next : Fin n}
    (hvisited : u.Visited next) (hnext : next ∉ u.stack) :
    Visiting adjacency gray node t (next :: met) above u where
  searching := h.searching
  ext := h.ext
  index_eq := h.index_eq
  stack_eq := h.stack_eq
  visited_met := List.forall_mem_cons.mpr ⟨hvisited, h.visited_met⟩
  low_le := h.low_le
  low := h.low
  low_met := by
    refine List.forall_mem_cons.mpr ⟨fun hmem => ?_, h.low_met⟩
    exact absurd (h.mem_stack_iff.mpr (.inr hmem)) hnext
  low_above := h.low_above

/-- An edge to a node that was not visited, after the visit to it. -/
theorem nested (ht : Searching adjacency gray t)
    (h : Visiting adjacency gray node t met above u) {next : Fin n} {w : Tarjan n}
    {new : List (Fin n)} (hedge : Edge adjacency node next) (hnext : ¬u.Visited next)
    (hw : Finished adjacency (node :: gray) next u new w) :
    Visiting adjacency gray node t (next :: met) (new ++ above)
      (w.lower node (w.lowlink.get next)) := by
  refine h.lower ht _ hw.searching hw.ext hw.stack_eq hw.visited ?_ ?_ ?_
  · rcases hw.low with hlow | ⟨v, hv, hnumber, hreach⟩
    · exact .inl (h.ext.counter_le.trans hlow)
    · rw [← hnumber]
      exact h.leads_of_mem ht hv (.head hedge hreach)
  · intro hmem
    exact absurd (h.ext.visited (ht.visited next hmem)) hnext
  · intro x hx y hy hxy
    rw [← h.ext.number_eq (ht.visited y hy)]
    exact hw.low_above x hx y (h.mem_stack_iff.mpr (.inr hy)) hxy

/-- All edges out of `node` were followed, so that the visit to it can end. -/
theorem seen (h : Visiting adjacency gray node t met above u)
    (hmet : ∀ y, Edge adjacency node y → y ∈ met) {v w : Fin n} (hv : u.Visited v)
    (hgray : v ∉ gray) (hvw : Edge adjacency v w) : u.Visited w := by
  by_cases hne : v = node
  · subst hne
    exact h.visited_met w (hmet w hvw)
  · exact h.searching.seen v hv (List.not_mem_cons_of_ne_of_not_mem hne hgray) w hvw

/-- If no edge leads below `node`, those out of it and out of what is above it on the stack end
there or at nodes that have their components. -/
theorem closed (ht : Searching adjacency gray t)
    (h : Visiting adjacency gray node t met above u)
    (hmet : ∀ y, Edge adjacency node y → y ∈ met) (hlow : t.counter ≤ u.lowlink.get node)
    {x : Fin n} (hx : x ∈ above ++ [node]) {y : Fin n} (hxy : Edge adjacency x y) :
    y ∈ above ++ [node] ∨ u.Visited y ∧ y ∉ u.stack := by
  have hvisited : u.Visited y := by
    refine h.seen hmet (h.searching.visited x (h.mem_stack_iff.mpr (.inl hx))) ?_ hxy
    exact fun hgray => h.not_mem_of_mem hx (ht.gray_mem x hgray)
  by_cases hy : y ∈ u.stack
  · left
    refine (h.mem_stack_iff.mp hy).resolve_right fun hbelow => ?_
    have hle : u.lowlink.get node ≤ t.number y := by
      rw [List.mem_append, List.mem_singleton] at hx
      rcases hx with hx | rfl
      · exact h.low_above x hx y hbelow hxy
      · exact h.low_met y (hmet y hxy) hbelow
    have hlt := ht.number_lt y (ht.visited y hbelow)
    omega
  · exact .inr ⟨hvisited, hy⟩

theorem reaches_closed (ht : Searching adjacency gray t)
    (h : Visiting adjacency gray node t met above u)
    (hmet : ∀ y, Edge adjacency node y → y ∈ met) (hlow : t.counter ≤ u.lowlink.get node)
    {x : Fin n} (hx : x ∈ above ++ [node]) {y : Fin n} (hxy : Reaches adjacency x y) :
    y ∈ above ++ [node] ∨ u.Visited y ∧ y ∉ u.stack := by
  induction hxy with
  | refl => exact .inl hx
  | @tail y z _ hyz ih =>
    rcases ih with hy | hy
    · exact h.closed ht hmet hlow hy hyz
    · exact .inr (h.searching.done_of_edge hy hyz)

/-- What is above `node` on the stack is connected with it. -/
theorem connected (ht : Searching adjacency gray t)
    (h : Visiting adjacency gray node t met above u)
    (hmet : ∀ y, Edge adjacency node y → y ∈ met) (hlow : t.counter ≤ u.lowlink.get node)
    {x : Fin n} (hx : x ∈ above ++ [node]) : StronglyConnected (Edge adjacency) node x := by
  constructor
  · rw [List.mem_append, List.mem_singleton] at hx
    rcases hx with hx | rfl
    · have hupward := h.searching.upward
      rw [h.stack_eq, List.pairwise_append] at hupward
      exact hupward.2.2 x hx node List.mem_cons_self
    · exact .refl
  · obtain ⟨g, hg, -, hxg⟩ := h.searching.downward x (h.mem_stack_iff.mpr (.inl hx))
    rcases List.mem_cons.mp hg with rfl | hg
    · exact hxg
    · -- An earlier visit that still goes on is neither above `node` nor off the stack.
      have hbelow := ht.gray_mem g hg
      rcases h.reaches_closed ht hmet hlow hx hxg with hmem | ⟨-, hoff⟩
      · exact absurd hbelow (h.not_mem_of_mem hmem)
      · exact absurd (h.mem_stack_iff.mpr (.inr hbelow)) hoff

/-- A visit from which no edge leads back has found the component of `node`. -/
theorem mem_component (ht : Searching adjacency gray t)
    (h : Visiting adjacency gray node t met above u)
    (hmet : ∀ y, Edge adjacency node y → y ∈ met) (hlow : t.counter ≤ u.lowlink.get node)
    {a : Fin n} (ha : a ∈ above ++ [node]) (b : Fin n) :
    b ∈ above ++ [node] ↔ StronglyConnected (Edge adjacency) a b := by
  constructor
  · intro hb
    exact (h.connected ht hmet hlow ha).symm.trans (h.connected ht hmet hlow hb)
  · intro hab
    refine (h.reaches_closed ht hmet hlow ha hab.1).resolve_right fun hb => ?_
    -- A node with a component reaches only such nodes, and `a` has none.
    have hdone : ∀ c, Reaches adjacency b c → u.Visited c ∧ c ∉ u.stack := by
      intro c hbc
      induction hbc with
      | refl => exact hb
      | tail _ hcd ih => exact h.searching.done_of_edge ih hcd
    exact (hdone a hab.2).2 (h.mem_stack_iff.mpr (.inl ha))

/-- A visit from which an edge leads back. -/
theorem finished_of_lt (ht : Searching adjacency gray t)
    (h : Visiting adjacency gray node t met above u)
    (hmet : ∀ y, Edge adjacency node y → y ∈ met) (hlow : u.lowlink.get node < t.counter) :
    Finished adjacency gray node t (above ++ [node]) u := by
  obtain ⟨w, hw, hnumber, hreach⟩ := h.low.resolve_left (by omega)
  constructor
  case searching =>
    refine { h.searching with
      gray_mem := fun g hg => h.searching.gray_mem g (List.mem_cons_of_mem _ hg)
      seen := fun v hv hgray w hvw => h.seen hmet hv hgray hvw
      downward := ?_ }
    intro v hv
    obtain ⟨g, hg, hle, hvg⟩ := h.searching.downward v hv
    rcases List.mem_cons.mp hg with rfl | hg
    · -- What reached `node` goes on along the edge back.
      obtain ⟨g', hg', hle', hwg'⟩ := ht.downward w hw
      refine ⟨g', hg', ?_, hvg.trans (hreach.trans hwg')⟩
      rw [h.ext.number_eq (ht.visited g' (ht.gray_mem g' hg'))]
      have hnode := h.number_eq
      omega
    · exact ⟨g, hg, hle, hvg⟩
  case ext => exact h.ext
  case visited => exact (visited_of_index h.index_eq).1
  case stack_eq => rw [h.stack_eq, List.append_cons]
  case low => exact h.low
  case low_above =>
    intro x hx y hy hxy
    rw [List.mem_append, List.mem_singleton] at hx
    rcases hx with hx | rfl
    · exact h.low_above x hx y hy hxy
    · exact h.low_met y (hmet y hxy) hy

end Visiting

theorem get_set_false (onStack : Vector Bool n) (x v : Fin n) :
    (onStack.set x false x.isLt).get v = true ↔ onStack.get v = true ∧ v ≠ x := by
  rw [get_set]
  split
  case isTrue he => simp [he]
  case isFalse he => simp [Ne.symm he]

theorem popTo_append (above rest : List (Fin n)) (onStack : Vector Bool n)
    (h : node ∉ above) : ∃ marks, popTo node (above ++ node :: rest) onStack =
      (above ++ [node], rest, marks) ∧
      ∀ v : Fin n, marks.get v = true ↔ onStack.get v = true ∧ v ∉ above ++ [node] := by
  induction above generalizing onStack with
  | nil =>
    refine ⟨onStack.set node false, ?_, ?_⟩
    · simp [popTo]
    · intro v
      rw [get_set_false, List.nil_append, List.mem_singleton]
  | cons x above ih =>
    obtain ⟨hne, hnot⟩ := List.ne_and_not_mem_of_not_mem_cons h
    obtain ⟨marks, hpop, hmarks⟩ := ih (onStack.set x false) hnot
    refine ⟨marks, ?_, ?_⟩
    · rw [List.cons_append, popTo, if_neg (Ne.symm hne), hpop]
      rfl
    · intro v
      rw [hmarks, get_set_false, List.cons_append, List.mem_cons, not_or, and_assoc]

namespace Visiting

variable {met above : List (Fin n)}

/-- The state after `node` and what is above it were taken from the stack as a component. -/
theorem searching_complete (ht : Searching adjacency gray t)
    (h : Visiting adjacency gray node t met above u)
    (hmet : ∀ y, Edge adjacency node y → y ∈ met) (hlow : t.counter ≤ u.lowlink.get node)
    {marks : Vector Bool n} (hmarks : ∀ v, marks.get v = true ↔ v ∈ t.stack) :
    Searching adjacency gray { u with
      stack := t.stack
      onStack := marks
      components := u.components ++ [above ++ [node]] } := by
  have hsub : t.stack.Sublist u.stack := by
    rw [h.stack_eq, List.append_cons]
    exact List.sublist_append_right _ _
  constructor
  case number_lt => exact h.searching.number_lt
  case onStack_iff => exact hmarks
  case visited => exact fun v hv => h.searching.visited v (hsub.subset hv)
  case descending => exact h.searching.descending.sublist hsub
  case gray_mem => exact ht.gray_mem
  case seen => exact fun v hv hgray w hvw => h.seen hmet hv hgray hvw
  case upward => exact h.searching.upward.sublist hsub
  case downward =>
    intro v hv
    obtain ⟨g, hg, hle, hvg⟩ := ht.downward v hv
    refine ⟨g, hg, ?_, hvg⟩
    show u.number g ≤ u.number v
    rw [h.ext.number_eq (ht.visited g (ht.gray_mem g hg)), h.ext.number_eq (ht.visited v hv)]
    exact hle
  case done =>
    intro v hv hoff w hvw hw
    have hstack := h.mem_stack_iff.mpr (.inr hw)
    by_cases hold : v ∈ u.stack
    · have habove := (h.mem_stack_iff.mp hold).resolve_right hoff
      rcases h.closed ht hmet hlow habove hvw with hmem | ⟨-, hnot⟩
      · exact h.not_mem_of_mem hmem hw
      · exact hnot hstack
    · exact h.searching.done v hv hold w hvw hstack
  case mem_components =>
    intro v
    show v ∈ (u.components ++ [above ++ [node]]).flatten ↔ u.Visited v ∧ v ∉ t.stack
    rw [List.flatten_append, List.mem_append, List.flatten_singleton, h.searching.mem_components,
      h.mem_stack_iff, not_or]
    constructor
    · rintro (⟨hv, -, hbelow⟩ | hv)
      · exact ⟨hv, hbelow⟩
      · exact ⟨h.searching.visited v (h.mem_stack_iff.mpr (.inl hv)), h.not_mem_of_mem hv⟩
    · rintro ⟨hv, hbelow⟩
      by_cases habove : v ∈ above ++ [node]
      · exact .inr habove
      · exact .inl ⟨hv, habove, hbelow⟩
  case nodup =>
    show (u.components ++ [above ++ [node]]).flatten.Nodup
    have hnodup := h.searching.nodup_stack
    rw [h.stack_eq, List.append_cons, List.nodup_append] at hnodup
    rw [List.flatten_append, List.flatten_singleton]
    refine h.searching.nodup.append hnodup.1 ?_
    intro v hv habove
    exact ((h.searching.mem_components v).mp hv).2 (h.mem_stack_iff.mpr (.inl habove))
  case component =>
    intro c hc a ha b
    rcases List.mem_append.mp hc with hc | hc
    · exact h.searching.component c hc a ha b
    · obtain rfl := List.mem_singleton.mp hc
      exact h.mem_component ht hmet hlow ha b

/-- A visit from which no edge leads back. -/
theorem finished_leave (ht : Searching adjacency gray t)
    (h : Visiting adjacency gray node t met above u)
    (hmet : ∀ y, Edge adjacency node y → y ∈ met) (hlow : u.lowlink.get node = t.counter) :
    Finished adjacency gray node t [] (u.leave node) := by
  have hnode : node ∉ above := by
    have hnodup := h.searching.nodup_stack
    rw [h.stack_eq, List.nodup_append] at hnodup
    exact fun hmem => hnodup.2.2 node hmem node List.mem_cons_self rfl
  obtain ⟨marks, hpop, hmarks⟩ := popTo_append above t.stack u.onStack hnode
  have hleave : u.leave node = { u with
      stack := t.stack
      onStack := marks
      components := u.components ++ [above ++ [node]] } := by
    rw [leave, if_pos (by rw [hlow, h.index_eq]), h.stack_eq, hpop]
  rw [hleave]
  constructor
  case searching =>
    refine h.searching_complete ht hmet hlow.ge fun v => ?_
    rw [hmarks, h.searching.onStack_iff, h.mem_stack_iff]
    constructor
    · rintro ⟨hv, hnot⟩
      exact hv.resolve_left hnot
    · intro hv
      exact ⟨.inr hv, fun hmem => h.not_mem_of_mem hmem hv⟩
  case ext => exact ⟨h.ext.index_eq, h.ext.lowlink_eq, h.ext.later, h.ext.counter_le⟩
  case visited => exact (visited_of_index h.index_eq).1
  case stack_eq => rfl
  case low => exact .inl hlow.ge
  case low_above => simp

theorem exists_finished (ht : Searching adjacency gray t)
    (h : Visiting adjacency gray node t met above u)
    (hmet : ∀ y, Edge adjacency node y → y ∈ met) :
    ∃ above', Finished adjacency gray node t above' (u.leave node) := by
  rcases Nat.lt_or_ge (u.lowlink.get node) t.counter with hlow | hlow
  · have hleave : u.leave node = u := by
      rw [leave, if_neg]
      rw [h.index_eq, Option.some.injEq]
      exact hlow.ne
    rw [hleave]
    exact ⟨_, h.finished_of_lt ht hmet hlow⟩
  · exact ⟨[], h.finished_leave ht hmet (Nat.le_antisymm h.low_le hlow)⟩

end Visiting

/-- The number of nodes that were not visited. -/
def unvisited (t : Tarjan n) : Nat :=
  (Finset.univ.filter fun v : Fin n => (t.index.get v).isNone).card

theorem Extends.unvisited_lt (h : Extends t u) (hnode : ¬t.Visited node) (hu : u.Visited node) :
    u.unvisited < t.unvisited := by
  apply Finset.card_lt_card
  rw [Finset.ssubset_iff_of_subset]
  · refine ⟨node, ?_, ?_⟩
    · simpa only [Finset.mem_filter_univ, isNone_index_iff] using hnode
    · simpa only [Finset.mem_filter_univ, isNone_index_iff, not_not] using hu
  · intro v hv
    simp only [Finset.mem_filter_univ, isNone_index_iff] at hv ⊢
    exact fun hvisited => hv (h.visited hvisited)

/-- Follows the edge from `node` to `next`. -/
def follow (adjacency : Adjacency n) (depth : Nat) (node : Fin n) (t : Tarjan n) (next : Fin n) :
    Tarjan n :=
  match t.index.get next with
  | none =>
    (visit adjacency depth next t).lower node ((visit adjacency depth next t).lowlink.get next)
  | some i => if t.onStack.get next then t.lower node i else t

theorem visit_succ (adjacency : Adjacency n) (depth : Nat) (node : Fin n) (t : Tarjan n) :
    visit adjacency (depth + 1) node t =
      ((adjacency.get node).foldl (follow adjacency depth node) (t.enter node)).leave node :=
  rfl

namespace Visiting

variable {depth : Nat} {met above : List (Fin n)}

theorem follow (ht : Searching adjacency gray t) (h : Visiting adjacency gray node t met above u)
    {next : Fin n} (hedge : Edge adjacency node next)
    (hvisit : ¬u.Visited next → ∃ new,
      Finished adjacency (node :: gray) next u new (visit adjacency depth next u)) :
    ∃ above', Visiting adjacency gray node t (next :: met) above'
      (Tarjan.follow adjacency depth node u next) := by
  unfold Tarjan.follow
  cases hindex : u.index.get next with
  | none =>
    have hnext : ¬u.Visited next := by
      rw [Visited, hindex]
      exact Bool.false_ne_true
    obtain ⟨new, hfinished⟩ := hvisit hnext
    exact ⟨_, h.nested ht hedge hnext hfinished⟩
  | some i =>
    obtain ⟨hvisited, rfl⟩ := visited_of_index hindex
    dsimp only
    by_cases hstack : u.onStack.get next = true
    · rw [if_pos hstack]
      exact ⟨_, h.onStack ht hedge ((h.searching.onStack_iff next).mp hstack)⟩
    · rw [if_neg hstack]
      exact ⟨_, h.offStack hvisited (mt (h.searching.onStack_iff next).mpr hstack)⟩

/-- Each edge is followed from the state that the edges before it led to. -/
theorem foldl (ht : Searching adjacency gray t)
    (h : Visiting adjacency gray node t met above u) (depth : Nat) {rest : List (Fin n)}
    (hrest : ∀ y ∈ rest, Edge adjacency node y)
    (hvisit : ∀ met above u next, Visiting adjacency gray node t met above u →
      Edge adjacency node next → ¬u.Visited next → ∃ new,
        Finished adjacency (node :: gray) next u new (visit adjacency depth next u)) :
    ∃ above', Visiting adjacency gray node t (rest.reverse ++ met) above'
      (rest.foldl (Tarjan.follow adjacency depth node) u) := by
  induction rest generalizing met above u with
  | nil => exact ⟨above, h⟩
  | cons next rest ih =>
    obtain ⟨hedge, hrest⟩ := List.forall_mem_cons.mp hrest
    obtain ⟨above', h'⟩ := h.follow ht hedge (hvisit met above u next h hedge)
    rw [List.reverse_cons, List.append_assoc]
    exact ih h' hrest

end Visiting

/-- Visits that may be nested as deeply as there are nodes left end with all that they should
find. -/
theorem exists_finished_visit {depth : Nat} (ht : Searching adjacency gray t)
    (hnode : ¬t.Visited node) (hgray : ∀ g ∈ gray, Reaches adjacency g node)
    (hdepth : t.unvisited ≤ depth) :
    ∃ above, Finished adjacency gray node t above (visit adjacency depth node t) := by
  induction depth generalizing gray node t with
  | zero =>
    have hlt := (Extends.enter t hnode).unvisited_lt hnode (visited_enter.mpr (.inl rfl))
    omega
  | succ depth ih =>
    have hedges : ∀ y ∈ adjacency.get node, Edge adjacency node y := fun _ hy => hy
    obtain ⟨above, h⟩ := (Visiting.start ht hnode hgray).foldl ht depth hedges
      fun met above u next h hedge hnext => by
        apply ih h.searching hnext
        · intro g hg
          rcases List.mem_cons.mp hg with rfl | hg
          · exact .single hedge
          · exact (hgray g hg).tail hedge
        · -- At least `node` was visited since the visit to it began.
          have hlt := h.ext.unvisited_lt hnode (visited_of_index h.index_eq).1
          omega
    rw [visit_succ]
    refine h.exists_finished ht fun y hy => ?_
    rw [List.append_nil, List.mem_reverse]
    exact hy

/-- Starts from `node`, unless it was visited. -/
def resume (adjacency : Adjacency n) (t : Tarjan n) (node : Fin n) : Tarjan n :=
  if (t.index.get node).isNone then visit adjacency n node t else t

theorem search_eq (adjacency : Adjacency n) :
    search adjacency = (List.finRange n).foldl (resume adjacency) (start n) :=
  rfl

theorem Searching.resume (h : Searching adjacency [] t) (node : Fin n) :
    Searching adjacency [] (resume adjacency t node) ∧
      Extends t (Tarjan.resume adjacency t node) ∧
      (Tarjan.resume adjacency t node).Visited node := by
  unfold Tarjan.resume
  by_cases hnode : t.Visited node
  · rw [if_neg (mt isNone_index_iff.mp (not_not.mpr hnode))]
    exact ⟨h, .refl t, hnode⟩
  · rw [if_pos (isNone_index_iff.mpr hnode)]
    have hdepth : t.unvisited ≤ n := (Finset.card_filter_le _ _).trans (Finset.card_fin n).le
    obtain ⟨above, h'⟩ := exists_finished_visit h hnode (by simp) hdepth
    exact ⟨h'.searching, h'.ext, h'.visited⟩

theorem Searching.foldl_resume (h : Searching adjacency [] t) (nodes : List (Fin n)) :
    Searching adjacency [] (nodes.foldl (Tarjan.resume adjacency) t) ∧
      Extends t (nodes.foldl (Tarjan.resume adjacency) t) ∧
      ∀ v ∈ nodes, (nodes.foldl (Tarjan.resume adjacency) t).Visited v := by
  induction nodes generalizing t with
  | nil => exact ⟨h, .refl t, by simp⟩
  | cons node nodes ih =>
    obtain ⟨h', hext, hnode⟩ := h.resume node
    obtain ⟨h'', hext', hall⟩ := ih h'
    exact ⟨h'', hext.trans hext', List.forall_mem_cons.mpr ⟨hext'.visited hnode, hall⟩⟩

/-- The search ends with every node in exactly one component, and two nodes are in one component
exactly if each reaches the other. -/
theorem search_components (adjacency : Adjacency n) :
    (∀ v, v ∈ (search adjacency).components.flatten) ∧
      (search adjacency).components.flatten.Nodup ∧
      ∀ c ∈ (search adjacency).components, ∀ a ∈ c, ∀ b,
        b ∈ c ↔ StronglyConnected (Edge adjacency) a b := by
  obtain ⟨h, -, hall⟩ := (Searching.start adjacency).foldl_resume (List.finRange n)
  rw [← search_eq] at h hall
  refine ⟨fun v => (h.mem_components v).mpr ⟨hall v (List.mem_finRange v), ?_⟩, h.nodup,
    h.component⟩
  intro hv
  -- No visit goes on, so that nothing can be on the stack.
  obtain ⟨g, hg, -⟩ := h.downward v hv
  cases hg

end ClassDeps.Tarjan
