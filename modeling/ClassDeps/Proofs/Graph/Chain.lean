import Mathlib.Data.List.TakeWhile
import ClassDeps.Proofs.Graph.Numbering
import ClassDeps.Proofs.Graph.Hops

namespace ClassDeps

/-- The hops of a walk from `a` to `b` along edges. Each starts where the one before it ends. -/
inductive Walk (edge : String → String → Prop) : String → String → List Hop → Prop
  | nil (a : String) : Walk edge a a []
  | cons {a b c : String} {e : ClassEdge} {rest : List Hop} :
    edge a b → Walk edge b c rest → Walk edge a c (⟨a, b, e⟩ :: rest)

/-- The edges whose ends are both among `members`. -/
def Among (members : List String) (edge : String → String → Prop) (a b : String) : Prop :=
  a ∈ members ∧ b ∈ members ∧ edge a b

/-- A shortest closed walk from `start`. It comes back there, and meets no other node twice. -/
structure ShortestReturn (edge : String → String → Prop) (start : String) (walk : List Hop) :
    Prop where
  ne_nil : walk ≠ []
  closed : Walk edge start start walk
  sources_nodup : (walk.map (·.source)).Nodup
  length_le : ∀ other, other ≠ [] → Walk edge start start other → walk.length ≤ other.length

/-- The nodes of a walk from `start`, the latest first. None is met twice. -/
inductive Trail (edge : String → String → Prop) (start : String) : List String → Prop
  | start : Trail edge start [start]
  | step {a b : String} {before : List String} :
    Trail edge start (a :: before) → edge a b → b ∉ a :: before →
    Trail edge start (b :: a :: before)

namespace Walk

variable {edge : String → String → Prop} {a b c : String} {u v : List Hop}

theorem append_iff : Walk edge a c (u ++ v) ↔ ∃ b, Walk edge a b u ∧ Walk edge b c v := by
  induction u generalizing a with
  | nil =>
    constructor
    · intro h
      exact ⟨a, .nil a, h⟩
    · rintro ⟨_, ⟨⟩, h⟩
      exact h
  | cons x u ih =>
    constructor
    · rintro (_ | ⟨hx, h⟩)
      obtain ⟨b, hu, hv⟩ := ih.mp h
      exact ⟨b, .cons hx hu, hv⟩
    · rintro ⟨b, _ | ⟨hx, hu⟩, hv⟩
      exact .cons hx (ih.mpr ⟨b, hu, hv⟩)

theorem concat (h : Walk edge a b u) (hbc : edge b c) (e : ClassEdge) :
    Walk edge a c (u ++ [⟨b, c, e⟩]) :=
  append_iff.mpr ⟨b, h, .cons hbc (.nil c)⟩

/-- A walk that is not empty comes to its end from somewhere. -/
theorem exists_last (h : Walk edge a c u) (hne : u ≠ []) :
    ∃ b v, Walk edge a b v ∧ edge b c ∧ u.length = v.length + 1 := by
  obtain rfl | ⟨v, x, rfl⟩ := u.eq_nil_or_concat
  · exact absurd rfl hne
  · rw [List.concat_eq_append] at h ⊢
    obtain ⟨b, hv, _ | ⟨hbc, ⟨⟩⟩⟩ := append_iff.mp h
    exact ⟨b, v, hv, hbc, List.length_append⟩

end Walk

namespace Graph

variable {g : Graph} {members : List String} {start : String}

theorem Edge.exists_edge? {a b : String} (h : g.Edge a b) : ∃ e, g.edge? a b = some e :=
  Option.isSome_iff_exists.mp (edge_iff_isSome_edge?.mp h)

theorem hops_cons_cons (g : Graph) (a b : String) (rest : List String) :
    g.hops (a :: b :: rest) =
      ((g.edge? a b).map fun e => (⟨a, b, e⟩ : Hop)).toList ++ g.hops (b :: rest) := by
  cases he : g.edge? a b with
  | none => simp [hops, he]
  | some e => simp [hops, he]

theorem hops_concat {a b : String} {e : ClassEdge} (he : g.edge? a b = some e)
    (nodes : List String) : g.hops (nodes ++ [a, b]) = g.hops (nodes ++ [a]) ++ [⟨a, b, e⟩] := by
  induction nodes with
  | nil => simp [hops, he]
  | cons x nodes ih =>
    match nodes with
    | [] =>
      have hone : g.hops [a, b] = [⟨a, b, e⟩] := ih
      rw [List.singleton_append, hops_cons_cons, hone, List.singleton_append, hops_cons_cons]
      simp [hops]
    | y :: nodes =>
      simp only [List.cons_append, hops_cons_cons] at ih ⊢
      rw [ih, List.append_assoc]

theorem edge?_of_mem_hops {nodes : List String} {h : Hop} (hh : h ∈ g.hops nodes) :
    g.edge? h.source h.target = some h.edge := by
  obtain ⟨step, -, he⟩ := List.mem_filterMap.mp hh
  obtain ⟨e, hkept, rfl⟩ := Option.map_eq_some_iff.mp he
  exact hkept

/-- A trail and one more edge make a walk, of which no hop is dropped. -/
theorem walk_hops {edge : String → String → Prop} (hedge : ∀ a b, edge a b → g.Edge a b)
    {nodes : List String} (h : Trail edge start nodes) {a b : String}
    (ha : nodes.head? = some a) (hab : edge a b) :
    Walk edge start b (g.hops (nodes.reverse ++ [b])) ∧
      (g.hops (nodes.reverse ++ [b])).map (·.source) = nodes.reverse := by
  induction h generalizing a b with
  | start =>
    cases ha
    obtain ⟨e, he⟩ := (hedge _ _ hab).exists_edge?
    have hhops : g.hops [start, b] = [⟨start, b, e⟩] := by simp [hops, he]
    rw [List.reverse_singleton, List.singleton_append, hhops]
    exact ⟨.cons hab (.nil _), rfl⟩
  | @step x y before _ hxy _ ih =>
    cases ha
    obtain ⟨e, he⟩ := (hedge _ _ hab).exists_edge?
    obtain ⟨hwalk, hsources⟩ := ih rfl hxy
    have hhops := hops_concat he (x :: before).reverse
    rw [List.reverse_cons (a := y), List.append_assoc, List.singleton_append, hhops]
    refine ⟨hwalk.concat hab e, ?_⟩
    rw [List.map_append, hsources]
    rfl

theorem mem_of_trail {edge : String → String → Prop} (hstart : start ∈ members) {a : String}
    {before : List String} (h : Trail (Among members edge) start (a :: before)) : a ∈ members := by
  cases h with
  | start => exact hstart
  | step _ hedge _ => exact hedge.2.1

theorem nodup_of_trail {edge : String → String → Prop} {nodes : List String}
    (h : Trail edge start nodes) : nodes.Nodup := by
  induction h with
  | start => exact List.nodup_singleton start
  | step _ _ hnew ih => exact List.nodup_cons.mpr ⟨hnew, ih⟩

/-- The search with the walks themselves in the queue. A walk is its last node and the nodes before
it, latest first; the result is the first walk whose last node has an edge to `start`. -/
def findReturn (g : Graph) (members : Std.ExtTreeSet String) (start : String) :
    Nat → List (String × List String) → Std.ExtTreeSet String → Option (List String)
  | 0, _, _ => none
  | _ + 1, [], _ => none
  | n + 1, (node, before) :: queue, seen =>
    let next := g.successors node
    if next.contains start then some (node :: before)
    else
      let fresh := next.filter fun m => members.contains m && !seen.contains m
      g.findReturn members start n (queue ++ fresh.map fun m => (m, node :: before))
        (seen.insertMany fresh)

/-- A node that the search has met: the first one or one of those it has seen since. -/
def Met (start : String) (seen : Std.ExtTreeSet String) (x : String) : Prop :=
  x = start ∨ x ∈ seen

/-- The members that are met for the first time from `node`. -/
def discoveries (g : Graph) (members : List String) (seen : Std.ExtTreeSet String)
    (node : String) : List String :=
  (g.successors node).filter fun m =>
    (Std.ExtTreeSet.ofList members).contains m && !seen.contains m

theorem mem_discoveries {seen : Std.ExtTreeSet String} {x y : String} :
    y ∈ g.discoveries members seen x ↔ g.Edge x y ∧ y ∈ members ∧ y ∉ seen := by
  simp only [discoveries, Edge, List.mem_filter, Bool.and_eq_true, Bool.not_eq_true',
    ← Bool.not_eq_true, Std.ExtTreeSet.contains_iff_mem, Std.ExtTreeSet.mem_ofList,
    List.contains_iff_mem]

theorem met_insertMany {seen : Std.ExtTreeSet String} {found : List String} {x : String} :
    Met start (seen.insertMany found) x ↔ Met start seen x ∨ x ∈ found := by
  rw [Met, Met, Std.ExtTreeSet.mem_insertMany_list, List.contains_iff_mem, or_assoc]

/-- A state of the search. The walks of the queue have `d` hops in `level` and one more in `next`.
Every member at a distance of at most `d` has been met, and the walks of the queue are shortest
ones. A node that was met and is not in the queue any more has no edge back to the first one, and
its other edges have been followed. -/
structure Returning (g : Graph) (members : List String) (start : String) (d : Nat)
    (level next : List (String × List String)) (seen : Std.ExtTreeSet String) : Prop where
  start_mem : start ∈ members
  level_length : ∀ e ∈ level, e.2.length = d
  next_length : ∀ e ∈ next, e.2.length = d + 1
  trail : ∀ e ∈ level ++ next, Trail (Among members g.Edge) start (e.1 :: e.2)
  met : ∀ e ∈ level ++ next, ∀ x ∈ e.1 :: e.2, Met start seen x
  near : ∀ x walk, Walk (Among members g.Edge) start x walk → walk.length ≤ d → Met start seen x
  shortest : ∀ e ∈ level ++ next, ∀ walk, Walk (Among members g.Edge) start e.1 walk →
    e.2.length ≤ walk.length
  left : ∀ x, Met start seen x → (∀ e ∈ level ++ next, e.1 ≠ x) →
    ¬g.Edge x start ∧ ∀ y ∈ members, g.Edge x y → Met start seen y

namespace Returning

variable {d : Nat} {level next : List (String × List String)} {seen : Std.ExtTreeSet String}

theorem initial (g : Graph) (hstart : start ∈ members) :
    g.Returning members start 0 [(start, [])] [] ∅ where
  start_mem := hstart
  level_length := by simp
  next_length := by simp
  trail := by
    intro e he
    cases List.mem_singleton.mp he
    exact .start
  met := by
    intro e he x hx
    cases List.mem_singleton.mp he
    exact .inl (List.mem_singleton.mp hx)
  near := by
    intro x walk hwalk hlength
    cases hwalk with
    | nil => exact .inl rfl
    | cons => simp at hlength
  shortest := by
    intro e he walk _
    cases List.mem_singleton.mp he
    exact Nat.zero_le _
  left := by
    rintro x (rfl | hx) hqueue
    · exact absurd rfl (hqueue _ (List.mem_singleton_self _))
    · exact absurd hx Std.ExtTreeSet.not_mem_empty

/-- When a level is done, the walks of the next one are those of the queue. -/
theorem advance (h : g.Returning members start d [] next seen) :
    g.Returning members start (d + 1) next [] seen where
  start_mem := h.start_mem
  level_length := h.next_length
  next_length := by simp
  trail := by simpa using h.trail
  met := by simpa using h.met
  near := by
    intro x walk hwalk hlength
    by_cases hnil : walk = []
    · subst hnil
      cases hwalk
      exact .inl rfl
    · obtain ⟨y, before, hbefore, hyx, hbl⟩ := hwalk.exists_last hnil
      -- The node before the last one is too near to be in the queue still.
      have hqueue : ∀ e ∈ [] ++ next, e.1 ≠ y := by
        rintro e he rfl
        have hdepth := h.next_length e he
        have hshort := h.shortest e he before hbefore
        omega
      have hy := h.near y before hbefore (by omega)
      exact (h.left y hy hqueue).2 x hyx.2.1 hyx.2.2
  shortest := by simpa using h.shortest
  left := by simpa using h.left

theorem step {x : String} {before : List String}
    (h : g.Returning members start d ((x, before) :: level) next seen)
    (hx : ¬g.Edge x start) :
    g.Returning members start d level
      (next ++ (g.discoveries members seen x).map fun m => (m, x :: before))
      (seen.insertMany (g.discoveries members seen x)) := by
  have hmem : ∀ e ∈ level ++ (next ++ (g.discoveries members seen x).map fun m => (m, x :: before)),
      e ∈ (x, before) :: level ++ next ∨
        ∃ m ∈ g.discoveries members seen x, e = (m, x :: before) := by
    intro e he
    rw [← List.append_assoc, List.mem_append, List.mem_map] at he
    rcases he with he | ⟨m, hm, rfl⟩
    · exact .inl (List.mem_cons_of_mem _ he)
    · exact .inr ⟨m, hm, rfl⟩
  have hhead : (x, before) ∈ (x, before) :: level ++ next := List.mem_cons_self
  -- A discovery is not the first node and was not seen, so it was not met.
  have hnew : ∀ m ∈ g.discoveries members seen x, ¬Met start seen m := by
    rintro m hm (rfl | hseen)
    · exact hx (mem_discoveries.mp hm).1
    · exact (mem_discoveries.mp hm).2.2 hseen
  have hlength : before.length = d := h.level_length _ List.mem_cons_self
  constructor
  case start_mem => exact h.start_mem
  case level_length =>
    intro e he
    exact h.level_length e (List.mem_cons_of_mem _ he)
  case next_length =>
    intro e he
    rw [List.mem_append, List.mem_map] at he
    rcases he with he | ⟨m, -, rfl⟩
    · exact h.next_length e he
    · rw [List.length_cons, hlength]
  case trail =>
    intro e he
    rcases hmem e he with he | ⟨m, hm, rfl⟩
    · exact h.trail e he
    · have htrail := h.trail _ hhead
      obtain ⟨hxm, hmember, -⟩ := mem_discoveries.mp hm
      refine .step htrail ⟨mem_of_trail h.start_mem htrail, hmember, hxm⟩ ?_
      intro hold
      exact hnew m hm (h.met _ hhead m hold)
  case met =>
    intro e he y hy
    rw [met_insertMany]
    rcases hmem e he with he | ⟨m, hm, rfl⟩
    · exact .inl (h.met e he y hy)
    · rcases List.mem_cons.mp hy with rfl | hy
      · exact .inr hm
      · exact .inl (h.met _ hhead y hy)
  case near =>
    intro y walk hwalk hle
    exact met_insertMany.mpr (.inl (h.near y walk hwalk hle))
  case shortest =>
    intro e he walk hwalk
    rcases hmem e he with he | ⟨m, hm, rfl⟩
    · exact h.shortest e he walk hwalk
    · by_contra hlt
      rw [List.length_cons, hlength] at hlt
      exact hnew m hm (h.near m walk hwalk (by omega))
  case left =>
    intro y hy hqueue
    rcases met_insertMany.mp hy with hy | hy
    · by_cases hyx : y = x
      · subst hyx
        refine ⟨hx, ?_⟩
        intro z hz hyz
        rw [met_insertMany]
        by_cases hseen : z ∈ seen
        · exact .inl (.inr hseen)
        · exact .inr (mem_discoveries.mpr ⟨hyz, hz, hseen⟩)
      · have hold : ∀ e ∈ (x, before) :: level ++ next, e.1 ≠ y := by
          intro e he
          rcases List.mem_cons.mp he with rfl | he
          · exact Ne.symm hyx
          · apply hqueue e
            rw [← List.append_assoc]
            exact List.mem_append_left _ he
        obtain ⟨hback, hothers⟩ := h.left y hy hold
        exact ⟨hback, fun z hz hyz => met_insertMany.mpr (.inl (hothers z hz hyz))⟩
    · refine absurd rfl (hqueue (y, x :: before) ?_)
      simp [hy]

/-- A walk back that goes on from the front of the queue is a shortest one. -/
theorem length_le {x : String} {before : List String}
    (h : g.Returning members start d ((x, before) :: level) next seen) {walk : List Hop}
    (hwalk : Walk (Among members g.Edge) start start walk) (hne : walk ≠ []) :
    (x :: before).length ≤ walk.length := by
  obtain ⟨y, rest, hrest, hback, hlength⟩ := hwalk.exists_last hne
  by_contra hlt
  rw [List.length_cons, h.level_length (x, before) List.mem_cons_self] at hlt
  -- The last node is nearer than the queue, so it was left for having no edge back.
  have hqueue : ∀ e ∈ (x, before) :: level ++ next, e.1 ≠ y := by
    rintro e he rfl
    have hshort := h.shortest e he rest hrest
    rcases List.mem_append.mp he with he | he
    · have hdepth := h.level_length e he
      omega
    · have hdepth := h.next_length e he
      omega
  exact (h.left y (h.near y rest hrest (by omega)) hqueue).1 hback.2.2

/-- The search does not end without a way back. -/
theorem queue_ne_nil (h : g.Returning members start d level next seen)
    (hcomponent : IsComponent (fun _ => True) g.Edge members) : level ++ next ≠ [] := by
  intro hnil
  have hleft : ∀ x, Met start seen x →
      ¬g.Edge x start ∧ ∀ y ∈ members, g.Edge x y → Met start seen y := by
    intro x hx
    apply h.left x hx
    rw [hnil]
    simp
  have hmember : ∀ {x}, g.Reaches start x → g.Reaches x start → x ∈ members := by
    intro x hto hback
    exact (hcomponent.mem_iff start h.start_mem x).mpr ⟨trivial, hto, hback⟩
  have hmet : ∀ {x}, g.Reaches start x → g.Reaches x start → Met start seen x := by
    intro x hto
    induction hto with
    | refl => exact fun _ => .inl rfl
    | @tail y z hy hyz ih =>
      intro hback
      exact (hleft y (ih (hback.head hyz))).2 z (hmember (hy.tail hyz) hback) hyz
  obtain ⟨b, hb, hne⟩ := hcomponent.exists_ne start
  obtain ⟨hto, hfrom⟩ := hcomponent.connected h.start_mem hb
  rcases hfrom.cases_tail with he | ⟨z, hbz, hzs⟩
  · exact hne he
  · exact (hleft z (hmet (hto.trans hbz) (.single hzs))).1 hzs

/-- There is a walk to go on from, if need be on the next level. -/
theorem exists_turn (h : g.Returning members start d level next seen)
    (hne : level ++ next ≠ []) :
    ∃ d' e level' next', level ++ next = e :: level' ++ next' ∧
      g.Returning members start d' (e :: level') next' seen := by
  match level, next, h with
  | e :: level, next, h => exact ⟨d, e, level, next, rfl, h⟩
  | [], e :: next, h => exact ⟨d + 1, e, next, [], by simp, h.advance⟩
  | [], [], _ => exact absurd rfl hne

end Returning

theorem nodup_successors (g : Graph) (x : String) : (g.successors x).Nodup := by
  rw [successors]
  cases g.edges[x]? with
  | none => exact List.nodup_nil
  | some targets => exact Std.ExtTreeMap.nodup_keys

theorem nodup_discoveries (seen : Std.ExtTreeSet String) (x : String) :
    (g.discoveries members seen x).Nodup :=
  (g.nodup_successors x).filter _

/-- The members that the search has not met. -/
def unmet (members : List String) (start : String) (seen : Std.ExtTreeSet String) : List String :=
  members.filter fun m => m ≠ start && !seen.contains m

theorem mem_unmet {seen : Std.ExtTreeSet String} {x : String} :
    x ∈ unmet members start seen ↔ x ∈ members ∧ ¬Met start seen x := by
  simp only [unmet, Met, List.mem_filter, Bool.and_eq_true, decide_eq_true_eq, Bool.not_eq_true',
    ← Bool.not_eq_true, Std.ExtTreeSet.contains_iff_mem, not_or, Ne]

/-- Every discovery is met once. -/
theorem length_unmet_insertMany (members : List String) (seen : Std.ExtTreeSet String)
    {x : String} (hx : ¬g.Edge x start) :
    (unmet members start (seen.insertMany (g.discoveries members seen x))).length +
      (g.discoveries members seen x).length ≤ (unmet members start seen).length := by
  have hrest : unmet members start (seen.insertMany (g.discoveries members seen x)) =
      (unmet members start seen).filter (!(g.discoveries members seen x).contains ·) := by
    rw [unmet, unmet, List.filter_filter]
    apply List.filter_congr
    intro m _
    rw [Std.ExtTreeSet.contains_insertMany_list, Bool.not_or, ← Bool.and_assoc, Bool.and_comm]
  have hfound : g.discoveries members seen x ⊆
      (unmet members start seen).filter ((g.discoveries members seen x).contains ·) := by
    intro m hm
    obtain ⟨hxm, hmember, hseen⟩ := mem_discoveries.mp hm
    rw [List.mem_filter, mem_unmet]
    refine ⟨⟨hmember, ?_⟩, List.contains_iff_mem.mpr hm⟩
    rintro (rfl | hmet)
    · exact hx hxm
    · exact hseen hmet
  have hle := (List.subperm_of_subset (nodup_discoveries seen x) hfound).length_le
  have hsplit := List.length_eq_length_filter_add (l := unmet members start seen)
    ((g.discoveries members seen x).contains ·)
  rw [hrest]
  omega

theorem findReturn_succ (members : List String) (start : String) (n : Nat) (x : String)
    (before : List String) (queue : List (String × List String)) (seen : Std.ExtTreeSet String) :
    g.findReturn (.ofList members) start (n + 1) ((x, before) :: queue) seen =
      if (g.successors x).contains start then some (x :: before)
      else g.findReturn (.ofList members) start n
        (queue ++ (g.discoveries members seen x).map fun m => (m, x :: before))
        (seen.insertMany (g.discoveries members seen x)) :=
  rfl

theorem Returning.exists_findReturn {d n : Nat} {level next : List (String × List String)}
    {seen : Std.ExtTreeSet String} (h : g.Returning members start d level next seen)
    (hcomponent : IsComponent (fun _ => True) g.Edge members)
    (hn : (unmet members start seen).length + (level ++ next).length ≤ n) :
    ∃ x before,
      g.findReturn (.ofList members) start n (level ++ next) seen = some (x :: before) ∧
      Trail (Among members g.Edge) start (x :: before) ∧ g.Edge x start ∧
      ∀ walk, walk ≠ [] → Walk (Among members g.Edge) start start walk →
        (x :: before).length ≤ walk.length := by
  induction n generalizing d level next seen with
  | zero =>
    have hlength : (level ++ next).length = 0 := by omega
    exact absurd (List.length_eq_zero_iff.mp hlength) (h.queue_ne_nil hcomponent)
  | succ n ih =>
    obtain ⟨d', ⟨x, before⟩, level', next', hqueue, hturn⟩ :=
      h.exists_turn (h.queue_ne_nil hcomponent)
    rw [hqueue, List.cons_append, findReturn_succ]
    by_cases hx : g.Edge x start
    · rw [if_pos (List.contains_iff_mem.mpr hx)]
      exact ⟨x, before, rfl, hturn.trail _ List.mem_cons_self, hx,
        fun _ hne hwalk => hturn.length_le hwalk hne⟩
    · rw [if_neg (mt List.contains_iff_mem.mp hx), List.append_assoc]
      apply ih (hturn.step hx)
      have hturns := length_unmet_insertMany members seen hx
      rw [hqueue] at hn
      simp only [List.length_append, List.length_cons, List.length_map] at hn ⊢
      omega

/-- From `x` the entries lead back to `start` through `before`, the latest first. -/
inductive Traced (previous : Std.ExtTreeMap String String) (start : String) :
    String → List String → Prop
  | start : Traced previous start start []
  | step {x y : String} {before : List String} : x ≠ start → previous[x]? = some y →
    Traced previous start y before → Traced previous start x (y :: before)

theorem Traced.mono {previous previous' : Std.ExtTreeMap String String} {x : String}
    {before : List String} (hmono : ∀ x y : String, previous[x]? = some y → previous'[x]? = some y)
    (h : Traced previous start x before) : Traced previous' start x before := by
  induction h with
  | start => exact .start
  | step hne hx _ ih => exact .step hne (hmono _ _ hx) ih

theorem Traced.backtrack?_eq {previous : Std.ExtTreeMap String String} {x : String}
    {before : List String} (h : Traced previous start x before) {n : Nat}
    (hn : before.length ≤ n) : backtrack? previous start n x = some before := by
  induction h generalizing n with
  | start => cases n <;> simp [backtrack?]
  | @step x y before hne hx _ ih =>
    match n, hn with
    | n + 1, hn =>
      rw [backtrack?, if_neg hne, hx]
      show (backtrack? previous start n y).bind _ = _
      rw [ih (Nat.le_of_succ_le_succ hn)]
      rfl

/-- What a trace becomes when the members `fresh` are met from `node`. -/
structure Followed (node : String) (fresh : List String) (t t' : Trace) : Prop where
  queue : t'.queue = t.queue ++ fresh
  kept : ∀ x y : String, t.previous[x]? = some y → t'.previous[x]? = some y
  entered : ∀ x ∈ fresh, t'.previous[x]? = some node
  mem : ∀ x, x ∈ t'.previous ↔ x ∈ t.previous ∨ x ∈ fresh

namespace Followed

variable {node : String} {fresh : List String} {t t' : Trace}

protected theorem refl (node : String) (t : Trace) : Followed node [] t t :=
  ⟨by simp, fun _ _ h => h, by simp, by simp⟩

theorem of_insert {m : String} (hm : m ∉ t.previous)
    (h : Followed node fresh ⟨t.previous.insert m node, t.queue ++ [m]⟩ t') :
    Followed node (m :: fresh) t t' := by
  have hm' : t'.previous[m]? = some node := h.kept m node Std.ExtTreeMap.getElem?_insert_self
  constructor
  case queue => simp [h.queue]
  case kept =>
    intro x y hx
    apply h.kept
    rw [Std.ExtTreeMap.getElem?_insert, if_neg]
    · exact hx
    · intro heq
      have heq : m = x := Std.LawfulEqCmp.eq_of_compare heq
      rw [heq, Std.ExtTreeMap.mem_iff_isSome_getElem?, hx] at hm
      exact hm rfl
  case entered =>
    intro x hx
    obtain rfl | hx := List.mem_cons.mp hx
    · exact hm'
    · exact h.entered x hx
  case mem =>
    intro x
    rw [h.mem, Std.ExtTreeMap.mem_insert, Std.LawfulEqCmp.compare_eq_iff_eq, List.mem_cons]
    grind

end Followed

theorem follow_fst (members : Std.ExtTreeSet String) (node : String) (next : List String)
    (t : Trace) : (Trace.follow members start node next t).1 = next.contains start := by
  induction next generalizing t with
  | nil => rfl
  | cons m next ih =>
    rw [Trace.follow, List.contains_cons]
    by_cases hm : m = start
    · simp [hm]
    · have hne : (start == m) = false := beq_false_of_ne (Ne.symm hm)
      rw [if_neg hm, hne, Bool.false_or]
      split
      · exact ih _
      · exact ih t

/-- The edges out of `node` are followed up to the first that leads back. -/
theorem followed_follow {members : Std.ExtTreeSet String} (node : String) {next : List String}
    (hnext : next.Nodup) (t : Trace) :
    Followed node ((next.takeWhile (· ≠ start)).filter fun m =>
        members.contains m && !t.previous.contains m) t
      (Trace.follow members start node next t).2 := by
  induction next generalizing t with
  | nil => exact .refl node t
  | cons m next ih =>
    rw [List.nodup_cons] at hnext
    rw [Trace.follow]
    by_cases hm : m = start
    · rw [if_pos hm, List.takeWhile_cons_of_neg (by simp [hm])]
      exact .refl node t
    · rw [if_neg hm, List.takeWhile_cons_of_pos (by simp [hm])]
      split
      next hmet =>
        rw [List.filter_cons, if_pos hmet]
        have hrest := ih hnext.2 ⟨t.previous.insert m node, t.queue ++ [m]⟩
        -- the node just met does not stand again among those that follow
        have hfresh : (next.takeWhile (· ≠ start)).filter (fun x => members.contains x &&
            !(t.previous.insert m node).contains x) =
            (next.takeWhile (· ≠ start)).filter fun x =>
              members.contains x && !t.previous.contains x := by
          apply List.filter_congr
          intro x hx
          have hne : (compare m x == .eq) = false := beq_false_of_ne fun heq =>
            hnext.1 (Std.LawfulEqCmp.eq_of_compare heq ▸ (List.takeWhile_sublist _).subset hx)
          rw [Std.ExtTreeMap.contains_insert, hne, Bool.false_or]
        rw [hfresh] at hrest
        apply hrest.of_insert
        rw [Bool.and_eq_true, Bool.not_eq_true', ← Bool.not_eq_true] at hmet
        exact hmet.2
      next hmet =>
        rw [List.filter_cons, if_neg hmet]
        exact ih hnext.2 t

/-- The trace has the last nodes of the walks in its queue, and the entries for them lead back
along the walks. None is longer than the turns there were. -/
structure Mirrors (start : String) (turns : Nat) (walks : List (String × List String))
    (seen : Std.ExtTreeSet String) (t : Trace) : Prop where
  queue : t.queue = walks.map Prod.fst
  mem : ∀ x, x ∈ t.previous ↔ x ∈ seen
  traced : ∀ w ∈ walks, Traced t.previous start w.1 w.2
  length_le : ∀ w ∈ walks, w.2.length ≤ turns

/-- A turn that does not come back. -/
theorem Mirrors.step {turns : Nat} {node : String} {trail : List String}
    {walks : List (String × List String)} {seen : Std.ExtTreeSet String} {t t' : Trace}
    (h : Mirrors start turns ((node, trail) :: walks) seen t) (hnode : ¬g.Edge node start)
    (ht : Followed node (g.discoveries members seen node) ⟨t.previous, walks.map Prod.fst⟩ t') :
    Mirrors start (turns + 1)
      (walks ++ (g.discoveries members seen node).map fun m => (m, node :: trail))
      (seen.insertMany (g.discoveries members seen node)) t' := by
  constructor
  case queue => simp [ht.queue, Function.comp_def]
  case mem =>
    intro x
    rw [ht.mem, Std.ExtTreeSet.mem_insertMany_list, h.mem, List.contains_iff_mem]
  case traced =>
    intro w hw
    obtain hw | hw := List.mem_append.mp hw
    · exact (h.traced w (List.mem_cons_of_mem _ hw)).mono ht.kept
    · obtain ⟨m, hm, rfl⟩ := List.mem_map.mp hw
      refine .step ?_ (ht.entered m hm) ((h.traced _ List.mem_cons_self).mono ht.kept)
      rintro rfl
      exact hnode (mem_discoveries.mp hm).1
  case length_le =>
    intro w hw
    obtain hw | hw := List.mem_append.mp hw
    · exact Nat.le_succ_of_le (h.length_le w (List.mem_cons_of_mem _ hw))
    · obtain ⟨m, hm, rfl⟩ := List.mem_map.mp hw
      exact Nat.succ_le_succ (h.length_le (node, trail) List.mem_cons_self)

/-- Where the walks come back, the trace does, from the same node. -/
theorem Mirrors.closing?_eq {turns n : Nat} {walks : List (String × List String)}
    {seen : Std.ExtTreeSet String} {t : Trace} (h : Mirrors start turns walks seen t)
    {x : String} {before : List String}
    (hfound : g.findReturn (.ofList members) start n walks seen = some (x :: before)) :
    ∃ previous, g.closing? (.ofList members) start n t = some (x, previous) ∧
      Traced previous start x before ∧ before.length ≤ turns + n := by
  induction n generalizing turns walks seen t with
  | zero => cases hfound
  | succ n ih =>
    match walks, h with
    | [], _ => cases hfound
    | (node, trail) :: walks, h =>
      have hfresh : (g.successors node).filter (fun m =>
          (Std.ExtTreeSet.ofList members).contains m && !t.previous.contains m) =
          g.discoveries members seen node := by
        have hmem : ∀ m, t.previous.contains m = seen.contains m := fun m =>
          Bool.eq_iff_iff.mpr (h.mem m)
        simp only [hmem, discoveries]
      have hfollowed := @followed_follow start (.ofList members) node _
        (g.nodup_successors node) ⟨t.previous, walks.map Prod.fst⟩
      have hback := @follow_fst start (.ofList members) node (g.successors node)
        ⟨t.previous, walks.map Prod.fst⟩
      rw [findReturn_succ] at hfound
      simp only [closing?, h.queue, List.map_cons]
      revert hfollowed hback
      generalize Trace.follow (.ofList members) start node (g.successors node) _ = turn
      obtain ⟨back, t'⟩ := turn
      rintro hfollowed rfl
      by_cases hnode : g.Edge node start
      · rw [if_pos (List.contains_iff_mem.mpr hnode)] at hfound
        obtain ⟨rfl, rfl⟩ := List.cons.inj (Option.some.inj hfound)
        rw [List.contains_iff_mem.mpr hnode]
        have hlength : trail.length ≤ turns := h.length_le _ List.mem_cons_self
        exact ⟨_, rfl, (h.traced _ List.mem_cons_self).mono hfollowed.kept, by omega⟩
      · have hcontains : (g.successors node).contains start = false :=
          Bool.eq_false_iff.mpr (mt List.contains_iff_mem.mp hnode)
        have hall : (g.successors node).takeWhile (· ≠ start) = g.successors node :=
          List.takeWhile_eq_self_iff.mpr fun m hm =>
            decide_eq_true fun (heq : m = start) => hnode (heq ▸ hm)
        rw [hcontains, if_neg Bool.false_ne_true] at hfound
        rw [hall, hfresh] at hfollowed
        rw [hcontains]
        obtain ⟨previous, hclosing, htraced, hle⟩ := ih (h.step hnode hfollowed) hfound
        exact ⟨previous, hclosing, htraced, by omega⟩

theorem chain_eq {others before : List String} {x : String}
    (hfound : g.findReturn (.ofList (start :: others)) start (start :: others).length
      [(start, [])] ∅ = some (x :: before)) :
    g.chain (start :: others) = g.hops ((x :: before).reverse ++ [start]) := by
  have hinitial : Mirrors start 0 [(start, [])] ∅ ⟨∅, [start]⟩ := by
    constructor
    case queue => rfl
    case mem => simp
    case traced =>
      intro w hw
      rw [List.mem_singleton.mp hw]
      exact .start
    case length_le =>
      intro w hw
      rw [List.mem_singleton.mp hw]
      exact Nat.le_refl 0
  obtain ⟨previous, hclosing, htraced, hlength⟩ := hinitial.closing?_eq hfound
  rw [Nat.zero_add] at hlength
  simp only [chain, hclosing, htraced.backtrack?_eq hlength, List.reverse_cons]

/-- Every step of a chain is an edge, with the class edge that is kept for it. -/
theorem edge?_of_mem_chain {h : Hop} (hh : h ∈ g.chain members) :
    g.edge? h.source h.target = some h.edge := by
  simp only [chain] at hh
  repeat' split at hh
  · cases hh
  · cases hh
  · cases hh
  · exact edge?_of_mem_hops hh

theorem shortestReturn_chain {others : List String}
    (hcomponent : IsComponent (fun _ => True) g.Edge (start :: others)) :
    ShortestReturn (Among (start :: others) g.Edge) start (g.chain (start :: others)) := by
  have hinitial := Returning.initial g (List.mem_cons_self (a := start) (l := others))
  have hturns : (unmet (start :: others) start ∅).length + 1 ≤ (start :: others).length := by
    have hstart : unmet (start :: others) start ∅ = unmet others start ∅ :=
      List.filter_cons_of_neg (by simp)
    rw [hstart]
    exact Nat.succ_le_succ (List.length_filter_le _ _)
  obtain ⟨x, before, hfound, htrail, hx, hshortest⟩ :=
    hinitial.exists_findReturn hcomponent hturns
  rw [List.append_nil] at hfound
  have hback : Among (start :: others) g.Edge x start :=
    ⟨mem_of_trail List.mem_cons_self htrail, List.mem_cons_self, hx⟩
  obtain ⟨hwalk, hsources⟩ := walk_hops (fun _ _ h => h.2.2) htrail rfl hback
  have hlength : (g.hops ((x :: before).reverse ++ [start])).length = (x :: before).length := by
    rw [← List.length_map (f := Hop.source), hsources, List.length_reverse]
  rw [chain_eq hfound]
  constructor
  case ne_nil =>
    rw [← List.length_pos_iff, hlength]
    exact Nat.succ_pos _
  case closed => exact hwalk
  case sources_nodup =>
    rw [hsources]
    exact List.nodup_reverse.mpr (nodup_of_trail htrail)
  case length_le =>
    intro other hne hother
    rw [hlength]
    exact hshortest other hne hother

/-- Some hop goes from `a` to `b`, and they are different nodes. -/
def Joined (hops : List Hop) (a b : String) : Prop :=
  a ≠ b ∧ ∃ e, ⟨a, b, e⟩ ∈ hops

theorem edge_ofHops_eq (hops : List Hop) : (ofHops hops).Edge = Joined hops := by
  funext a b
  rw [edge_ofHops, Joined, eq_iff_iff]
  refine and_congr_right fun _ => ?_
  constructor
  · rintro ⟨h, hh, rfl, rfl⟩
    exact ⟨h.edge, hh⟩
  · rintro ⟨e, he⟩
    exact ⟨_, he, rfl, rfl⟩

/-- Whatever edges are added, and in whatever order, the chain of a cycle is a shortest closed walk
from the smallest member inside its component, and each hop has the smallest class edge that was
added for its nodes. -/
theorem cycles_chain_shortest {hops : List Hop} {c : Cycle} (hc : c ∈ (ofHops hops).cycles) :
    IsComponent (fun _ => True) (Joined hops) c.members ∧
    ∃ start others, c.members = start :: others ∧ (∀ m ∈ others, start < m) ∧
      ShortestReturn (Among c.members (Joined hops)) start c.chain ∧
      ∀ h ∈ c.chain, Smallest hops h.source h.target h.edge := by
  rw [cycles_eq] at hc
  obtain ⟨members, hmembers, rfl⟩ := List.mem_map.mp hc
  have hcomponent : IsComponent (fun _ => True) (ofHops hops).Edge members :=
    (mem_components.mp hmembers).of_nodes (fun _ _ h => h.mem_nodes.1) fun _ _ _ => trivial
  match members, hcomponent with
  | start :: others, hcomponent =>
    have hascending := hcomponent.ascending
    have hshortest := shortestReturn_chain hcomponent
    rw [edge_ofHops_eq] at hcomponent hshortest
    refine ⟨hcomponent, start, others, rfl, (List.pairwise_cons.mp hascending).1, hshortest, ?_⟩
    intro h (hh : h ∈ (ofHops hops).chain (start :: others))
    exact (edge?_ofHops_eq_some_iff.mp (edge?_of_mem_chain hh)).2
  | [], hcomponent => exact absurd hcomponent.two_le (by simp)

/-- A ring of three nodes, with a node beside it. Two of its nodes also use each other, and between
the first two the smaller class edge comes last. -/
def ringHops : List Hop :=
  [⟨"a", "b", ⟨"a.Z", "b.B"⟩⟩, ⟨"c", "a", ⟨"c.C", "a.A"⟩⟩, ⟨"b", "c", ⟨"b.B", "c.C"⟩⟩,
    ⟨"c", "b", ⟨"c.C", "b.B"⟩⟩, ⟨"b", "d", ⟨"b.B", "d.D"⟩⟩, ⟨"a", "a", ⟨"a.A", "a.B"⟩⟩,
    ⟨"a", "b", ⟨"a.A", "b.C"⟩⟩, ⟨"a", "b", ⟨"a.A", "b.B"⟩⟩]

def ringChain : List Hop :=
  [⟨"a", "b", ⟨"a.A", "b.B"⟩⟩, ⟨"b", "c", ⟨"b.B", "c.C"⟩⟩, ⟨"c", "a", ⟨"c.C", "a.A"⟩⟩]

theorem cycles_chain_shortest_ring :
    IsComponent (fun _ => True) (Joined ringHops) ["a", "b", "c"] ∧
    ∃ start others, ["a", "b", "c"] = start :: others ∧ (∀ m ∈ others, start < m) ∧
      ShortestReturn (Among ["a", "b", "c"] (Joined ringHops)) start ringChain ∧
      ∀ h ∈ ringChain, Smallest ringHops h.source h.target h.edge :=
  cycles_chain_shortest (c := ⟨["a", "b", "c"], ringChain⟩) (by
    rw [cycles_eq]
    decide)

end Graph

end ClassDeps
