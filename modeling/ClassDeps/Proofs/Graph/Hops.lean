import ClassDeps.Proofs.Graph.Reach
import Mathlib.Data.List.Induction

namespace ClassDeps

namespace ClassEdge

theorem key_min (a b : ClassEdge) : (a.min b).key = Min.min a.key b.key := by
  rw [ClassEdge.min]
  by_cases h : b.lt a
  · rw [if_pos h, min_eq_right (lt_iff_key_lt.mp h).le]
  · rw [if_neg h, min_eq_left]
    rw [lt_iff_key_lt, not_lt] at h
    exact h

theorem min_eq_or (a b : ClassEdge) : a.min b = a ∨ a.min b = b := by
  rw [ClassEdge.min]
  split_ifs
  · exact .inr rfl
  · exact .inl rfl

end ClassEdge

namespace Graph

variable {hops hops' : List Hop} {a b : String} {e : ClassEdge}

/-- The smallest class edge among the hops from `a` to `b`. -/
def Smallest (hops : List Hop) (a b : String) (e : ClassEdge) : Prop :=
  ⟨a, b, e⟩ ∈ hops ∧ ∀ f, ⟨a, b, f⟩ ∈ hops → e.key ≤ f.key

theorem Smallest.unique {e' : ClassEdge} (h : Smallest hops a b e) (h' : Smallest hops a b e') :
    e = e' :=
  ClassEdge.key_injective (le_antisymm (h.2 e' h'.1) (h'.2 e h.1))

theorem smallest_singleton (h : Hop) : Smallest [h] h.source h.target h.edge := by
  refine ⟨List.mem_singleton_self h, ?_⟩
  intro f hf
  rw [← List.mem_singleton.mp hf]

/-- One more hop between the same nodes. -/
theorem Smallest.concat (h : Smallest hops a b e) (f : ClassEdge) :
    Smallest (hops ++ [⟨a, b, f⟩]) a b (e.min f) := by
  have hkey := ClassEdge.key_min e f
  constructor
  · rw [List.mem_append, List.mem_singleton]
    rcases ClassEdge.min_eq_or e f with hmin | hmin
    · rw [hmin]
      exact .inl h.1
    · rw [hmin]
      exact .inr rfl
  · intro g hg
    rw [hkey]
    rcases List.mem_append.mp hg with hg | hg
    · exact (min_le_left _ _).trans (h.2 g hg)
    · cases List.mem_singleton.mp hg
      exact min_le_right _ _

/-- A hop elsewhere changes nothing. -/
theorem smallest_concat_of_ne {h : Hop} (hne : ¬(h.source = a ∧ h.target = b)) :
    Smallest (hops ++ [h]) a b e ↔ Smallest hops a b e := by
  have hmem : ∀ f, ⟨a, b, f⟩ ∈ hops ++ [h] ↔ ⟨a, b, f⟩ ∈ hops := by
    intro f
    rw [List.mem_append, List.mem_singleton, or_iff_left]
    rintro rfl
    exact hne ⟨rfl, rfl⟩
  simp only [Smallest, hmem]

theorem ofHops_concat (hops : List Hop) (h : Hop) :
    ofHops (hops ++ [h]) = (ofHops hops).addEdge h.source h.target h.edge := by
  rw [ofHops, List.foldl_append]
  rfl

/-- The class edge that is kept between two nodes is the smallest one. -/
theorem edge?_ofHops_eq_some_iff :
    (ofHops hops).edge? a b = some e ↔ a ≠ b ∧ Smallest hops a b e := by
  induction hops using List.reverseRecOn generalizing e with
  | nil => simp [ofHops, edge?_empty, Smallest]
  | append_singleton hops h ih =>
    rw [ofHops_concat, edge?_addEdge]
    by_cases hat : h.source = a ∧ h.target = b
    · obtain ⟨rfl, rfl⟩ := hat
      by_cases hne : h.source = h.target
      · have hnone : (ofHops hops).edge? h.source h.target ≠ some e := by
          intro he
          exact (ih.mp he).1 hne
        rw [if_neg fun hc => hc.1 hne]
        exact iff_of_false hnone fun hs => hs.1 hne
      · rw [if_pos ⟨hne, rfl, rfl⟩, Option.some_inj]
        -- What was kept before is compared with the new class edge.
        have hnew : Smallest (hops ++ [h]) h.source h.target
            ((((ofHops hops).edge? h.source h.target).map (·.min h.edge)).getD h.edge) := by
          cases hkept : (ofHops hops).edge? h.source h.target with
          | some f => exact (ih.mp hkept).2.concat h.edge
          | none =>
            have hnone : ∀ f, ⟨h.source, h.target, f⟩ ∉ hops := by
              intro f hf
              have hedge : (ofHops hops).Edge h.source h.target :=
                edge_ofHops.mpr ⟨hne, _, hf, rfl, rfl⟩
              rw [edge_iff_isSome_edge?, hkept] at hedge
              exact Bool.false_ne_true hedge
            refine ⟨by simp, ?_⟩
            intro f hf
            rcases List.mem_append.mp hf with hf | hf
            · exact absurd hf (hnone f)
            · exact (smallest_singleton h).2 f hf
        constructor
        · rintro rfl
          exact ⟨hne, hnew⟩
        · rintro ⟨-, he⟩
          exact hnew.unique he
    · rw [if_neg fun hc => hat hc.2, ih, smallest_concat_of_ne hat]

/-- Every node with an entry has an edge. -/
def Full (g : Graph) : Prop :=
  ∀ a targets, g.edges[a]? = some targets → ∃ b, g.Edge a b

theorem full_empty : empty.Full := by
  intro a targets h
  simp [empty] at h

theorem Full.addEdge {g : Graph} (hg : g.Full) (source target : String) (e : ClassEdge) :
    (g.addEdge source target e).Full := by
  intro a targets ha
  by_cases hst : source = target
  · rw [Graph.addEdge, if_pos hst] at ha ⊢
    exact hg a targets ha
  · by_cases hs : source = a
    · exact ⟨target, edge_addEdge.mpr (.inr ⟨hst, hs, rfl⟩)⟩
    · have hold : g.edges[a]? = some targets := by
        rw [Graph.addEdge, if_neg hst] at ha
        simpa [Std.ExtTreeMap.getElem?_alter, hs] using ha
      obtain ⟨b, hb⟩ := hg a targets hold
      exact ⟨b, edge_addEdge.mpr (.inl hb)⟩

theorem full_ofHops (hops : List Hop) : (ofHops hops).Full := by
  induction hops using List.reverseRecOn with
  | nil => exact full_empty
  | append_singleton hops h ih =>
    rw [ofHops_concat]
    exact ih.addEdge h.source h.target h.edge

theorem Full.eq_of_edge? {g g' : Graph} (hg : g.Full) (hg' : g'.Full)
    (h : ∀ a b, g.edge? a b = g'.edge? a b) : g = g' := by
  -- An entry on one side has an edge, and so there is an entry on the other side.
  have hentry : ∀ {x y : Graph}, x.Full → (∀ a b, x.edge? a b = y.edge? a b) →
      ∀ {a : String} {targets}, x.edges[a]? = some targets → y.edges[a]? ≠ none := by
    intro x y hx hxy a targets ha hnone
    obtain ⟨b, hb⟩ := hx a targets ha
    rw [edge_iff_isSome_edge?, hxy, edge?, hnone] at hb
    exact Bool.false_ne_true hb
  have hedges : g.edges = g'.edges := by
    apply Std.ExtTreeMap.ext_getElem?
    intro a
    cases ha : g.edges[a]? with
    | none =>
      cases ha' : g'.edges[a]? with
      | none => rfl
      | some targets' => exact absurd ha (hentry hg' (fun a b => (h a b).symm) ha')
    | some targets =>
      cases ha' : g'.edges[a]? with
      | none => exact absurd ha' (hentry hg h ha)
      | some targets' =>
        rw [Option.some_inj]
        apply Std.ExtTreeMap.ext_getElem?
        intro b
        have hab := h a b
        rw [edge?, edge?, ha, ha'] at hab
        exact hab
  cases g
  cases g'
  exact congrArg Graph.mk hedges

/-- The order of the hops and their repetitions do not matter. -/
theorem ofHops_congr (h : ∀ x, x ∈ hops ↔ x ∈ hops') : ofHops hops = ofHops hops' := by
  apply (full_ofHops hops).eq_of_edge? (full_ofHops hops')
  intro a b
  apply Option.ext
  intro e
  simp only [edge?_ofHops_eq_some_iff, Smallest, h]

end Graph

end ClassDeps
