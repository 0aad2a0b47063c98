import ClassDeps.Proofs.Graph.Reach
import Mathlib.Data.List.Sort
import Mathlib.Order.Antisymmetrization

namespace ClassDeps

/-- Each of two nodes reaches the other. -/
def StronglyConnected {α : Type} (edge : α → α → Prop) : α → α → Prop :=
  AntisymmRel (Relation.ReflTransGen edge)

/-- A strongly connected component of two nodes or more, in ascending order. -/
structure IsComponent (node : String → Prop) (edge : String → String → Prop)
    (members : List String) : Prop where
  ascending : members.Pairwise (· < ·)
  two_le : 2 ≤ members.length
  mem_iff : ∀ a ∈ members, ∀ b, b ∈ members ↔ node b ∧ StronglyConnected edge a b

namespace StronglyConnected

variable {α : Type} {edge : α → α → Prop} {a b c : α}

theorem symm (h : StronglyConnected edge a b) : StronglyConnected edge b a :=
  AntisymmRel.symm h

theorem trans (hab : StronglyConnected edge a b) (hbc : StronglyConnected edge b c) :
    StronglyConnected edge a c :=
  AntisymmRel.trans hab hbc

/-- A node that is connected with another one has an edge. -/
theorem exists_edge (h : StronglyConnected edge a b) (hne : a ≠ b) : ∃ c, edge a c := by
  rcases h.1.cases_head with he | ⟨c, hac, -⟩
  · exact absurd he hne
  · exact ⟨c, hac⟩

end StronglyConnected

namespace IsComponent

variable {node node' : String → Prop} {edge : String → String → Prop}
  {members members' : List String}

theorem exists_ne (h : IsComponent node edge members) (a : String) : ∃ b ∈ members, a ≠ b := by
  match members, h.ascending, h.two_le with
  | b :: c :: rest, hasc, _ =>
    have hbc : b < c := List.rel_of_pairwise_cons hasc List.mem_cons_self
    by_cases hb : a = b
    · exact ⟨c, by simp, by rw [hb]; exact hbc.ne⟩
    · exact ⟨b, by simp, hb⟩

theorem connected (h : IsComponent node edge members) {a b : String} (ha : a ∈ members)
    (hb : b ∈ members) : StronglyConnected edge a b :=
  ((h.mem_iff a ha b).mp hb).2

/-- Components with a common node are equal. -/
theorem eq_of_mem (h : IsComponent node edge members) (h' : IsComponent node edge members')
    {a : String} (ha : a ∈ members) (ha' : a ∈ members') : members = members' := by
  apply h.ascending.eq_of_mem_iff h'.ascending
  intro b
  rw [h.mem_iff a ha, h'.mem_iff a ha']

/-- Nodes without edges are in no component, so they do not matter. -/
theorem of_nodes (hnode : ∀ a b, edge a b → node a) (hnode' : ∀ a b, edge a b → node' a)
    (h : IsComponent node edge members) : IsComponent node' edge members := by
  refine ⟨h.ascending, h.two_le, ?_⟩
  intro a ha b
  constructor
  · intro hb
    -- A second member is reached from `b`, by an edge out of `b`.
    obtain ⟨c, hc, hne⟩ := h.exists_ne b
    obtain ⟨d, hbd⟩ := (h.connected hb hc).exists_edge hne
    exact ⟨hnode' b d hbd, h.connected ha hb⟩
  · rintro ⟨-, hab⟩
    by_cases he : b = a
    · rw [he]
      exact ha
    · obtain ⟨d, hbd⟩ := hab.symm.exists_edge he
      exact (h.mem_iff a ha b).mpr ⟨hnode b d hbd, hab⟩

end IsComponent

namespace Graph

variable {g : Graph}

/-- The nodes connected with `n`. -/
def component (g : Graph) (n : String) : List String :=
  g.nodes.filter fun m => (g.reach n).contains m && (g.reach m).contains n

/-- The component of which `n` is the smallest node, if it has two nodes or more. -/
def component? (g : Graph) (n : String) : Option (List String) :=
  if (g.component n).head? = some n && 1 < (g.component n).length then some (g.component n)
  else none

/-- The components of two nodes or more, in the order of their smallest members. -/
def components (g : Graph) : List (List String) :=
  g.nodes.filterMap g.component?

theorem component?_eq_some_iff {n : String} {members : List String} :
    g.component? n = some members ↔
      g.component n = members ∧ members.head? = some n ∧ 2 ≤ members.length := by
  rw [component?]
  constructor
  · intro h
    split at h
    case isTrue hc =>
      cases h
      simp only [Bool.and_eq_true, decide_eq_true_eq] at hc
      exact ⟨rfl, hc⟩
    case isFalse => cases h
  · rintro ⟨rfl, hc⟩
    apply if_pos
    simp only [Bool.and_eq_true, decide_eq_true_eq]
    exact hc

theorem component_ascending (g : Graph) (n : String) : (g.component n).Pairwise (· < ·) :=
  g.nodes_ascending.filter _

theorem mem_component {n m : String} :
    m ∈ g.component n ↔ m ∈ g.nodes ∧ StronglyConnected g.Edge n m := by
  rw [component, List.mem_filter, Bool.and_eq_true, Std.ExtTreeSet.contains_iff_mem,
    Std.ExtTreeSet.contains_iff_mem, mem_reach, mem_reach]
  rfl

theorem isComponent_component {n : String} (h : 2 ≤ (g.component n).length) :
    IsComponent (· ∈ g.nodes) g.Edge (g.component n) := by
  refine ⟨g.component_ascending n, h, ?_⟩
  intro a ha b
  have hna := (mem_component.mp ha).2
  rw [mem_component]
  exact and_congr_right fun _ => ⟨hna.symm.trans, hna.trans⟩

theorem mem_components {members : List String} :
    members ∈ g.components ↔ IsComponent (· ∈ g.nodes) g.Edge members := by
  rw [components, List.mem_filterMap]
  simp only [component?_eq_some_iff]
  constructor
  · rintro ⟨n, -, rfl, -, htwo⟩
    exact isComponent_component htwo
  · intro h
    match members, h with
    | n :: rest, h =>
      have hn : n ∈ n :: rest := List.mem_cons_self
      refine ⟨n, ((h.mem_iff n hn n).mp hn).1, ?_, rfl, h.two_le⟩
      apply (g.component_ascending n).eq_of_mem_iff h.ascending
      intro b
      rw [mem_component, h.mem_iff n hn b]

/-- Two nodes that reach each other are in one component. -/
theorem exists_mem_components {a b : String} (h : StronglyConnected g.Edge a b) (hne : a ≠ b) :
    ∃ members ∈ g.components, a ∈ members ∧ b ∈ members := by
  obtain ⟨c, hac⟩ := h.exists_edge hne
  obtain ⟨d, hbd⟩ := h.symm.exists_edge hne.symm
  have ha : a ∈ g.component a := mem_component.mpr ⟨hac.mem_nodes.1, .refl, .refl⟩
  have hb : b ∈ g.component a := mem_component.mpr ⟨hbd.mem_nodes.1, h⟩
  have htwo : 2 ≤ (g.component a).length := by
    match g.component a, ha, hb with
    | [x], ha, hb =>
      rw [List.mem_singleton] at ha hb
      exact absurd (ha.trans hb.symm) hne
    | _ :: _ :: _, _, _ => simp
  exact ⟨g.component a, mem_components.mpr (isComponent_component htwo), ha, hb⟩

theorem components_ascending (g : Graph) : g.components.Pairwise (· < ·) := by
  rw [components, List.pairwise_filterMap]
  apply g.nodes_ascending.imp
  intro n n' hlt members h members' h'
  obtain ⟨-, hhead, -⟩ := component?_eq_some_iff.mp h
  obtain ⟨-, hhead', -⟩ := component?_eq_some_iff.mp h'
  obtain ⟨rest, rfl⟩ := List.head?_eq_some_iff.mp hhead
  obtain ⟨rest', rfl⟩ := List.head?_eq_some_iff.mp hhead'
  exact List.cons_lt_cons_iff.mpr (.inl hlt)

theorem components_disjoint (g : Graph) : g.components.Pairwise List.Disjoint := by
  apply g.components_ascending.imp_of_mem
  intro members members' h h' hlt a ha ha'
  have he := (mem_components.mp h).eq_of_mem (mem_components.mp h') ha ha'
  exact hlt.ne he

end Graph

end ClassDeps
