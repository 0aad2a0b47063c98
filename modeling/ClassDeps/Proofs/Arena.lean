import ClassDeps.Model.Arena
import Mathlib.Data.String.Basic

namespace ClassDeps.Arena

variable {α : Type}

@[simp] theorem get?_empty (i : Nat) : (empty : Arena α).get? i = none := by
  simp [empty, get?]

@[simp] theorem find?_empty (name : String) : (empty : Arena α).find? name = none := by
  simp [empty, find?]

theorem get?_add (a : Arena α) (name : String) (item : α) (i : Nat) :
    (a.add name item).get? i = if i = a.size then some item else a.get? i := by
  rw [add, get?, Array.getElem?_push]
  rfl

theorem find?_add (a : Arena α) (name : String) (item : α) (other : String) :
    (a.add name item).find? other = if other = name then some a.size else a.find? other := by
  rw [add, find?, Std.ExtTreeMap.getElem?_insert]
  by_cases hn : other = name
  · simp [hn, size]
  · simp [hn, Ne.symm hn, find?]

@[simp] theorem size_add (a : Arena α) (name : String) (item : α) :
    (a.add name item).size = a.size + 1 := by
  simp [add, size]

theorem get?_modify (a : Arena α) (i : Nat) (f : α → α) (j : Nat) :
    (a.modify i f).get? j = if j = i then (a.get? j).map f else a.get? j := by
  simp only [modify, get?, Array.getElem?_modify, eq_comm]

@[simp] theorem find?_modify (a : Arena α) (i : Nat) (f : α → α) (name : String) :
    (a.modify i f).find? name = a.find? name := rfl

@[simp] theorem size_modify (a : Arena α) (i : Nat) (f : α → α) :
    (a.modify i f).size = a.size := by
  simp [modify, size]

theorem get?_eq_none_iff {a : Arena α} {i : Nat} : a.get? i = none ↔ a.size ≤ i := by
  simp [get?, size]

theorem lt_size_of_get? {a : Arena α} {i : Nat} {item : α} (h : a.get? i = some item) :
    i < a.size := by
  by_contra hi
  rw [get?_eq_none_iff.mpr (Nat.le_of_not_lt hi)] at h
  cases h

theorem exists_get?_of_lt_size {a : Arena α} {i : Nat} (h : i < a.size) :
    ∃ item, a.get? i = some item := by
  apply Option.ne_none_iff_exists'.mp
  rw [Ne, get?_eq_none_iff]
  exact Nat.not_le_of_lt h

theorem mem_items_iff {a : Arena α} {item : α} :
    item ∈ a.items.toList ↔ ∃ i, a.get? i = some item := by
  simp only [List.mem_iff_getElem?, get?, Array.getElem?_toList]

theorem exists_mem_items_iff {a : Arena α} {p : α → Prop} :
    (∃ item ∈ a.items.toList, p item) ↔ ∃ i item, a.get? i = some item ∧ p item := by
  simp only [mem_items_iff, ← exists_and_right]
  exact exists_comm

/-- The index finds exactly the items, each by its own name. -/
def Indexed (nameOf : α → String) (a : Arena α) : Prop :=
  ∀ name i, a.find? name = some i ↔ ∃ item, a.get? i = some item ∧ nameOf item = name

namespace Indexed

variable {nameOf : α → String} {a : Arena α}

theorem empty : (Arena.empty : Arena α).Indexed nameOf := by
  intro name i
  simp

theorem find?_eq (h : a.Indexed nameOf) {i : Nat} {item : α} (hi : a.get? i = some item) :
    a.find? (nameOf item) = some i :=
  (h _ i).mpr ⟨item, hi, rfl⟩

theorem get?_of_find? (h : a.Indexed nameOf) {name : String} {i : Nat}
    (hf : a.find? name = some i) : ∃ item, a.get? i = some item ∧ nameOf item = name :=
  (h name i).mp hf

theorem eq_of_nameOf_eq (h : a.Indexed nameOf) {i j : Nat} {x y : α} (hx : a.get? i = some x)
    (hy : a.get? j = some y) (hn : nameOf x = nameOf y) : i = j := by
  have hi := h.find?_eq hx
  rw [hn, h.find?_eq hy] at hi
  exact (Option.some_inj.mp hi).symm

theorem add (h : a.Indexed nameOf) {item : α} (hf : a.find? (nameOf item) = none) :
    (a.add (nameOf item) item).Indexed nameOf := by
  intro name i
  rw [find?_add, get?_add]
  by_cases hi : i = a.size
  · subst hi
    -- The new number is none of the old ones.
    have hold : a.find? name ≠ some a.size := by
      intro hn
      obtain ⟨x, hx, -⟩ := h.get?_of_find? hn
      exact absurd (lt_size_of_get? hx) (lt_irrefl _)
    by_cases hn : name = nameOf item
    · simp [hn]
    · simp [hn, hold, Ne.symm hn]
  · by_cases hn : name = nameOf item
    · subst hn
      have hnew : ¬∃ x, a.get? i = some x ∧ nameOf x = nameOf item := by
        rw [← h, hf]
        simp
      simp [hi, hnew, Ne.symm hi]
    · simp only [hn, hi, if_false]
      exact h name i

theorem modify (h : a.Indexed nameOf) {i : Nat} {f : α → α}
    (hf : ∀ item, a.get? i = some item → nameOf (f item) = nameOf item) :
    (a.modify i f).Indexed nameOf := by
  intro name j
  rw [find?_modify, get?_modify, h name j]
  by_cases hj : j = i
  · subst hj
    cases hx : a.get? j with
    | none => simp
    | some x => simp [hf x hx]
  · simp [hj]

theorem mem_byName (h : a.Indexed nameOf) {i : Nat} {item : α} :
    (i, item) ∈ a.byName ↔ a.get? i = some item := by
  simp only [byName, List.mem_filterMap, Option.map_eq_some_iff]
  constructor
  · rintro ⟨⟨name, j⟩, -, x, hx, he⟩
    cases he
    exact hx
  · intro hi
    refine ⟨(nameOf item, i), ?_, item, hi, rfl⟩
    exact Std.ExtTreeMap.mem_toList_iff_getElem?_eq_some.mpr (h.find?_eq hi)

theorem byName_ascending (h : a.Indexed nameOf) :
    a.byName.Pairwise fun x y => nameOf x.2 < nameOf y.2 := by
  have hname : ∀ e ∈ a.index.toList, ∀ x, a.get? e.2 = some x → nameOf x = e.1 := by
    intro e he x hx
    have hf : a.find? e.1 = some e.2 := Std.ExtTreeMap.mem_toList_iff_getElem?_eq_some.mp he
    obtain ⟨y, hy, hn⟩ := h.get?_of_find? hf
    rw [hx, Option.some_inj] at hy
    rw [hy, hn]
  refine List.Pairwise.filterMap _ ?_ (List.Pairwise.and_mem.mp Std.ExtTreeMap.ordered_keys_toList)
  rintro e e' ⟨he, he', hlt⟩ x hx y hy
  obtain ⟨u, hu, rfl⟩ := Option.map_eq_some_iff.mp hx
  obtain ⟨v, hv, rfl⟩ := Option.map_eq_some_iff.mp hy
  rw [hname e he u hu, hname e' he' v hv]
  exact compare_lt_iff_lt.mp hlt

end Indexed

end ClassDeps.Arena
