import Mathlib.Data.List.Basic
import Mathlib.Data.List.Perm.Basic
import Std.Data.ExtTreeMap

namespace ClassDeps

variable {α β ε : Type} {f : α → Except ε β} {xs : List α} {ys : List β}

theorem bind_eq_ok_iff {x : Except ε α} {y : β} :
    x >>= f = .ok y ↔ ∃ a, x = .ok a ∧ f a = .ok y := by
  cases x with
  | error e => simp [bind, Except.bind]
  | ok a => simp [bind, Except.bind]

theorem bind_eq_error_iff {x : Except ε α} {e : ε} :
    x >>= f = .error e ↔ x = .error e ∨ ∃ a, x = .ok a ∧ f a = .error e := by
  cases x with
  | error e' => simp [bind, Except.bind]
  | ok a => simp [bind, Except.bind]

theorem map_eq_ok_iff {g : α → β} {x : Except ε α} {y : β} :
    g <$> x = .ok y ↔ ∃ a, x = .ok a ∧ g a = y := by
  cases x with
  | error e => simp
  | ok a => simp

theorem eq_ok_of_isOk {x : Except ε α} (y : α) (h : x.isOk) :
    x = .ok (match x with | .ok a => a | .error _ => y) := by
  cases x with
  | error e => cases h
  | ok a => rfl

theorem mapM_eq_ok_iff : xs.mapM f = .ok ys ↔ xs.map f = ys.map .ok := by
  induction xs generalizing ys with
  | nil =>
    constructor
    · intro h
      cases h
      rfl
    · intro h
      rw [List.map_eq_nil_iff.mp h.symm]
      rfl
  | cons x xs ih =>
    rw [List.mapM_cons, bind_eq_ok_iff]
    simp only [bind_eq_ok_iff, ih]
    constructor
    · rintro ⟨y, hy, rest, hrest, he⟩
      cases he
      rw [List.map_cons, List.map_cons, hy, hrest]
    · intro h
      match ys, h with
      | y :: rest, h =>
        rw [List.map_cons, List.map_cons, List.cons.injEq] at h
        exact ⟨y, h.1, rest, h.2, rfl⟩

theorem mem_of_mapM_eq_ok (h : xs.mapM f = .ok ys) {y : β} :
    y ∈ ys ↔ ∃ x ∈ xs, f x = .ok y := by
  rw [← List.mem_map (l := xs), mapM_eq_ok_iff.mp h, List.mem_map]
  constructor
  · intro hy
    exact ⟨y, hy, rfl⟩
  · rintro ⟨z, hz, he⟩
    cases he
    exact hz

theorem exists_of_mapM_eq_ok (h : xs.mapM f = .ok ys) {x : α} (hx : x ∈ xs) :
    ∃ y, f x = .ok y := by
  have hm : f x ∈ ys.map .ok := by
    rw [← mapM_eq_ok_iff.mp h]
    exact List.mem_map_of_mem hx
  obtain ⟨y, -, hy⟩ := List.mem_map.mp hm
  exact ⟨y, hy.symm⟩

theorem exists_mapM_eq_ok_iff : (∃ ys, xs.mapM f = .ok ys) ↔ ∀ x ∈ xs, ∃ y, f x = .ok y := by
  constructor
  · rintro ⟨ys, h⟩ x hx
    exact exists_of_mapM_eq_ok h hx
  · intro h
    induction xs with
    | nil => exact ⟨[], rfl⟩
    | cons x xs ih =>
      obtain ⟨y, hy⟩ := h x List.mem_cons_self
      obtain ⟨ys, hys⟩ := ih fun z hz => h z (List.mem_cons_of_mem x hz)
      have hrest := mapM_eq_ok_iff.mp hys
      refine ⟨y :: ys, mapM_eq_ok_iff.mpr ?_⟩
      rw [List.map_cons, List.map_cons, hy, hrest]

/-- What fails first is one of the items. -/
theorem exists_of_mapM_eq_error {e : ε} (h : xs.mapM f = .error e) : ∃ x ∈ xs, f x = .error e := by
  induction xs with
  | nil => cases h
  | cons x xs ih =>
    rw [List.mapM_cons] at h
    rcases bind_eq_error_iff.mp h with hx | ⟨y, -, h⟩
    · exact ⟨x, List.mem_cons_self, hx⟩
    · rcases bind_eq_error_iff.mp h with hrest | ⟨ys, -, h⟩
      · obtain ⟨z, hz, he⟩ := ih hrest
        exact ⟨z, List.mem_cons_of_mem x hz, he⟩
      · cases h

theorem pairwise_of_mapM_eq_ok {r : β → β → Prop} (h : xs.mapM f = .ok ys)
    (hr : xs.Pairwise fun a b => ∀ x y, f a = .ok x → f b = .ok y → r x y) :
    ys.Pairwise r := by
  have hmap : (xs.map f).Pairwise fun a b => ∀ x y, a = .ok x → b = .ok y → r x y :=
    List.pairwise_map.mpr hr
  rw [mapM_eq_ok_iff.mp h, List.pairwise_map] at hmap
  apply hmap.imp
  intro x y hxy
  exact hxy x y rfl rfl

/-- What the results and the items have in common comes in the same order. -/
theorem map_eq_of_mapM_eq_ok {γ : Type} {g : β → γ} {k : α → γ} (h : xs.mapM f = .ok ys)
    (hf : ∀ x y, f x = .ok y → g y = k x) : ys.map g = xs.map k := by
  induction xs generalizing ys with
  | nil =>
    cases h
    rfl
  | cons x xs ih =>
    rw [List.mapM_cons] at h
    obtain ⟨y, hy, h⟩ := bind_eq_ok_iff.mp h
    obtain ⟨rest, hrest, h⟩ := bind_eq_ok_iff.mp h
    cases h
    rw [List.map_cons, List.map_cons, hf x y hy, ih hrest]

/-- Functions that succeed alike give the same results; how they fail may differ. -/
theorem mapM_eq_ok_congr {g : α → Except ε β}
    (h : ∀ x ∈ xs, ∀ y, f x = .ok y ↔ g x = .ok y) :
    xs.mapM f = .ok ys ↔ xs.mapM g = .ok ys := by
  induction xs generalizing ys with
  | nil => rfl
  | cons x xs ih =>
    have hrest : ∀ zs, xs.mapM f = .ok zs ↔ xs.mapM g = .ok zs :=
      fun _ => ih fun z hz => h z (List.mem_cons_of_mem x hz)
    simp only [List.mapM_cons, bind_eq_ok_iff, h x List.mem_cons_self, hrest]

/-- Success does not depend on the order, and the results come in the new one. -/
theorem exists_mapM_eq_ok_of_perm {xs' : List α} (hperm : xs.Perm xs') (h : xs.mapM f = .ok ys) :
    ∃ ys', xs'.mapM f = .ok ys' ∧ ys.Perm ys' := by
  have hall : ∀ x ∈ xs', ∃ y, f x = .ok y :=
    fun _ hx => exists_of_mapM_eq_ok h (hperm.mem_iff.mpr hx)
  obtain ⟨ys', h'⟩ := exists_mapM_eq_ok_iff.mpr hall
  have hmap := hperm.map f
  rw [mapM_eq_ok_iff.mp h, mapM_eq_ok_iff.mp h'] at hmap
  have hinjective : Function.Injective (Except.ok : β → Except ε β) := fun _ _ => Except.ok.inj
  exact ⟨ys', h', (List.map_perm_map_iff hinjective).mp hmap⟩

theorem mapM_eq_some_iff {f : α → Option β} : xs.mapM f = some ys ↔ xs.map f = ys.map some := by
  induction xs generalizing ys with
  | nil => cases ys <;> simp
  | cons x xs ih =>
    rw [List.mapM_cons]
    cases ys with
    | nil => cases f x <;> cases xs.mapM f <;> simp
    | cons y ys =>
      rw [List.map_cons, List.map_cons, List.cons.injEq, ← ih]
      cases f x with
      | none => simp
      | some z => cases xs.mapM f <;> simp

theorem forM_eq_ok_iff {f : α → Except ε Unit} : xs.forM f = .ok () ↔ ∀ x ∈ xs, f x = .ok () := by
  induction xs with
  | nil => exact iff_of_true rfl (List.forall_mem_nil _)
  | cons x xs ih =>
    change (f x >>= fun _ => xs.forM f) = .ok () ↔ _
    rw [bind_eq_ok_iff, List.forall_mem_cons, ← ih]
    constructor
    · rintro ⟨_, hx, hrest⟩
      exact ⟨hx, hrest⟩
    · rintro ⟨hx, hrest⟩
      exact ⟨(), hx, hrest⟩

/-- A table of distinct keys has exactly the entries of its list. -/
theorem getElem?_ofList_iff {κ ν : Type} [Ord κ] [Std.TransOrd κ] [Std.LawfulEqOrd κ]
    {l : List (κ × ν)} (hl : l.Pairwise fun a b => a.1 ≠ b.1) {k : κ} {x : ν} :
    (Std.ExtTreeMap.ofList l)[k]? = some x ↔ (k, x) ∈ l := by
  classical
  have hdistinct : l.Pairwise fun a b => ¬compare a.1 b.1 = .eq := by
    apply hl.imp
    intro a b hab he
    exact hab (Std.LawfulEqCmp.compare_eq_iff_eq.mp he)
  have hof : ∀ {y}, (k, y) ∈ l → (Std.ExtTreeMap.ofList l)[k]? = some y :=
    Std.ExtTreeMap.getElem?_ofList_of_mem Std.ReflCmp.compare_self hdistinct
  constructor
  · intro h
    have hk : k ∈ Std.ExtTreeMap.ofList l := by
      rw [Std.ExtTreeMap.mem_iff_isSome_getElem?, h]
      rfl
    rw [Std.ExtTreeMap.mem_ofList, List.contains_iff_mem, List.mem_map] at hk
    obtain ⟨⟨_, y⟩, hy, rfl⟩ := hk
    rw [hof hy, Option.some_inj] at h
    rw [← h]
    exact hy
  · exact hof

end ClassDeps
