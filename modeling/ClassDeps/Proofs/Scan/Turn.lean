import ClassDeps.Proofs.Scan.Unpacked
import Mathlib.Data.List.Nodup
import Mathlib.Data.String.Basic

namespace ClassDeps.Scan

/-- A list is cut in one way where a condition ends. -/
theorem eq_of_append_eq_append {α : Type} {p : α → Prop} {xs ys xs' ys' : List α}
    (h : xs ++ ys = xs' ++ ys') (hxs : ∀ a ∈ xs, p a) (hys : ∀ a ∈ ys, ¬p a)
    (hxs' : ∀ a ∈ xs', p a) (hys' : ∀ a ∈ ys', ¬p a) : xs = xs' ∧ ys = ys' := by
  rcases List.append_eq_append_iff.mp h with ⟨zs, rfl, rfl⟩ | ⟨zs, rfl, rfl⟩
  · have hzs : zs = [] := by
      rw [List.eq_nil_iff_forall_not_mem]
      intro a ha
      exact hys a (List.mem_append_left _ ha) (hxs' a (List.mem_append_right _ ha))
    simp [hzs]
  · have hzs : zs = [] := by
      rw [List.eq_nil_iff_forall_not_mem]
      intro a ha
      exact hys' a (List.mem_append_left _ ha) (hxs a (List.mem_append_right _ ha))
    simp [hzs]

/-- The first of a list comes after all that are smaller and before all others. -/
theorem mergeSort_cons_cases {α : Type} (key : α → String) (a : α) (l : List α) :
    ∃ before after, ((a :: l).mergeSort fun x y => key x ≤ key y) = before ++ a :: after ∧
      (l.mergeSort fun x y => key x ≤ key y) = before ++ after ∧
      (∀ b ∈ before, key b < key a) ∧ ∀ b ∈ after, ¬key b < key a := by
  have htrans : ∀ x y z, decide (key x ≤ key y) = true → decide (key y ≤ key z) = true →
      decide (key x ≤ key z) = true := by
    intro x y z hxy hyz
    exact decide_eq_true ((of_decide_eq_true hxy).trans (of_decide_eq_true hyz))
  have htotal : ∀ x y, (decide (key x ≤ key y) || decide (key y ≤ key x)) = true := by
    intro x y
    simpa using le_total (key x) (key y)
  obtain ⟨before, after, hcons, hl, hbefore⟩ := List.mergeSort_cons htrans htotal a l
  have hsorted := List.pairwise_mergeSort htrans htotal (a :: l)
  rw [hcons, List.pairwise_append, List.pairwise_cons] at hsorted
  refine ⟨before, after, hcons, hl, ?_, ?_⟩
  · intro b hb
    simpa using hbefore b hb
  · intro b hb
    exact not_lt.mpr (of_decide_eq_true (hsorted.2.1.1 b hb))

/-- The items of a stable sort keep their order when some of them are left out. -/
theorem filterMap_mergeSort {α β : Type} {f : α → Option β} (key : α → String)
    (key' : β → String) {l : List α} (h : ∀ a ∈ l, ∀ b, f a = some b → key' b = key a) :
    (l.mergeSort fun a b => key a ≤ key b).filterMap f =
      (l.filterMap f).mergeSort fun a b => key' a ≤ key' b := by
  induction l with
  | nil => rw [List.mergeSort_nil, List.filterMap_nil, List.mergeSort_nil]
  | cons a l ih =>
    have hl : ∀ x ∈ l, ∀ b, f x = some b → key' b = key x :=
      fun x hx => h x (List.mem_cons_of_mem a hx)
    obtain ⟨before, after, hsort, hrest, hbefore, hafter⟩ := mergeSort_cons_cases key a l
    have hmem : ∀ x ∈ before ++ after, x ∈ l := by
      intro x hx
      rw [← hrest] at hx
      exact List.mem_mergeSort.mp hx
    have ih := ih hl
    rw [hrest, List.filterMap_append] at ih
    rw [hsort, List.filterMap_append]
    cases ha : f a with
    | none => rw [List.filterMap_cons_none ha, List.filterMap_cons_none ha, ih]
    | some b =>
      have hkey : key' b = key a := h a List.mem_cons_self b ha
      obtain ⟨before', after', hsort', hrest', hbefore', hafter'⟩ :=
        mergeSort_cons_cases key' b (l.filterMap f)
      rw [hrest'] at ih
      -- Both sides put `b` where the smaller keys end.
      have hsmaller : ∀ c ∈ before.filterMap f, key' c < key' b := by
        intro c hc
        obtain ⟨x, hx, hxc⟩ := List.mem_filterMap.mp hc
        rw [hl x (hmem x (List.mem_append_left _ hx)) c hxc, hkey]
        exact hbefore x hx
      have hother : ∀ c ∈ after.filterMap f, ¬key' c < key' b := by
        intro c hc
        obtain ⟨x, hx, hxc⟩ := List.mem_filterMap.mp hc
        rw [hl x (hmem x (List.mem_append_right _ hx)) c hxc, hkey]
        exact hafter x hx
      obtain ⟨hfront, hback⟩ := eq_of_append_eq_append ih hsmaller hother hbefore' hafter'
      rw [List.filterMap_cons_some ha, List.filterMap_cons_some ha, hsort', hfront, hback]

/-- The items that are kept, with their positions, in the order of their names. -/
def turns {α : Type} (name : α → String) (keep : α → Bool) (l : List α) : List (α × Nat) :=
  (l.zipIdx.filter fun p => keep p.1).mergeSort fun p q => name p.1 ≤ name q.1

section

variable {α : Type} {name : α → String} {keep : α → Bool} {l : List α}

theorem nodup_turns : ((turns name keep l).map Prod.snd).Nodup := by
  have hnodup : (l.zipIdx.map Prod.snd).Nodup := by
    rw [List.zipIdx_map_snd]
    exact List.nodup_range'
  exact (((List.mergeSort_perm ..).map Prod.snd).nodup_iff).mpr
    (hnodup.sublist (List.filter_sublist.map _))

theorem mem_turns {p : α × Nat} :
    p ∈ turns name keep l ↔ l[p.2]? = some p.1 ∧ keep p.1 = true := by
  rw [turns, List.mem_mergeSort, List.mem_filter, List.mem_zipIdx_iff_getElem?]

/-- What is left of the items has its turns in the same order. -/
theorem filterMap_turns {f : α × Nat → Option α}
    (hname : ∀ p ∈ l.zipIdx, ∀ a, f p = some a → name a = name p.1)
    (hkeep : ∀ p ∈ l.zipIdx, ∀ a, f p = some a → keep a = keep p.1) :
    (turns name keep l).filterMap f =
      ((l.zipIdx.filterMap f).filter keep).mergeSort fun a b => name a ≤ name b := by
  have hfilter : (l.zipIdx.filter fun p => keep p.1).filterMap f =
      (l.zipIdx.filterMap f).filter keep := by
    rw [List.filterMap_filter, List.filter_filterMap]
    apply List.filterMap_congr
    intro p hp
    cases hf : f p with
    | none => simp
    | some a => simp [hkeep p hp a hf, Option.filter]
  have hsort := filterMap_mergeSort (l := l.zipIdx.filter fun p => keep p.1) (f := f)
    (fun p => name p.1) name fun p hp => hname p (List.mem_of_mem_filter hp)
  rw [turns, hsort, hfilter]

theorem map_fst_turns : (turns name keep l).map Prod.fst =
    (l.filter keep).mergeSort fun a b => name a ≤ name b := by
  have hfilter : (l.zipIdx.filter fun p => keep p.1).map Prod.fst = l.filter keep := by
    conv_rhs => rw [← List.zipIdx_map_fst 0 l, List.filter_map]
    rfl
  rw [turns, ← hfilter]
  exact List.map_mergeSort fun _ _ _ _ => rfl

end

theorem sort_map {α β : Type} (f : α → Step β) (l : List α) :
    Step.sort (l.map f) = (l.mergeSort fun a b => (f a).name ≤ (f b).name).map f := by
  refine (List.map_mergeSort ?_).symm
  intro a _ b _
  rfl

/-- Sorting moves steps but keeps what is scanned and where it came from. -/
theorem sort_map_eq {α β : Type} (f : α → Step β) (keep : α → Bool) (l : List α) :
    Step.sort ((l.filter keep).map f) =
      (turns (fun a => (f a).name) keep l).map fun p => f p.1 := by
  rw [sort_map, ← map_fst_turns, List.map_map]
  rfl

namespace Unpacked

theorem entrySteps_eq (es : List EntryTree) :
    entrySteps es = (es.filter fun e => isScanned e.name).map fun e => ⟨e.name, entry e⟩ := by
  induction es with
  | nil => rw [entrySteps]; rfl
  | cons e es ih =>
    rw [entrySteps, ih, List.filter_cons]
    split <;> rfl

/-- The entries that are scanned, with their positions, in the order of their turns. -/
def entryTurns (es : List EntryTree) : List (EntryTree × Nat) :=
  turns (·.name) (fun e => isScanned e.name) es

theorem archive_eq_foldl {medium : Medium} {es : List EntryTree} {location : String} {index : Nat}
    {s : Scan} (h : es.findSome? (·.blocked) = none) :
    archive medium es location index s =
      (entryTurns es).foldl (fun s p => entry p.1 location index s) s := by
  unfold archive runEntries fault?
  rw [h, entrySteps_eq, sort_map_eq, List.foldl_map]
  rfl

theorem archive_of_blocked {medium : Medium} {es : List EntryTree} {fault : ArchiveFault}
    (h : es.findSome? (·.blocked) = some fault) (location : String) (index : Nat) (s : Scan) :
    archive medium es location index s = s.failArchive location (fault.on medium) := by
  unfold archive runEntries fault?
  rw [h]
  rfl

theorem entry_eq (e : EntryTree) (location : String) (index : Nat) (s : Scan) :
    entry e location index s =
      match e.content with
      | .error fault => s.failArchive (location ++ "!" ++ e.name) fault
      | .ok data =>
        if Path.isArchive e.name then
          nestedArchive e.nested (location ++ "!" ++ e.name) data.size index s
        else
          record (location ++ "!" ++ e.name) (s.importClass data (location ++ "!" ++ e.name)) := by
  obtain ⟨shown, nested⟩ := e
  exact entry.eq_def ⟨shown, nested⟩ location index s

end Unpacked

end ClassDeps.Scan
