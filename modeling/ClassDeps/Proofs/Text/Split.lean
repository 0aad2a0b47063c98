import ClassDeps.Text.Split
import Mathlib.Data.List.Basic

namespace ClassDeps.Text

variable {c : Char} {back : List Char}

theorem splitLast?_eq_none_iff {text : List Char} : splitLast? c text = none ↔ c ∉ text := by
  induction text with
  | nil => simp [splitLast?]
  | cons x text ih =>
    rw [splitLast?, List.mem_cons, not_or, ← ih]
    cases splitLast? c text with
    | some parts => simp
    | none => simp [eq_comm]

theorem splitLast?_eq_none (h : c ∉ back) : splitLast? c back = none :=
  splitLast?_eq_none_iff.mpr h

theorem splitLast?_append (front : List Char) (h : c ∉ back) :
    splitLast? c (front ++ c :: back) = some (front, back) := by
  induction front with
  | nil =>
    rw [List.nil_append, splitLast?, splitLast?_eq_none h]
    exact if_pos rfl
  | cons x front ih => rw [List.cons_append, splitLast?, ih]

theorem splitLast?_eq_some_iff {text front : List Char} :
    splitLast? c text = some (front, back) ↔ text = front ++ c :: back ∧ c ∉ back := by
  refine ⟨?_, fun ⟨htext, hback⟩ => htext ▸ splitLast?_append front hback⟩
  intro h
  induction text generalizing front with
  | nil => cases h
  | cons x text ih =>
    rw [splitLast?] at h
    cases hsplit : splitLast? c text with
    | some found =>
      rw [hsplit] at h
      cases h
      obtain ⟨htext, hback⟩ := ih hsplit
      exact ⟨by rw [htext, List.cons_append], hback⟩
    | none =>
      simp only [hsplit] at h
      split at h
      case isTrue hx =>
        cases h
        exact ⟨by rw [hx, List.nil_append], splitLast?_eq_none_iff.mp hsplit⟩
      case isFalse => cases h

/-- Text without the separator at the end belongs to the second part. -/
theorem splitLast?_append_of_not_mem (front : List Char) (h : c ∉ back) :
    splitLast? c (front ++ back) =
      (splitLast? c front).map fun parts => (parts.1, parts.2 ++ back) := by
  induction front with
  | nil => exact splitLast?_eq_none h
  | cons x front ih =>
    rw [List.cons_append, splitLast?, splitLast?, ih]
    cases splitLast? c front with
    | some parts => rfl
    | none =>
      dsimp only [Option.map_none]
      split <;> rfl

theorem splitFirst?_eq_none_iff {text : List Char} : splitFirst? c text = none ↔ c ∉ text := by
  induction text with
  | nil => simp [splitFirst?]
  | cons x text ih =>
    rw [splitFirst?]
    split
    case isTrue hx => simp [hx]
    case isFalse hx => simp [ih, Ne.symm hx]

theorem splitFirst?_append {front : List Char} (h : c ∉ front) (back : List Char) :
    splitFirst? c (front ++ c :: back) = some (front, back) := by
  induction front with
  | nil => exact if_pos rfl
  | cons x front ih =>
    obtain ⟨hx, hfront⟩ := not_or.mp (mt List.mem_cons.mpr h)
    rw [List.cons_append, splitFirst?, if_neg (Ne.symm hx), ih hfront, Option.map_some]

theorem splitFirst?_eq_some_iff {text front : List Char} :
    splitFirst? c text = some (front, back) ↔ text = front ++ c :: back ∧ c ∉ front := by
  refine ⟨?_, fun ⟨htext, hfront⟩ => htext ▸ splitFirst?_append hfront back⟩
  intro h
  induction text generalizing front with
  | nil => cases h
  | cons x text ih =>
    rw [splitFirst?] at h
    split at h
    case isTrue hx =>
      cases h
      exact ⟨by rw [hx, List.nil_append], List.not_mem_nil⟩
    case isFalse hx =>
      obtain ⟨⟨found, _⟩, hfound, heq⟩ := Option.map_eq_some_iff.mp h
      cases heq
      obtain ⟨htext, hfront⟩ := ih hfound
      exact ⟨by rw [htext, List.cons_append], by simp [Ne.symm hx, hfront]⟩

theorem fst_of_splitFirst? {text : List Char} {parts : List Char × List Char}
    (h : splitFirst? c text = some parts) : parts.1 = text.takeWhile (· ≠ c) := by
  induction text generalizing parts with
  | nil => cases h
  | cons x text ih =>
    rw [splitFirst?] at h
    split at h
    case isTrue hx =>
      cases h
      simp [hx]
    case isFalse hx =>
      obtain ⟨found, hfound, rfl⟩ := Option.map_eq_some_iff.mp h
      simp [hx, ih hfound]

theorem splitAll_append_cons (c : Char) (front back : List Char) :
    splitAll c (front ++ c :: back) = splitAll c front ++ splitAll c back := by
  have hne : ∀ text, splitAll c text ≠ [] := by
    intro text
    cases text with
    | nil => exact List.cons_ne_nil _ _
    | cons x text =>
      rw [splitAll]
      split
      · split <;> exact List.cons_ne_nil _ _
      · exact List.cons_ne_nil _ _
  induction front with
  | nil =>
    obtain ⟨first, rest, hback⟩ := List.exists_cons_of_ne_nil (hne back)
    rw [List.nil_append, hback]
    conv_lhs => rw [splitAll, hback]
    exact if_pos rfl
  | cons x front ih =>
    obtain ⟨first, rest, hfront⟩ := List.exists_cons_of_ne_nil (hne front)
    rw [List.cons_append, splitAll, splitAll, ih, hfront, List.cons_append]
    dsimp only
    split <;> rfl

theorem splitAll_eq_singleton (h : c ∉ back) : splitAll c back = [back] := by
  induction back with
  | nil => rfl
  | cons x back ih =>
    obtain ⟨hx, hback⟩ := not_or.mp (mt List.mem_cons.mpr h)
    rw [splitAll, ih hback]
    exact if_neg (Ne.symm hx)

theorem suffix_of_getLast?_splitAll {text last : List Char}
    (h : (splitAll c text).getLast? = some last) : last <:+ text := by
  cases hsplit : splitLast? c text with
  | none =>
    rw [splitAll_eq_singleton (splitLast?_eq_none_iff.mp hsplit)] at h
    cases h
    exact List.suffix_refl _
  | some parts =>
    obtain ⟨htext, hback⟩ := splitLast?_eq_some_iff.mp hsplit
    rw [htext, splitAll_append_cons, splitAll_eq_singleton hback, List.getLast?_concat] at h
    cases h
    rw [htext]
    exact (List.suffix_cons ..).trans (List.suffix_append ..)

/-- Text without the separator at the end belongs to the last part. -/
theorem exists_getLast?_splitAll_append (front : List Char) (h : c ∉ back) :
    ∃ start, (splitAll c (front ++ back)).getLast? = some (start ++ back) := by
  induction front with
  | nil =>
    rw [List.nil_append, splitAll_eq_singleton h]
    exact ⟨[], rfl⟩
  | cons x front ih =>
    obtain ⟨start, hstart⟩ := ih
    rw [List.cons_append, splitAll]
    match hparts : splitAll c (front ++ back) with
    | [] =>
      rw [hparts] at hstart
      cases hstart
    | [first] =>
      rw [hparts] at hstart
      obtain rfl : first = start ++ back := Option.some.inj hstart
      by_cases hx : x = c
      · exact ⟨start, by simp [hx]⟩
      · exact ⟨x :: start, by simp [hx]⟩
    | first :: second :: rest =>
      rw [hparts, List.getLast?_cons_cons] at hstart
      by_cases hx : x = c
      · exact ⟨start, by simpa [hx, List.getLast?_cons_cons] using hstart⟩
      · exact ⟨start, by simpa [hx, List.getLast?_cons_cons] using hstart⟩

end ClassDeps.Text
