import ClassDeps.ClassFile.ConstantPool
import ClassDeps.Proofs.Text.ModifiedUtf8
import Mathlib.Algebra.Group.Nat.Defs
import Mathlib.Data.List.Forall2

namespace ClassDeps

namespace Text.ModifiedUtf8

/-- A byte after the first of a form. -/
def Continues (b : UInt8) : Prop :=
  0x80 ≤ b ∧ b ≤ 0xbf

/-- The bytes are a form of the unit: what they hold beside their marks are its bits. A unit may
have a longer form than it needs. -/
inductive Spells : List UInt8 → UInt16 → Prop
  | one {a : UInt8} : 0x01 ≤ a → a ≤ 0x7f → Spells [a] a.toUInt16
  | two {a b : UInt8} : 0xc0 ≤ a → a ≤ 0xdf → Continues b →
      Spells [a, b] ((a &&& 0x1f).toUInt16 <<< 6 ||| (b &&& 0x3f).toUInt16)
  | three {a b c : UInt8} : 0xe0 ≤ a → a ≤ 0xef → Continues b → Continues c →
      Spells [a, b, c]
        ((a &&& 0x0f).toUInt16 <<< 12 ||| (b &&& 0x3f).toUInt16 <<< 6 ||| (c &&& 0x3f).toUInt16)

/-- The bytes fall into forms of the units, one after the other. -/
def SpellsAll (bytes : List UInt8) (us : List UInt16) : Prop :=
  ∃ forms : List (List UInt8), forms.flatten = bytes ∧ List.Forall₂ Spells forms us

theorem SpellsAll.cons {form bytes : List UInt8} {u : UInt16} {us : List UInt16}
    (h : Spells form u) (hrest : SpellsAll bytes us) : SpellsAll (form ++ bytes) (u :: us) := by
  obtain ⟨forms, hforms, hall⟩ := hrest
  exact ⟨form :: forms, by rw [List.flatten_cons, hforms], hall.cons h⟩

theorem isContinuation_iff {b : UInt8} : isContinuation b = true ↔ Continues b := by
  simp [isContinuation, Continues]

/-- The low bits of a byte that a mask keeps. -/
theorem toNat_toUInt16_and (a mask : UInt8) {k : Nat} (h : mask.toNat = 2 ^ k - 1) :
    (a &&& mask).toUInt16.toNat = a.toNat % 2 ^ k := by
  rw [UInt8.toNat_toUInt16, UInt8.toNat_and, h, Nat.and_two_pow_sub_one_eq_mod]

/-- Bits beside each other make up one number. -/
theorem toNat_shiftLeft_or {high low k : UInt16} (hk : k.toNat < 16)
    (hhigh : high.toNat * 2 ^ k.toNat < 2 ^ 16) (hlow : low.toNat < 2 ^ k.toNat) :
    (high <<< k ||| low).toNat = high.toNat * 2 ^ k.toNat + low.toNat := by
  rw [UInt16.toNat_or, UInt16.toNat_shiftLeft, Nat.mod_eq_of_lt hk,
    Nat.mod_eq_of_lt (by rwa [Nat.shiftLeft_eq]), ← Nat.shiftLeft_add_eq_or_of_lt hlow,
    Nat.shiftLeft_eq]

theorem ofNat_two (a b : UInt8) : UInt16.ofNat (a.toNat % 32 * 64 + payload b) =
    (a &&& 0x1f).toUInt16 <<< 6 ||| (b &&& 0x3f).toUInt16 := by
  have ha := toNat_toUInt16_and a 0x1f (k := 5) rfl
  have hb := toNat_toUInt16_and b 0x3f (k := 6) rfl
  apply UInt16.toNat_inj.mp
  rw [toNat_shiftLeft_or (by decide) (by rw [ha]; change _ * 64 < _; omega)
    (by rw [hb]; change _ < 64; omega), ha, hb, payload, toNat_ofNat_unit (by omega)]
  rfl

theorem ofNat_three (a b c : UInt8) :
    UInt16.ofNat (a.toNat % 16 * 4096 + payload b * 64 + payload c) =
      (a &&& 0x0f).toUInt16 <<< 12 ||| (b &&& 0x3f).toUInt16 <<< 6 ||| (c &&& 0x3f).toUInt16 := by
  have ha := toNat_toUInt16_and a 0x0f (k := 4) rfl
  have hb := toNat_toUInt16_and b 0x3f (k := 6) rfl
  have hc := toNat_toUInt16_and c 0x3f (k := 6) rfl
  have hlow : ((b &&& 0x3f).toUInt16 <<< 6 ||| (c &&& 0x3f).toUInt16).toNat =
      b.toNat % 64 * 64 + c.toNat % 64 := by
    rw [toNat_shiftLeft_or (by decide) (by rw [hb]; change _ * 64 < _; omega)
      (by rw [hc]; change _ < 64; omega), hb, hc]
    rfl
  apply UInt16.toNat_inj.mp
  rw [UInt16.or_assoc, toNat_shiftLeft_or (by decide) (by rw [ha]; change _ * 4096 < _; omega)
    (by rw [hlow]; change _ < 4096; omega), ha, hlow, payload, payload, toNat_ofNat_unit (by omega),
    Nat.add_assoc]
  rfl

theorem units_append_of_spells {form : List UInt8} {u : UInt16} (h : Spells form u)
    (rest : List UInt8) : units (form ++ rest) = (units rest).map (u :: ·) := by
  cases h with
  | @one a hlow hhigh =>
    rw [List.singleton_append, units.eq_def]
    simp [hlow, hhigh]
  | @two a b hlow hhigh hb =>
    have hone : ¬a ≤ 0x7f := fun h => absurd (UInt8.le_trans hlow h) (by decide)
    rw [← ofNat_two, List.cons_append, List.singleton_append, units]
    simp [hone, hlow, hhigh, isContinuation_iff.mpr hb]
  | @three a b c hlow hhigh hb hc =>
    have hone : ¬a ≤ 0x7f := fun h => absurd (UInt8.le_trans hlow h) (by decide)
    have htwo : ¬a ≤ 0xdf := fun h => absurd (UInt8.le_trans hlow h) (by decide)
    rw [← ofNat_three, List.cons_append, List.cons_append, List.singleton_append, units]
    simp [hone, htwo, hlow, hhigh, isContinuation_iff.mpr hb, isContinuation_iff.mpr hc]

theorem spellsAll_of_units {bytes : List UInt8} {us : List UInt16} (h : units bytes = some us) :
    SpellsAll bytes us := by
  fun_induction units bytes generalizing us with
  | case1 =>
    cases h
    exact ⟨[], rfl, .nil⟩
  | case2 a rest hone ih =>
    obtain ⟨more, hmore, rfl⟩ := Option.map_eq_some_iff.mp h
    simp only [Bool.and_eq_true, decide_eq_true_iff] at hone
    exact (ih hmore).cons (.one hone.1 hone.2)
  | case3 a _ htwo b rest hb ih =>
    obtain ⟨more, hmore, rfl⟩ := Option.map_eq_some_iff.mp h
    simp only [Bool.and_eq_true, decide_eq_true_iff] at htwo
    rw [ofNat_two]
    exact (ih hmore).cons (.two htwo.1 htwo.2 (isContinuation_iff.mp hb))
  | case6 a _ _ hthree b c rest hbc ih =>
    obtain ⟨more, hmore, rfl⟩ := Option.map_eq_some_iff.mp h
    simp only [Bool.and_eq_true, decide_eq_true_iff, isContinuation_iff] at hthree hbc
    rw [ofNat_three]
    exact (ih hmore).cons (.three hthree.1 hthree.2 hbc.1 hbc.2)
  | case4 | case5 | case7 | case8 | case9 => cases h

/-- The units are read off the forms, so bytes fall into forms in one way only. -/
theorem units_eq_some_iff {bytes : List UInt8} {us : List UInt16} :
    units bytes = some us ↔ SpellsAll bytes us := by
  refine ⟨spellsAll_of_units, ?_⟩
  rintro ⟨forms, rfl, hall⟩
  induction hall with
  | nil => rfl
  | cons hform _ ih => rw [List.flatten_cons, units_append_of_spells hform, ih, Option.map_some]

/-- The first half of a pair stands right before a second one, and a second half right after a first
one. -/
structure Paired (us : List UInt16) : Prop where
  followed : ∀ i u, us[i]? = some u → isHighSurrogate u →
    ∃ v, us[i + 1]? = some v ∧ isLowSurrogate v
  preceded : ∀ i v, us[i]? = some v → isLowSurrogate v →
    ∃ j u, i = j + 1 ∧ us[j]? = some u ∧ isHighSurrogate u

theorem isHighSurrogate_iff {u : UInt16} :
    isHighSurrogate u = true ↔ 0xd800 ≤ u.toNat ∧ u.toNat ≤ 0xdbff := by
  conv_lhs => rw [← UInt16.ofNat_toNat (x := u)]
  exact isHighSurrogate_ofNat u.toNat_lt

theorem isLowSurrogate_iff {u : UInt16} :
    isLowSurrogate u = true ↔ 0xdc00 ≤ u.toNat ∧ u.toNat ≤ 0xdfff := by
  conv_lhs => rw [← UInt16.ofNat_toNat (x := u)]
  exact isLowSurrogate_ofNat u.toNat_lt

theorem not_isLowSurrogate_of_high {u : UInt16} (h : isHighSurrogate u) : ¬isLowSurrogate u := by
  rw [isHighSurrogate_iff] at h
  rw [isLowSurrogate_iff]
  omega

variable {u v : UInt16} {us : List UInt16}

theorem paired_nil : Paired [] :=
  ⟨fun _ _ h => by simp at h, fun _ _ h => by simp at h⟩

theorem paired_single (hhigh : ¬isHighSurrogate u) (hlow : ¬isLowSurrogate u) : Paired [u] := by
  have hself : ∀ (i : Nat) w, [u][i]? = some w → w = u := by
    intro i w hw
    simpa using List.mem_of_getElem? hw
  refine ⟨fun i w hw hup => ?_, fun i w hw hdown => ?_⟩
  · exact absurd (hself i w hw ▸ hup) hhigh
  · exact absurd (hself i w hw ▸ hdown) hlow

theorem paired_pair (hhigh : isHighSurrogate u) (hlow : isLowSurrogate v) : Paired [u, v] := by
  refine ⟨fun i w hw hup => ?_, fun i w hw hdown => ?_⟩
  · match i with
    | 0 => exact ⟨v, rfl, hlow⟩
    | 1 =>
      cases hw
      exact absurd hlow (not_isLowSurrogate_of_high hup)
    | i + 2 => simp at hw
  · match i with
    | 0 =>
      cases hw
      exact absurd hdown (not_isLowSurrogate_of_high hhigh)
    | 1 => exact ⟨0, u, rfl, rfl, hhigh⟩
    | i + 2 => simp at hw

/-- Units whose surrogates stand in pairs leave nothing open at their end. -/
theorem Paired.append_iff {front : List UInt16} (hfront : Paired front) :
    Paired (front ++ us) ↔ Paired us := by
  have hshift : ∀ i, (front ++ us)[front.length + i]? = us[i]? := fun i => by
    rw [List.getElem?_append_right (by omega), Nat.add_sub_cancel_left]
  have hkeep : ∀ {i w}, front[i]? = some w → (front ++ us)[i]? = some w := fun hw => by
    rw [List.getElem?_append_left (List.getElem?_eq_some_iff.mp hw).1, hw]
  -- A unit of the whole is one of the front, or one of the rest at a place that is shifted.
  have hsplit : ∀ {i w}, (front ++ us)[i]? = some w →
      front[i]? = some w ∨ ∃ k, i = front.length + k ∧ us[k]? = some w := by
    intro i w hw
    rcases Nat.lt_or_ge i front.length with hlt | hge
    · exact .inl (by rwa [List.getElem?_append_left hlt] at hw)
    · obtain ⟨k, rfl⟩ := Nat.exists_eq_add_of_le hge
      exact .inr ⟨k, rfl, (hshift k).symm.trans hw⟩
  constructor
  · intro h
    refine ⟨fun i w hw hup => ?_, fun i w hw hdown => ?_⟩
    · rw [← hshift] at hw ⊢
      exact h.followed _ w hw hup
    · obtain ⟨j, first, hj, hfirst, hup⟩ := h.preceded _ w ((hshift i).trans hw) hdown
      rcases hsplit hfirst with hinside | ⟨k, rfl, hbehind⟩
      · -- The first half would be the last unit of the front, and nothing there follows it.
        obtain ⟨second, hsecond, -⟩ := hfront.followed j first hinside hup
        have := (List.getElem?_eq_some_iff.mp hsecond).1
        omega
      · exact ⟨k, first, by omega, hbehind, hup⟩
  · intro h
    refine ⟨fun i w hw hup => ?_, fun i w hw hdown => ?_⟩
    · rcases hsplit hw with hinside | ⟨k, rfl, hbehind⟩
      · obtain ⟨second, hsecond, hdown⟩ := hfront.followed i w hinside hup
        exact ⟨second, hkeep hsecond, hdown⟩
      · obtain ⟨second, hsecond, hdown⟩ := h.followed k w hbehind hup
        exact ⟨second, (hshift (k + 1)).trans hsecond, hdown⟩
    · rcases hsplit hw with hinside | ⟨k, rfl, hbehind⟩
      · obtain ⟨j, first, hj, hfirst, hup⟩ := hfront.preceded i w hinside hdown
        exact ⟨j, first, hj, hkeep hfirst, hup⟩
      · obtain ⟨j, first, rfl, hfirst, hup⟩ := h.preceded k w hbehind hdown
        exact ⟨front.length + j, first, rfl, (hshift j).trans hfirst, hup⟩

/-- The UTF-16 form of a text. -/
def utf16 (text : String) : List UInt16 :=
  text.toList.flatMap charUnits

theorem toNat_ofNat_char {n : Nat} (h : n.isValidChar) : (Char.ofNat n).toNat = n := by
  rw [Char.ofNat, dif_pos h]
  rfl

theorem charUnits_ofNat (hhigh : ¬isHighSurrogate u) (hlow : ¬isLowSurrogate u) :
    charUnits (Char.ofNat u.toNat) = [u] := by
  have hu := u.toNat_lt
  rw [isHighSurrogate_iff] at hhigh
  rw [isLowSurrogate_iff] at hlow
  have hvalid : u.toNat.isValidChar := by
    rw [Nat.isValidChar]
    omega
  rw [charUnits, toNat_ofNat_char hvalid, if_pos (by omega), UInt16.ofNat_toNat]

theorem charUnits_combine (hhigh : isHighSurrogate u) (hlow : isLowSurrogate v) :
    charUnits (combine u v) = [u, v] := by
  rw [isHighSurrogate_iff] at hhigh
  rw [isLowSurrogate_iff] at hlow
  have hvalid : (0x10000 + (u.toNat - 0xd800) * 0x400 + (v.toNat - 0xdc00)).isValidChar := by
    rw [Nat.isValidChar]
    omega
  have hfirst : 0xd800 + (0x10000 + (u.toNat - 0xd800) * 0x400 + (v.toNat - 0xdc00) - 0x10000) /
      0x400 = u.toNat := by
    omega
  have hsecond : 0xdc00 + (0x10000 + (u.toNat - 0xd800) * 0x400 + (v.toNat - 0xdc00) - 0x10000) %
      0x400 = v.toNat := by
    omega
  rw [charUnits, combine, toNat_ofNat_char hvalid, if_neg (by omega), hfirst, hsecond,
    UInt16.ofNat_toNat, UInt16.ofNat_toNat]

theorem flatMap_charUnits_of_characters {cs : List Char} (h : characters us = some cs) :
    cs.flatMap charUnits = us := by
  fun_induction characters us generalizing cs with
  | case1 =>
    cases h
    rfl
  | case2 u hhigh v rest hlow ih =>
    obtain ⟨more, hmore, rfl⟩ := Option.map_eq_some_iff.mp h
    rw [List.flatMap_cons, charUnits_combine hhigh hlow, ih hmore]
    rfl
  | case6 u rest hhigh hlow ih =>
    obtain ⟨more, hmore, rfl⟩ := Option.map_eq_some_iff.mp h
    rw [List.flatMap_cons, charUnits_ofNat hhigh hlow, ih hmore]
    rfl
  | case3 | case4 | case5 => cases h

theorem characters_eq_some_iff {cs : List Char} :
    characters us = some cs ↔ cs.flatMap charUnits = us := by
  refine ⟨flatMap_charUnits_of_characters, ?_⟩
  rintro rfl
  exact characters_flatMap_charUnits cs

/-- Units are those of a text exactly if the surrogates among them stand in pairs. -/
theorem exists_characters_iff : (∃ cs, characters us = some cs) ↔ Paired us := by
  fun_induction characters us with
  | case1 => exact iff_of_true ⟨[], rfl⟩ paired_nil
  | case2 u hhigh v rest hlow ih =>
    change _ ↔ Paired ([u, v] ++ rest)
    rw [(paired_pair hhigh hlow).append_iff, ← ih]
    simp
  | case3 u hhigh v rest hlow =>
    refine iff_of_false (by simp) fun h => ?_
    obtain ⟨w, hw, hdown⟩ := h.followed 0 u rfl hhigh
    cases hw
    exact hlow hdown
  | case4 u hhigh =>
    refine iff_of_false (by simp) fun h => ?_
    obtain ⟨w, hw, -⟩ := h.followed 0 u rfl hhigh
    cases hw
  | case5 u rest hhigh hlow =>
    refine iff_of_false (by simp) fun h => ?_
    obtain ⟨j, -, hj, -⟩ := h.preceded 0 u rfl hlow
    cases hj
  | case6 u rest hhigh hlow ih =>
    change _ ↔ Paired ([u] ++ rest)
    rw [(paired_single hhigh hlow).append_iff, ← ih]
    simp

theorem decode?_eq_some_iff {bytes : List UInt8} {text : String} :
    decode? bytes = some text ↔ SpellsAll bytes (utf16 text) := by
  rw [decode?_eq, Option.map_eq_some_iff]
  constructor
  · rintro ⟨cs, hcs, rfl⟩
    obtain ⟨us, hus, hcs⟩ := Option.bind_eq_some_iff.mp hcs
    rw [utf16, String.toList_ofList, characters_eq_some_iff.mp hcs]
    exact units_eq_some_iff.mp hus
  · intro h
    refine ⟨text.toList, ?_, String.ofList_toList⟩
    rw [units_eq_some_iff.mpr h, Option.bind_some]
    exact characters_eq_some_iff.mpr rfl

theorem exists_decode?_iff {bytes : List UInt8} :
    (∃ text, decode? bytes = some text) ↔ ∃ us, SpellsAll bytes us ∧ Paired us := by
  constructor
  · rintro ⟨text, h⟩
    exact ⟨utf16 text, decode?_eq_some_iff.mp h,
      exists_characters_iff.mp ⟨text.toList, characters_eq_some_iff.mpr rfl⟩⟩
  · rintro ⟨us, hspells, hpaired⟩
    obtain ⟨cs, hcs⟩ := exists_characters_iff.mpr hpaired
    refine ⟨String.ofList cs, decode?_eq_some_iff.mpr ?_⟩
    rwa [utf16, String.toList_ofList, characters_eq_some_iff.mp hcs]

theorem SpellsAll.unique {bytes : List UInt8} {us us' : List UInt16} (h : SpellsAll bytes us)
    (h' : SpellsAll bytes us') : us = us' := by
  rw [← units_eq_some_iff] at h h'
  exact Option.some.inj (h.symm.trans h')

end Text.ModifiedUtf8

namespace ClassFile

open Text.ModifiedUtf8

theorem textOfBytes_eq_ok_iff {bytes : List UInt8} {text : String} :
    textOfBytes bytes = .ok text ↔ decode? bytes = some text := by
  rw [textOfBytes]
  cases decode? bytes with
  | none => simp
  | some s => simp

/-- Bytes are a text exactly if they fall into forms of units among which the surrogates stand in
pairs. The text is then the one of these units, and all other bytes are given back as they are. -/
theorem textOfBytes_accepts_paired (bytes : List UInt8) :
    ((∃ text, textOfBytes bytes = .ok text) ↔ ∃ us, SpellsAll bytes us ∧ Paired us) ∧
    (∀ us text, SpellsAll bytes us → (textOfBytes bytes = .ok text ↔ utf16 text = us)) ∧
    ((¬∃ us, SpellsAll bytes us ∧ Paired us) → textOfBytes bytes = .error (.utf8 bytes)) := by
  simp only [textOfBytes_eq_ok_iff]
  refine ⟨exists_decode?_iff, fun us text hspells => ?_, fun hnot => ?_⟩
  · rw [decode?_eq_some_iff]
    constructor
    · intro h
      exact h.unique hspells
    · rintro rfl
      exact hspells
  · have hnone : decode? bytes = none := by
      rw [Option.eq_none_iff_forall_ne_some]
      exact fun text htext => hnot (exists_decode?_iff.mp ⟨text, htext⟩)
    rw [textOfBytes, hnone]

/-- A pair of surrogates is one character, and its first half alone is none. -/
theorem textOfBytes_accepts_paired_smiley :
    textOfBytes [0x41, 0xed, 0xa0, 0xbd, 0xed, 0xb8, 0x80] = .ok "A😀" ∧
      textOfBytes [0x41, 0xed, 0xa0, 0xbd] = .error (.utf8 [0x41, 0xed, 0xa0, 0xbd]) := by
  refine ⟨((textOfBytes_accepts_paired _).2.1 [0x41, 0xd83d, 0xde00] "A😀" ?_).mpr (by decide),
    (textOfBytes_accepts_paired _).2.2 ?_⟩
  · exact units_eq_some_iff.mp (by decide)
  · rintro ⟨us, hspells, hpaired⟩
    obtain rfl : us = [0x41, 0xd83d] := hspells.unique (units_eq_some_iff.mp (by decide))
    obtain ⟨v, hv, -⟩ := hpaired.followed 1 0xd83d rfl (by decide)
    cases hv

end ClassFile

end ClassDeps
