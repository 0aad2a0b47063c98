import Mathlib.Data.String.Basic

namespace ClassDeps.Text

def utf8 (s : String) : List UInt8 :=
  s.toUTF8.data.toList

theorem utf8_eq (s : String) : utf8 s = s.toList.flatMap String.utf8EncodeChar := by
  rw [utf8, String.toUTF8, ← String.utf8Encode_toList, List.utf8Encode, List.data_toByteArray]

/-- Bytes given as numbers compare as the numbers do. -/
theorem ofNat_cons_lt {a b : Nat} {l l' : List UInt8} (ha : a < 256) (hb : b < 256)
    (h : a < b ∨ a = b ∧ l < l') : UInt8.ofNat a :: l < UInt8.ofNat b :: l' := by
  rw [List.cons_lt_cons_iff, UInt8.ofNat_lt_iff_lt ha hb]
  rcases h with h | ⟨rfl, h⟩
  · exact .inl h
  · exact .inr ⟨rfl, h⟩

/-- How many bytes follow the first one. -/
def trailLength (v : Nat) : Nat :=
  if v ≤ 127 then 0 else if v ≤ 2047 then 1 else if v ≤ 65535 then 2 else 3

/-- The first byte, as a number. -/
def lead (v : Nat) : Nat :=
  if v ≤ 127 then v
  else if v ≤ 2047 then v / 64 % 32 + 192
  else if v ≤ 65535 then v / 4096 % 16 + 224
  else v / 262144 % 8 + 240

/-- The last `k` bytes: six bits each, the high ones first. -/
def trail : Nat → Nat → List UInt8
  | 0, _ => []
  | k + 1, v => UInt8.ofNat (v / 64 ^ k % 64 + 128) :: trail k v

theorem utf8EncodeChar_eq (c : Char) : String.utf8EncodeChar c =
    UInt8.ofNat (lead c.val.toNat) :: trail (trailLength c.val.toNat) c.val.toNat := by
  rw [String.utf8EncodeChar, lead, trailLength]
  split_ifs <;> simp only [trail, Nat.reducePow, Nat.div_one]

theorem lead_lt (v : Nat) : lead v < 256 := by
  rw [lead]
  split_ifs <;> omega

theorem lead_le {v w : Nat} (h : v < w) (hw : w < 0x110000) : lead v ≤ lead w := by
  rw [lead, lead]
  split_ifs <;> omega

/-- The first byte gives the length of the sequence and the bits that no other byte holds. -/
theorem trailLength_eq_of_lead_eq {v w : Nat} (h : v < w) (hw : w < 0x110000)
    (hlead : lead v = lead w) :
    trailLength v = trailLength w ∧ v / 64 ^ trailLength w = w / 64 ^ trailLength w := by
  rw [lead, lead] at hlead
  rw [trailLength, trailLength]
  split_ifs at hlead ⊢ <;> omega

theorem trail_append_lt {v w : Nat} (h : v < w) (l l' : List UInt8) :
    ∀ k, v / 64 ^ k = w / 64 ^ k → trail k v ++ l < trail k w ++ l'
  | 0, hk => by
    rw [Nat.pow_zero, Nat.div_one, Nat.div_one] at hk
    omega
  | k + 1, hk => by
    rw [Nat.pow_succ, ← Nat.div_div_eq_div_mul, ← Nat.div_div_eq_div_mul] at hk
    have hle : v / 64 ^ k ≤ w / 64 ^ k := Nat.div_le_div_right h.le
    apply ofNat_cons_lt (by omega) (by omega)
    rcases Nat.lt_or_eq_of_le hle with hlt | heq
    · exact .inl (by omega)
    · exact .inr ⟨by rw [heq], trail_append_lt h l l' k heq⟩

theorem utf8EncodeChar_append_lt {c d : Char} (h : c < d) (l l' : List UInt8) :
    String.utf8EncodeChar c ++ l < String.utf8EncodeChar d ++ l' := by
  have hlt : c.val.toNat < d.val.toNat := h
  have hbound : d.val.toNat < 0x110000 := by
    have hvalid := d.valid
    simp only [UInt32.isValidChar, Nat.isValidChar] at hvalid
    omega
  rw [utf8EncodeChar_eq, utf8EncodeChar_eq]
  apply ofNat_cons_lt (lead_lt _) (lead_lt _)
  rcases Nat.lt_or_eq_of_le (lead_le hlt hbound) with hlead | hlead
  · exact .inl hlead
  · obtain ⟨hlength, hhigh⟩ := trailLength_eq_of_lead_eq hlt hbound hlead
    refine .inr ⟨hlead, ?_⟩
    rw [hlength]
    exact trail_append_lt hlt l l' _ hhigh

theorem flatMap_utf8EncodeChar_lt {l l' : List Char} (h : l < l') :
    l.flatMap String.utf8EncodeChar < l'.flatMap String.utf8EncodeChar := by
  induction h with
  | nil =>
    rw [List.flatMap_cons, utf8EncodeChar_eq]
    exact List.nil_lt_cons ..
  | rel hcd => exact utf8EncodeChar_append_lt hcd ..
  | cons _ ih => exact List.append_left_lt ih

theorem lt_iff_utf8_lt {a b : String} : a < b ↔ utf8 a < utf8 b := by
  rw [String.lt_iff_toList_lt, utf8_eq, utf8_eq]
  refine ⟨flatMap_utf8EncodeChar_lt, fun h => ?_⟩
  by_contra hle
  rcases lt_or_eq_of_le (not_lt.mp hle) with hlt | heq
  · exact List.lt_asymm h (flatMap_utf8EncodeChar_lt hlt)
  · rw [heq] at h
    exact List.lt_irrefl _ h

end ClassDeps.Text
