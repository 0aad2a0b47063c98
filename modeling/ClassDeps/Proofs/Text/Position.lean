import ClassDeps.Proofs.Text.ByteOrder

namespace ClassDeps.Text

/-- The byte of a character that takes only one. -/
def asciiByte (c : Char) : UInt8 :=
  UInt8.ofNat c.toNat

def IsAscii (c : Char) : Prop :=
  c.toNat < 128

instance : DecidablePred IsAscii :=
  fun c => inferInstanceAs (Decidable (c.toNat < 128))

def AreAscii (cs : List Char) : Prop :=
  ∀ c ∈ cs, IsAscii c

-- Characters are finitely many, but only those of the list are to be tried.
instance : DecidablePred AreAscii :=
  fun cs => List.decidableBAll IsAscii cs

/-- The part of a text from `start` to `stop`, if neither lies inside a character. -/
def slice? (text : String) (start stop : Nat) : Option String :=
  if h : String.Pos.Raw.IsValid text ⟨start⟩ ∧ String.Pos.Raw.IsValid text ⟨stop⟩ ∧
      start ≤ stop then
    some (text.extract ⟨⟨start⟩, h.1⟩ ⟨⟨stop⟩, h.2.1⟩)
  else none

/-- The byte at `pos` is that of one of the characters. -/
def nextIn (text : String) (cs : List Char) (pos : Nat) : Bool :=
  (utf8 text)[pos]?.any (cs.map asciiByte).contains

theorem toNat_of_mem_utf8EncodeChar {b : UInt8} {c : Char} (h : b ∈ String.utf8EncodeChar c)
    (hb : b.toNat < 128) : b.toNat = c.toNat := by
  have hval : c.val.toNat = c.toNat := rfl
  simp only [String.utf8EncodeChar, hval] at h
  split_ifs at h
  all_goals
    simp only [List.mem_cons, List.not_mem_nil, or_false] at h
  · rw [h, UInt8.toNat_ofNat']
    omega
  · rcases h with rfl | rfl <;> rw [UInt8.toNat_ofNat'] at hb <;> omega
  · rcases h with rfl | rfl | rfl <;> rw [UInt8.toNat_ofNat'] at hb <;> omega
  · rcases h with rfl | rfl | rfl | rfl <;> rw [UInt8.toNat_ofNat'] at hb <;> omega

theorem toNat_asciiByte {c : Char} (h : IsAscii c) : (asciiByte c).toNat = c.toNat := by
  rw [asciiByte, UInt8.toNat_ofNat', Nat.mod_eq_of_lt (by rw [IsAscii] at h; omega)]

theorem utf8EncodeChar_of_isAscii {c : Char} (h : IsAscii c) :
    String.utf8EncodeChar c = [asciiByte c] := by
  have hval : c.val.toNat = c.toNat := rfl
  rw [IsAscii] at h
  rw [String.utf8EncodeChar, hval, if_pos (by omega)]
  rfl

/-- The byte of `a` occurs in no other character. -/
theorem asciiByte_mem_utf8EncodeChar_iff {a c : Char} (h : IsAscii a) :
    asciiByte a ∈ String.utf8EncodeChar c ↔ c = a := by
  constructor
  · intro hmem
    have hnat := toNat_of_mem_utf8EncodeChar hmem (by rw [toNat_asciiByte h]; exact h)
    rw [toNat_asciiByte h] at hnat
    exact Char.toNat_inj.mp hnat.symm
  · rintro rfl
    rw [utf8EncodeChar_of_isAscii h]
    exact List.mem_singleton_self _

theorem takeWhile_utf8EncodeChar {stops : List Char} (hstops : AreAscii stops)
    (cs : List Char) :
    (cs.flatMap String.utf8EncodeChar).takeWhile (!(stops.map asciiByte).contains ·) =
      (cs.takeWhile (!stops.contains ·)).flatMap String.utf8EncodeChar := by
  induction cs with
  | nil => rfl
  | cons c cs ih =>
    by_cases hc : c ∈ stops
    · have hbyte : asciiByte c ∈ stops.map asciiByte := List.mem_map_of_mem hc
      rw [List.flatMap_cons, utf8EncodeChar_of_isAscii (hstops c hc), List.singleton_append,
        List.takeWhile_cons_of_neg (by simpa using hbyte),
        List.takeWhile_cons_of_neg (by simpa using hc)]
      rfl
    · rw [List.flatMap_cons, List.takeWhile_append_of_pos, ih,
        List.takeWhile_cons_of_pos (by simpa using hc), List.flatMap_cons]
      intro b hb
      have hnot : b ∉ stops.map asciiByte := by
        intro hmem
        obtain ⟨a, ha, rfl⟩ := List.mem_map.mp hmem
        rw [asciiByte_mem_utf8EncodeChar_iff (hstops a ha)] at hb
        exact hc (hb ▸ ha)
      simpa using hnot

/-- The characters from position `pos` on are `cs`. -/
def StartsAt (text : String) (pos : Nat) (cs : List Char) : Prop :=
  ∃ front, text.toList = front ++ cs ∧ pos = (front.flatMap String.utf8EncodeChar).length

namespace StartsAt

variable {text : String} {pos : Nat} {c : Char} {own cs : List Char}

theorem zero (text : String) : StartsAt text 0 text.toList :=
  ⟨[], rfl, rfl⟩

theorem drop_utf8 (h : StartsAt text pos cs) :
    (utf8 text).drop pos = cs.flatMap String.utf8EncodeChar := by
  obtain ⟨front, htext, rfl⟩ := h
  rw [utf8_eq, htext, List.flatMap_append, List.drop_left]

theorem append (h : StartsAt text pos (own ++ cs)) :
    StartsAt text (pos + (own.flatMap String.utf8EncodeChar).length) cs := by
  obtain ⟨front, htext, rfl⟩ := h
  refine ⟨front ++ own, by rw [htext, List.append_assoc], ?_⟩
  rw [List.flatMap_append, List.length_append]

theorem succ (h : StartsAt text pos (c :: cs)) (hc : IsAscii c) : StartsAt text (pos + 1) cs := by
  have hsplit : StartsAt text pos ([c] ++ cs) := h
  have hnext := hsplit.append
  rwa [List.flatMap_singleton, utf8EncodeChar_of_isAscii hc] at hnext

theorem isValid (h : StartsAt text pos cs) : String.Pos.Raw.IsValid text ⟨pos⟩ := by
  obtain ⟨front, htext, rfl⟩ := h
  rw [String.Pos.Raw.isValid_iff_exists_append]
  refine ⟨String.ofList front, String.ofList cs, ?_, ?_⟩
  · rw [← String.ofList_append, ← htext, String.ofList_toList]
  · apply String.Pos.Raw.ext
    rw [String.byteIdx_rawEndPos, ← String.size_toByteArray, String.toByteArray_ofList,
      List.utf8Encode, List.size_toByteArray]

theorem getElem?_utf8 (h : StartsAt text pos cs) :
    (utf8 text)[pos]? = (cs.flatMap String.utf8EncodeChar).head? := by
  rw [← h.drop_utf8, List.head?_drop]

theorem nextIn_nil (h : StartsAt text pos []) (stops : List Char) :
    nextIn text stops pos = false := by
  rw [nextIn, h.getElem?_utf8]
  rfl

theorem nextIn_cons (h : StartsAt text pos (c :: cs)) {stops : List Char}
    (hstops : AreAscii stops) : nextIn text stops pos = stops.contains c := by
  have hmem : ∀ b tail, String.utf8EncodeChar c = b :: tail →
      (b ∈ stops.map asciiByte ↔ c ∈ stops) := by
    intro b tail hbytes
    constructor
    · intro hb
      obtain ⟨a, ha, rfl⟩ := List.mem_map.mp hb
      have hin : asciiByte a ∈ String.utf8EncodeChar c := by rw [hbytes]; exact List.mem_cons_self
      rwa [(asciiByte_mem_utf8EncodeChar_iff (hstops a ha)).mp hin]
    · intro hc
      rw [utf8EncodeChar_of_isAscii (hstops c hc)] at hbytes
      rw [← List.head_eq_of_cons_eq hbytes]
      exact List.mem_map_of_mem hc
  rw [nextIn, h.getElem?_utf8, List.flatMap_cons, utf8EncodeChar_eq, List.cons_append,
    List.head?_cons, Option.any_some, Bool.eq_iff_iff, List.contains_iff_mem, List.contains_iff_mem]
  exact hmem _ _ (utf8EncodeChar_eq c)

theorem slice?_eq (h : StartsAt text pos (own ++ cs)) :
    slice? text pos (pos + (own.flatMap String.utf8EncodeChar).length) =
      some (String.ofList own) := by
  have hbytes : (utf8 text).drop pos = own.flatMap String.utf8EncodeChar ++
      cs.flatMap String.utf8EncodeChar := by
    rw [h.drop_utf8, List.flatMap_append]
  rw [slice?, dif_pos ⟨h.isValid, h.append.isValid, Nat.le_add_right ..⟩, Option.some.injEq,
    ← String.toByteArray_inj, String.toByteArray_extract, String.toByteArray_ofList]
  apply ByteArray.ext
  rw [← Array.toList_inj, ByteArray.data_extract, Array.toList_extract, List.extract_eq_take_drop,
    Nat.add_sub_cancel_left, List.utf8Encode, List.data_toByteArray]
  show ((utf8 text).drop pos).take _ = _
  rw [hbytes, List.take_left]

end StartsAt

end ClassDeps.Text
