import ClassDeps.Text.ModifiedUtf8

namespace ClassDeps.Text.ModifiedUtf8

/-- One UTF-16 unit in its shortest form, with zero in two bytes. -/
def unitBytes (u : UInt16) : List UInt8 :=
  if 0 < u ∧ u < 0x80 then [UInt8.ofNat u.toNat]
  else if u < 0x800 then
    [UInt8.ofNat (0xc0 + u.toNat / 64), UInt8.ofNat (0x80 + u.toNat % 64)]
  else
    [UInt8.ofNat (0xe0 + u.toNat / 4096), UInt8.ofNat (0x80 + u.toNat / 64 % 64),
     UInt8.ofNat (0x80 + u.toNat % 64)]

/-- A character as one unit, or as a pair of surrogates beyond the basic plane. -/
def charUnits (c : Char) : List UInt16 :=
  if c.toNat < 0x10000 then [UInt16.ofNat c.toNat]
  else
    [UInt16.ofNat (0xd800 + (c.toNat - 0x10000) / 0x400),
     UInt16.ofNat (0xdc00 + (c.toNat - 0x10000) % 0x400)]

def encode (s : String) : List UInt8 :=
  (s.toList.flatMap charUnits).flatMap unitBytes

theorem toNat_ofNat_byte {n : Nat} (h : n < 0x100) : (UInt8.ofNat n).toNat = n := by
  rw [UInt8.toNat_ofNat']
  omega

theorem between_iff {low high : UInt8} {n : Nat} (h : n < 0x100) :
    (decide (low ≤ UInt8.ofNat n) && decide (UInt8.ofNat n ≤ high)) = true ↔
      low.toNat ≤ n ∧ n ≤ high.toNat := by
  rw [Bool.and_eq_true, decide_eq_true_iff, decide_eq_true_iff, UInt8.le_iff_toNat_le,
    UInt8.le_iff_toNat_le, toNat_ofNat_byte h]

theorem isContinuation_ofNat (n : Nat) : isContinuation (UInt8.ofNat (0x80 + n % 64)) = true := by
  rw [isContinuation, between_iff (by omega)]
  show 0x80 ≤ _ ∧ _ ≤ 0xbf
  omega

theorem payload_ofNat (n : Nat) : payload (UInt8.ofNat (0x80 + n % 64)) = n % 64 := by
  rw [payload, toNat_ofNat_byte (by omega)]
  omega

theorem units_one {n : Nat} (hpos : 0 < n) (hlt : n < 0x80) (rest : List UInt8) :
    units (UInt8.ofNat n :: rest) = (units rest).map (UInt16.ofNat n :: ·) := by
  have hunit : (UInt8.ofNat n).toUInt16 = UInt16.ofNat n := by
    apply UInt16.toNat_inj.mp
    rw [UInt8.toNat_toUInt16, toNat_ofNat_byte (by omega), UInt16.toNat_ofNat']
    omega
  rw [units.eq_def]
  simp only
  rw [if_pos ((between_iff (by omega)).mpr ⟨hpos, Nat.le_of_lt_succ hlt⟩), hunit]

theorem units_two {high : Nat} (hlt : high < 32) (low : Nat) (rest : List UInt8) :
    units (UInt8.ofNat (0xc0 + high) :: UInt8.ofNat (0x80 + low % 64) :: rest) =
      (units rest).map (UInt16.ofNat (high * 64 + low % 64) :: ·) := by
  have hone : ¬((0x01 : UInt8).toNat ≤ 0xc0 + high ∧ 0xc0 + high ≤ (0x7f : UInt8).toNat) := by
    show ¬(1 ≤ _ ∧ _ ≤ 127)
    omega
  have htwo : (0xc0 : UInt8).toNat ≤ 0xc0 + high ∧ 0xc0 + high ≤ (0xdf : UInt8).toNat := by
    show 192 ≤ _ ∧ _ ≤ 223
    omega
  have hlead : (UInt8.ofNat (0xc0 + high)).toNat % 32 = high := by
    rw [toNat_ofNat_byte (by omega)]
    omega
  rw [units, if_neg (by rwa [between_iff (by omega)]), if_pos ((between_iff (by omega)).mpr htwo)]
  simp only [isContinuation_ofNat, payload_ofNat, if_true, hlead]

theorem units_three {high : Nat} (hlt : high < 16) (middle low : Nat) (rest : List UInt8) :
    units (UInt8.ofNat (0xe0 + high) :: UInt8.ofNat (0x80 + middle % 64) ::
        UInt8.ofNat (0x80 + low % 64) :: rest) =
      (units rest).map (UInt16.ofNat (high * 4096 + middle % 64 * 64 + low % 64) :: ·) := by
  have hone : ¬((0x01 : UInt8).toNat ≤ 0xe0 + high ∧ 0xe0 + high ≤ (0x7f : UInt8).toNat) := by
    show ¬(1 ≤ _ ∧ _ ≤ 127)
    omega
  have htwo : ¬((0xc0 : UInt8).toNat ≤ 0xe0 + high ∧ 0xe0 + high ≤ (0xdf : UInt8).toNat) := by
    show ¬(192 ≤ _ ∧ _ ≤ 223)
    omega
  have hthree : (0xe0 : UInt8).toNat ≤ 0xe0 + high ∧ 0xe0 + high ≤ (0xef : UInt8).toNat := by
    show 224 ≤ _ ∧ _ ≤ 239
    omega
  have hlead : (UInt8.ofNat (0xe0 + high)).toNat % 16 = high := by
    rw [toNat_ofNat_byte (by omega)]
    omega
  rw [units, if_neg (by rwa [between_iff (by omega)]), if_neg (by rwa [between_iff (by omega)]),
    if_pos ((between_iff (by omega)).mpr hthree)]
  simp only [isContinuation_ofNat, payload_ofNat, Bool.and_self, if_true, hlead]

theorem units_unitBytes_append (u : UInt16) (rest : List UInt8) :
    units (unitBytes u ++ rest) = (units rest).map (u :: ·) := by
  have hu := u.toNat_lt
  rw [unitBytes]
  split
  · rename_i hone
    have hpos : 0 < u.toNat := UInt16.lt_iff_toNat_lt.mp hone.1
    have hlt : u.toNat < 0x80 := UInt16.lt_iff_toNat_lt.mp hone.2
    rw [List.singleton_append, units_one hpos hlt, UInt16.ofNat_toNat]
  · split
    · rename_i htwo
      have hlt : u.toNat < 0x800 := UInt16.lt_iff_toNat_lt.mp htwo
      have hvalue : u.toNat / 64 * 64 + u.toNat % 64 = u.toNat := by omega
      rw [List.cons_append, List.singleton_append, units_two (by omega), hvalue,
        UInt16.ofNat_toNat]
    · have hvalue : u.toNat / 4096 * 4096 + u.toNat / 64 % 64 * 64 + u.toNat % 64 = u.toNat := by
        omega
      rw [List.cons_append, List.cons_append, List.singleton_append, units_three (by omega), hvalue,
        UInt16.ofNat_toNat]

theorem units_flatMap_unitBytes (us : List UInt16) : units (us.flatMap unitBytes) = some us := by
  induction us with
  | nil => rfl
  | cons u us ih => rw [List.flatMap_cons, units_unitBytes_append, ih, Option.map_some]

theorem toNat_ofNat_unit {n : Nat} (h : n < 0x10000) : (UInt16.ofNat n).toNat = n := by
  rw [UInt16.toNat_ofNat']
  omega

theorem isHighSurrogate_ofNat {n : Nat} (h : n < 0x10000) :
    isHighSurrogate (UInt16.ofNat n) = true ↔ 0xd800 ≤ n ∧ n ≤ 0xdbff := by
  rw [isHighSurrogate, Bool.and_eq_true, decide_eq_true_iff, decide_eq_true_iff,
    UInt16.le_iff_toNat_le, UInt16.le_iff_toNat_le, toNat_ofNat_unit h]
  exact Iff.rfl

theorem isLowSurrogate_ofNat {n : Nat} (h : n < 0x10000) :
    isLowSurrogate (UInt16.ofNat n) = true ↔ 0xdc00 ≤ n ∧ n ≤ 0xdfff := by
  rw [isLowSurrogate, Bool.and_eq_true, decide_eq_true_iff, decide_eq_true_iff,
    UInt16.le_iff_toNat_le, UInt16.le_iff_toNat_le, toNat_ofNat_unit h]
  exact Iff.rfl

theorem characters_charUnits_append (c : Char) (rest : List UInt16) :
    characters (charUnits c ++ rest) = (characters rest).map (c :: ·) := by
  -- A character is never itself a surrogate.
  have hvalid : c.toNat < 0xd800 ∨ 0xdfff < c.toNat ∧ c.toNat < 0x110000 := c.valid
  rw [charUnits]
  split
  · rename_i hbasic
    rw [List.singleton_append, characters.eq_def]
    simp only
    rw [if_neg (by rw [isHighSurrogate_ofNat hbasic]; omega),
      if_neg (by rw [isLowSurrogate_ofNat hbasic]; omega), toNat_ofNat_unit hbasic,
      Char.ofNat_toNat]
  · have hhigh : 0xd800 + (c.toNat - 0x10000) / 0x400 < 0x10000 := by omega
    have hlow : 0xdc00 + (c.toNat - 0x10000) % 0x400 < 0x10000 := by omega
    have hvalue : 0x10000 + (0xd800 + (c.toNat - 0x10000) / 0x400 - 0xd800) * 0x400 +
        (0xdc00 + (c.toNat - 0x10000) % 0x400 - 0xdc00) = c.toNat := by
      omega
    have hpair : combine (UInt16.ofNat (0xd800 + (c.toNat - 0x10000) / 0x400))
        (UInt16.ofNat (0xdc00 + (c.toNat - 0x10000) % 0x400)) = c := by
      rw [combine, toNat_ofNat_unit hhigh, toNat_ofNat_unit hlow, hvalue, Char.ofNat_toNat]
    rw [List.cons_append, List.singleton_append, characters,
      if_pos ((isHighSurrogate_ofNat hhigh).mpr (by omega))]
    simp only [(isLowSurrogate_ofNat hlow).mpr (by omega), if_true, hpair]

theorem characters_flatMap_charUnits (cs : List Char) :
    characters (cs.flatMap charUnits) = some cs := by
  induction cs with
  | nil => rfl
  | cons c cs ih => rw [List.flatMap_cons, characters_charUnits_append, ih, Option.map_some]

/-- A byte that is a unit of its own is also a character of its own. -/
theorem characters_map_plain {bytes : List UInt8}
    (h : bytes.all fun b => 0x01 ≤ b && b ≤ 0x7f) :
    units bytes = some (bytes.map UInt8.toUInt16) ∧
      characters (bytes.map UInt8.toUInt16) = some (bytes.map fun b => Char.ofNat b.toNat) := by
  induction bytes with
  | nil => exact ⟨rfl, rfl⟩
  | cons b bytes ih =>
    rw [List.all_cons, Bool.and_eq_true] at h
    obtain ⟨hunits, hcharacters⟩ := ih h.2
    have hplain : b.toNat ≤ 0x7f := by
      rw [Bool.and_eq_true, decide_eq_true_iff, decide_eq_true_iff] at h
      exact UInt8.le_iff_toNat_le.mp h.1.2
    constructor
    · rw [units.eq_def]
      simp only
      rw [if_pos h.1, hunits, Option.map_some, List.map_cons]
    · have hunit : b.toUInt16 = UInt16.ofNat b.toNat := by
        rw [← UInt8.toNat_toUInt16, UInt16.ofNat_toNat]
      have hlt : b.toNat < 0x10000 := by omega
      rw [List.map_cons, characters.eq_def]
      simp only
      rw [hunit, if_neg (by rw [isHighSurrogate_ofNat hlt]; omega),
        if_neg (by rw [isLowSurrogate_ofNat hlt]; omega), hcharacters, toNat_ofNat_unit hlt,
        Option.map_some, List.map_cons]

/-- Plain bytes are no exception: every text is read unit by unit. -/
theorem decode?_eq (bytes : List UInt8) :
    decode? bytes = ((units bytes).bind characters).map String.ofList := by
  rw [decode?]
  split
  · rename_i hplain
    obtain ⟨hunits, hcharacters⟩ := characters_map_plain hplain
    rw [hunits, Option.bind_some, hcharacters, Option.map_some]
  · cases units bytes with
    | none => rfl
    | some us => cases hus : characters us <;> simp [hus]

/-- Every text is read back from its bytes. -/
theorem decode?_encode (s : String) : decode? (encode s) = some s := by
  rw [decode?_eq, encode, units_flatMap_unitBytes, Option.bind_some, characters_flatMap_charUnits,
    Option.map_some, String.ofList_toList]

/-- The number of a unit from 0x800 on in three bytes. -/
def threeBytes (n : Nat) : List UInt8 :=
  [UInt8.ofNat (0xe0 + n / 4096), UInt8.ofNat (0x80 + n / 64 % 64), UInt8.ofNat (0x80 + n % 64)]

/-- A character by its code point: in one to three bytes by size, but zero in two, and beyond the
basic plane in three for either half of a surrogate pair. -/
def charBytes (c : Char) : List UInt8 :=
  if c.toNat = 0 then [0xc0, 0x80]
  else if c.toNat < 0x80 then [UInt8.ofNat c.toNat]
  else if c.toNat < 0x800 then
    [UInt8.ofNat (0xc0 + c.toNat / 64), UInt8.ofNat (0x80 + c.toNat % 64)]
  else if c.toNat < 0x10000 then threeBytes c.toNat
  else
    threeBytes (0xd800 + (c.toNat - 0x10000) / 0x400) ++
      threeBytes (0xdc00 + (c.toNat - 0x10000) % 0x400)

theorem unitBytes_ofNat {n : Nat} (h : n < 0x10000) : unitBytes (UInt16.ofNat n) =
    if 0 < n ∧ n < 0x80 then [UInt8.ofNat n]
    else if n < 0x800 then [UInt8.ofNat (0xc0 + n / 64), UInt8.ofNat (0x80 + n % 64)]
    else threeBytes n := by
  simp only [unitBytes, UInt16.lt_iff_toNat_lt, toNat_ofNat_unit h]
  rfl

theorem unitBytes_of_large {n : Nat} (hge : 0x800 ≤ n) (hlt : n < 0x10000) :
    unitBytes (UInt16.ofNat n) = threeBytes n := by
  rw [unitBytes_ofNat hlt, if_neg (by omega), if_neg (by omega)]

/-- The bytes of a character are those of its units. -/
theorem flatMap_unitBytes_charUnits (c : Char) :
    (charUnits c).flatMap unitBytes = charBytes c := by
  have hvalid : c.toNat < 0xd800 ∨ 0xdfff < c.toNat ∧ c.toNat < 0x110000 := c.valid
  rw [charUnits, charBytes]
  by_cases hbasic : c.toNat < 0x10000
  · rw [if_pos hbasic, List.flatMap_singleton, unitBytes_ofNat hbasic]
    by_cases hzero : c.toNat = 0
    · rw [if_pos hzero, hzero]
      rfl
    · rw [if_neg hzero, if_pos hbasic]
      simp only [Nat.pos_of_ne_zero hzero, true_and]
  · rw [if_neg hbasic, if_neg (by omega), if_neg (by omega), if_neg (by omega), if_neg hbasic,
      List.flatMap_cons, List.flatMap_singleton, unitBytes_of_large (by omega) (by omega),
      unitBytes_of_large (by omega) (by omega)]

/-- Decoding undoes the encoding of a text character by character. -/
theorem decode_flatMap_charBytes (s : String) :
    decode? (s.toList.flatMap charBytes) = some s := by
  have hencode : encode s = s.toList.flatMap charBytes := by
    simp only [encode, List.flatMap_assoc, flatMap_unitBytes_charUnits]
  rw [← hencode, decode?_encode]

end ClassDeps.Text.ModifiedUtf8
