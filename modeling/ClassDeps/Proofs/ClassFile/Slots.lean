import ClassDeps.Proofs.ClassFile.Outline

namespace ClassDeps.ClassFile

theorem Constant.width_eq_two_iff {k : Constant} :
    k.width = 2 ↔ (∃ value, k = .long value) ∨ ∃ bits, k = .double bits := by
  cases k <;> simp [width]

namespace ConstantPool

variable {constants : List Constant} {pool : ConstantPool} {n : Nat} {i : UInt16} {k : Constant}

theorem size_ofConstants (constants : List Constant) :
    (ofConstants constants).size = width constants :=
  length_flatMap_slots constants

theorem getElem?_flatMap_slots_zero (constants : List Constant) :
    (constants.flatMap Constant.slots)[0]? ≠ some none := by
  cases constants with
  | nil => simp
  | cons c rest => simp [Constant.slots]

/-- A slot is empty if the constant before it takes two. -/
theorem getElem?_flatMap_slots_succ (constants : List Constant) (n : Nat) :
    (constants.flatMap Constant.slots)[n + 1]? = some none ↔
      ∃ k, (constants.flatMap Constant.slots)[n]? = some (some k) ∧ k.width = 2 := by
  induction constants generalizing n with
  | nil => simp
  | cons c rest ih =>
    have hfirst := getElem?_flatMap_slots_zero rest
    rw [List.flatMap_cons]
    rcases c.width_eq with hone | htwo
    · have hslots : c.slots = [some c] := by rw [Constant.slots, hone, List.replicate_zero]
      rw [hslots, List.singleton_append, List.getElem?_cons_succ]
      cases n with
      | zero => simp [hfirst, hone]
      | succ n => rw [ih, List.getElem?_cons_succ]
    · have hslots : c.slots = [some c, none] := by rw [Constant.slots, htwo]; rfl
      rw [hslots, List.cons_append, List.singleton_append, List.getElem?_cons_succ]
      cases n with
      | zero => simp [htwo]
      | succ n =>
        rw [List.getElem?_cons_succ, List.getElem?_cons_succ]
        cases n with
        | zero => simp [hfirst]
        | succ n => rw [ih, List.getElem?_cons_succ]

/-- The constants take the first `n` slots, and each of them starts there. -/
structure Fills (n : Nat) (constants : List Constant) : Prop where
  covers : n ≤ width constants
  starts : ∀ front k back, constants = front ++ k :: back → width front < n

theorem Fills.nil : Fills 0 [] where
  covers := Nat.le_refl 0
  starts _ _ _ h := absurd h (by simp)

/-- A constant leaves the slots after its own to the others. -/
theorem Fills.cons (h : Fills (n + 1 - k.width) constants) : Fills (n + 1) (k :: constants) where
  covers := by
    have := h.covers
    rw [width]
    omega
  starts front k' back heq := by
    cases front with
    | nil => exact Nat.succ_pos n
    | cons first front =>
      obtain ⟨rfl, hrest⟩ := List.cons.inj heq
      have := h.starts front k' back hrest
      rw [width]
      omega

/-- Only the last constant can reach past the slots, and only by one. -/
theorem Fills.width_eq (h : Fills n constants) : width constants = n ∨
    width constants = n + 1 ∧ ∃ front k, constants = front ++ [k] ∧ k.width = 2 := by
  have hcovers := h.covers
  rcases List.eq_nil_or_concat constants with rfl | ⟨front, k, rfl⟩
  · exact .inl (Nat.le_zero.mp hcovers).symm
  · rw [List.concat_eq_append] at h hcovers ⊢
    have hstart := h.starts front k [] rfl
    have hwidth : width (front ++ [k]) = width front + k.width := width_append front [k]
    rcases k.width_eq with hone | htwo
    · exact .inl (by omega)
    · rcases Nat.lt_or_eq_of_le hcovers with hlt | heq
      · exact .inr ⟨by omega, front, k, rfl, htwo⟩
      · exact .inl heq.symm

theorem Fills.overhang_iff (h : Fills (n + 1) constants) : width constants = n + 2 ↔
    ∃ k, (constants.flatMap Constant.slots)[n]? = some (some k) ∧ k.width = 2 := by
  constructor
  · intro hwidth
    rcases h.width_eq with hexact | ⟨-, front, k, rfl, htwo⟩
    · omega
    · have hfront : width front = n := by
        have : width (front ++ [k]) = width front + k.width := width_append front [k]
        omega
      rw [← hfront]
      exact ⟨k, getElem?_flatMap_slots front [] k, htwo⟩
  · intro hlast
    -- The slot after the last is there, and it is empty.
    have hempty := (getElem?_flatMap_slots_succ constants n).mpr hlast
    have hlt : n + 1 < width constants := by
      rw [← length_flatMap_slots]
      exact (List.getElem?_eq_some_iff.mp hempty).1
    rcases h.width_eq with hexact | ⟨hover, -⟩
    · omega
    · exact hover

/-- There is nothing at zero, in an empty slot and past the end, and no other failure. -/
theorem get_eq_error_iff {e : Malformed} : pool.get i = .error e ↔ e = .index i ∧
    (i = 0 ∨ pool.slots[i.toNat - 1]? = some none ∨ pool.size < i.toNat) := by
  rw [get]
  split
  · rename_i hzero
    simp [hzero, eq_comm]
  · rename_i hpos
    have hone : 1 ≤ i.toNat := Nat.pos_of_ne_zero fun hzero => hpos (UInt16.toNat_inj.mp hzero)
    have hend : pool.slots[i.toNat - 1]? = none ↔ pool.size < i.toNat := by
      rw [Array.getElem?_eq_none_iff, size]
      omega
    rw [← hend]
    cases hslot : pool.slots[i.toNat - 1]? with
    | none => simp [hpos, eq_comm]
    | some slot => cases slot <;> simp [hpos, eq_comm]

/-- With more slots, indices would repeat. -/
theorem get_eq_ok_iff_mem_entries (h : pool.size ≤ 65535) :
    pool.get i = .ok k ↔ (i, k) ∈ pool.entries := by
  constructor
  · exact mem_entries
  · intro hmem
    obtain ⟨⟨slot, n⟩, hslot, hentry⟩ := List.mem_filterMap.mp hmem
    obtain ⟨k', rfl, hpair⟩ := Option.map_eq_some_iff.mp hentry
    obtain ⟨rfl, rfl⟩ := Prod.mk.inj hpair
    rw [List.mk_mem_zipIdx_iff_getElem?, Array.getElem?_toList] at hslot
    have hlt : n < pool.size := (Array.getElem?_eq_some_iff.mp hslot).1
    refine get_eq_ok_iff.mpr ⟨n, ?_, hslot⟩
    rw [UInt16.toNat_ofNat']
    omega

theorem pairwise_entries (h : pool.size ≤ 65535) :
    pool.entries.Pairwise fun e f => e.1 < f.1 := by
  have hpositions : (pool.slots.toList.zipIdx.map Prod.snd).Pairwise (· < ·) := by
    rw [List.zipIdx_map_snd]
    exact List.pairwise_lt_range' 1
  rw [entries, List.pairwise_filterMap]
  refine (List.pairwise_map.mp hpositions).imp_of_mem ?_
  rintro ⟨slot, m⟩ ⟨slot', n⟩ - hmem hlt e he f hf
  obtain ⟨k, -, rfl⟩ := Option.map_eq_some_iff.mp he
  obtain ⟨k', -, rfl⟩ := Option.map_eq_some_iff.mp hf
  have hn : n < pool.size := by simpa [size] using List.snd_lt_of_mem_zipIdx hmem
  simp only at hlt
  simp only [UInt16.lt_iff_toNat_lt, UInt16.toNat_ofNat']
  omega

end ConstantPool

/-- What the reading loop adds fills the slots that were left. -/
theorem Decoder.slots_eq_ok {n : Nat} {read out : Array (Option Constant)}
    {input rest : List UInt8} (h : Decoder.slots n read input = .ok (out, rest)) :
    ∃ constants, ConstantPool.Fills n constants ∧
      out = read ++ (constants.flatMap Constant.slots).toArray := by
  fun_induction Decoder.slots n read generalizing input with
  | case1 read =>
    obtain ⟨rfl, -⟩ := pure_eq_ok.mp h
    exact ⟨[], .nil, by simp⟩
  | case2 n read ihTwo ihOne =>
    obtain ⟨k, mid, -, h⟩ := bind_eq_ok.mp h
    split at h
    · rename_i htwo
      obtain ⟨constants, hfills, rfl⟩ := ihTwo k h
      exact ⟨k :: constants, .cons (by rwa [htwo]), by simp [Constant.slots, htwo]⟩
    · rename_i hone
      replace hone : k.width = 1 := k.width_eq.resolve_right hone
      obtain ⟨constants, hfills, rfl⟩ := ihOne k h
      exact ⟨k :: constants, .cons (by rwa [hone]), by simp [Constant.slots, hone]⟩

/-- The count that a class declares for its pool, which is one more than the slots are to be. -/
def declaredCount (data : List UInt8) : UInt16 :=
  UInt16.ofNat ((data.getD 8 0).toNat * 0x100 + (data.getD 9 0).toNat)

theorem declaredCount_eq (magic : UInt32) (minor major count : UInt16) (rest : List UInt8) :
    declaredCount (Encoder.u32 magic ++ (Encoder.u16 minor ++ (Encoder.u16 major ++
      (Encoder.u16 count ++ rest)))) = count :=
  Encoder.u16_value count

variable {data : List UInt8} {c : ClassFile}

/-- The pool of a class is laid out from constants that fill the declared slots. A class has a name,
so there is at least one slot. -/
theorem exists_constants_of_decode (h : decode data = .ok c) : ∃ constants last,
    (declaredCount data).toNat = last + 2 ∧ ConstantPool.Fills (last + 1) constants ∧
      c.pool = .ofConstants constants := by
  obtain ⟨o, ⟨tail, rest, rfl, hpool⟩, hread⟩ := exists_outline_of_decode h
  rw [Decoder.constantPool_eq] at hpool
  obtain ⟨count, afterCount, hcount, hpool⟩ := Decoder.bind_eq_ok.mp hpool
  obtain ⟨slots, last, hslots, hpool⟩ := Decoder.bind_eq_ok.mp hpool
  obtain ⟨hresult, -⟩ := Decoder.pure_eq_ok.mp hpool
  obtain ⟨constants, hfills, rfl⟩ := Decoder.slots_eq_ok hslots
  rw [Array.empty_append] at hresult
  obtain ⟨j, hget, -⟩ := ConstantPool.className_eq_ok_iff.mp hread.name
  rw [Decoder.u16_eq_ok.mp hcount, declaredCount_eq]
  cases constants with
  | nil =>
    rw [hresult] at hget
    obtain ⟨n, -, hslot⟩ := ConstantPool.get_eq_ok_iff.mp hget
    simp at hslot
  | cons k constants =>
    have hpos : 0 < count.toNat - 1 := hfills.starts [] k constants rfl
    refine ⟨k :: constants, count.toNat - 2, by omega, ?_, hread.pool.trans hresult⟩
    rwa [show count.toNat - 2 + 1 = count.toNat - 1 by omega]

/-- The last declared index holds a constant that takes two slots. -/
def Overhangs (data : List UInt8) (c : ClassFile) : Prop :=
  ∃ k, c.pool.get (declaredCount data - 1) = .ok k ∧ k.width = 2

/-- A decoded pool has the declared number of slots, one less than the count, unless the last of
them starts a constant of two: then it has one slot more. -/
theorem decode_pool_size (h : decode data = .ok c) :
    (¬ Overhangs data c → c.pool.size + 1 = (declaredCount data).toNat) ∧
      (Overhangs data c → c.pool.size = (declaredCount data).toNat) := by
  obtain ⟨constants, last, hcount, hfills, hpool⟩ := exists_constants_of_decode h
  have hindex : (declaredCount data - 1).toNat = last + 1 := by
    rw [UInt16.toNat_sub_of_le _ _ (UInt16.le_iff_toNat_le.mpr (by simp [hcount])), hcount]
    rfl
  have hoverhangs : Overhangs data c ↔ ConstantPool.width constants = last + 2 := by
    simp only [Overhangs, ConstantPool.get_eq_ok_iff, hindex, Nat.add_right_cancel_iff,
      exists_eq_left', hfills.overhang_iff, hpool, ConstantPool.ofConstants,
      List.getElem?_toArray]
  rw [hoverhangs, hpool, ConstantPool.size_ofConstants, hcount]
  constructor
  · intro hexact
    rw [hfills.width_eq.resolve_right fun hover => hexact hover.1]
  · exact id

/-- A class that declares five slots. The fifth starts a constant of two. -/
def overhanging : List UInt8 :=
  [0xca, 0xfe, 0xba, 0xbe, 0, 0, 0, 52, 0, 6, 1, 0, 1, 0x41, 7, 0, 1,
    5, 0, 0, 0, 0, 0, 0, 0, 7, 6, 0x3f, 0xf0, 0, 0, 0, 0, 0, 0,
    0, 0x21, 0, 2, 0, 0, 0, 0, 0, 0, 0, 0, 0, 0]

theorem overhanging_decoded : ∃ c, decode overhanging = .ok c ∧ c.pool = .ofConstants
    [.utf8 "A", .classInfo 1, .long 7, .double 0x3ff0000000000000] := by
  have hok : (decode overhanging).map (·.pool) = .ok (.ofConstants
      [.utf8 "A", .classInfo 1, .long 7, .double 0x3ff0000000000000]) := by
    decide +kernel
  exact map_eq_ok_iff.mp hok

theorem decode_pool_size_overhanging : ∃ c, decode overhanging = .ok c ∧ Overhangs overhanging c ∧
    c.pool.size = 6 ∧ c.pool.size = (declaredCount overhanging).toNat := by
  obtain ⟨c, hc, hpool⟩ := overhanging_decoded
  have hlast : Overhangs overhanging c := by
    rw [Overhangs, hpool]
    exact ⟨.double 0x3ff0000000000000, by decide, rfl⟩
  exact ⟨c, hc, hlast, by rw [hpool]; rfl, (decode_pool_size hc).2 hlast⟩

/-- A decoded pool need not have the declared number of slots. -/
theorem size_pool_ne_declared : ∃ c, decode overhanging = .ok c ∧
    1 ≤ (declaredCount overhanging).toNat ∧
    c.pool.size ≠ (declaredCount overhanging).toNat - 1 := by
  obtain ⟨c, hc, hpool⟩ := overhanging_decoded
  refine ⟨c, hc, by decide, ?_⟩
  rw [hpool]
  decide

/-- Every slot of a decoded pool has an index of two bytes, and just those after constants of two
slots are empty. The constants are listed by increasing index, each at its own place, and a lookup
finds those and nothing else. -/
theorem decode_pool_indices (h : decode data = .ok c) :
    c.pool.size ≤ 65535 ∧
    (c.pool.slots[0]? ≠ some none ∧ ∀ n, c.pool.slots[n + 1]? = some none ↔
      (∃ value, c.pool.slots[n]? = some (some (.long value))) ∨
        ∃ bits, c.pool.slots[n]? = some (some (.double bits))) ∧
    (c.pool.entries.Pairwise fun e f => e.1 < f.1) ∧
    (∀ i k, (i, k) ∈ c.pool.entries ↔
      ∃ n, i.toNat = n + 1 ∧ c.pool.slots[n]? = some (some k)) ∧
    (∀ i k, c.pool.get i = .ok k ↔ (i, k) ∈ c.pool.entries) ∧
    ∀ i e, c.pool.get i = .error e ↔ e = .index i ∧
      (i = 0 ∨ c.pool.slots[i.toNat - 1]? = some none ∨ c.pool.size < i.toNat) := by
  obtain ⟨constants, last, hcount, hfills, hpool⟩ := exists_constants_of_decode h
  have hsize : c.pool.size ≤ 65535 := by
    have hlt := (declaredCount data).toNat_lt
    rw [hpool, ConstantPool.size_ofConstants]
    rcases hfills.width_eq with hexact | ⟨hover, -⟩
    · omega
    · omega
  have hslots : ∀ n : Nat, c.pool.slots[n]? = (constants.flatMap Constant.slots)[n]? := by
    intro n
    rw [hpool, ConstantPool.ofConstants, List.getElem?_toArray]
  have hget : ∀ i k, c.pool.get i = .ok k ↔ (i, k) ∈ c.pool.entries :=
    fun i k => ConstantPool.get_eq_ok_iff_mem_entries hsize
  refine ⟨hsize, ⟨?_, ?_⟩, ConstantPool.pairwise_entries hsize, ?_, hget,
    fun i e => ConstantPool.get_eq_error_iff⟩
  · rw [hslots]
    exact ConstantPool.getElem?_flatMap_slots_zero constants
  · intro n
    rw [hslots, hslots, ConstantPool.getElem?_flatMap_slots_succ]
    simp only [Constant.width_eq_two_iff]
    constructor
    · rintro ⟨k, hk, ⟨value, rfl⟩ | ⟨bits, rfl⟩⟩
      · exact .inl ⟨value, hk⟩
      · exact .inr ⟨bits, hk⟩
    · rintro (⟨value, hk⟩ | ⟨bits, hk⟩)
      · exact ⟨_, hk, .inl ⟨value, rfl⟩⟩
      · exact ⟨_, hk, .inr ⟨bits, rfl⟩⟩
  · intro i k
    rw [← hget, ConstantPool.get_eq_ok_iff]

theorem decode_pool_indices_overhanging : ∃ c, decode overhanging = .ok c ∧
    c.pool.entries.map Prod.fst = [1, 2, 3, 5] ∧
    (∀ i k, c.pool.get i = .ok k ↔ (i, k) ∈ c.pool.entries) ∧
    c.pool.get 4 = .error (.index 4) ∧ c.pool.get 6 = .error (.index 6) := by
  obtain ⟨c, hc, hpool⟩ := overhanging_decoded
  obtain ⟨-, -, -, -, hget, herror⟩ := decode_pool_indices hc
  refine ⟨c, hc, ?_, hget, (herror 4 _).mpr ⟨rfl, ?_⟩, (herror 6 _).mpr ⟨rfl, ?_⟩⟩
  · rw [hpool]
    decide
  · rw [hpool]
    exact .inr (.inl rfl)
  · rw [hpool]
    exact .inr (.inl rfl)

end ClassDeps.ClassFile
