import ClassDeps.ClassFile.ConstantPool
import ClassDeps.Proofs.ClassFile.Encoder
import ClassDeps.Proofs.Text.ModifiedUtf8
import ClassDeps.Proofs.Traverse

namespace ClassDeps.ClassFile

/-- A text constant stores the length of its bytes in two bytes. -/
def Constant.Fits : Constant → Prop
  | .utf8 text => (Text.ModifiedUtf8.encode text).length < 0x10000
  | _ => True

instance : (c : Constant) → Decidable c.Fits
  | .utf8 _ => inferInstanceAs (Decidable (_ < _))
  | .integer _ | .float _ | .long _ | .double _ | .classInfo _ | .string _ | .member _ _ _
  | .nameAndType _ _ | .methodHandle _ _ | .methodType _ | .dynamic _ _ | .invokeDynamic _ _
  | .moduleInfo _ | .packageInfo _ => isTrue trivial

/-- The slots of a constant: it stands in the first. -/
def Constant.slots (c : Constant) : List (Option Constant) :=
  some c :: List.replicate (c.width - 1) none

/-- Constants for the `n` slots that are left, put after those already read. -/
def Decoder.slots : Nat → Array (Option Constant) → Decoder (Array (Option Constant))
  | 0, read => return read
  | n + 1, read => do
    let c ← constant
    if c.width = 2 then slots (n - 1) ((read.push (some c)).push none)
    else slots n (read.push (some c))
termination_by n => n

/-- The index stops where no slots are left, also if that is past the largest index. -/
theorem Decoder.slotsFrom_eq (count index : UInt16) (read : Array (Option Constant)) :
    slotsFrom count index read = slots (count.toNat - index.toNat) read := by
  fun_induction slotsFrom count index read with
  | case1 index read hlt ih =>
    have hcount := count.toNat_lt
    rw [UInt16.lt_iff_toNat_lt] at hlt
    obtain ⟨n, hn⟩ := Nat.exists_eq_add_of_lt hlt
    rw [show count.toNat - index.toNat = n + 1 by omega, slots]
    congr 1
    funext c
    rw [ih c, toNat_advance, pushConstant]
    rcases c.width_eq with hone | htwo
    · rw [if_neg (by omega), if_neg (by omega), hone]
      congr 1
      omega
    · rw [if_pos htwo, if_pos htwo, htwo]
      congr 1
      omega
  | case2 index read hle =>
    rw [UInt16.lt_iff_toNat_lt] at hle
    rw [Nat.sub_eq_zero_of_le (Nat.le_of_not_lt hle), slots]

theorem Decoder.constantPool_eq : constantPool = (do
    let count ← u16
    return { slots := ← slots (count.toNat - 1) #[] }) := by
  simp only [constantPool, slotsFrom_eq]
  rfl

theorem Constant.length_slots (c : Constant) : c.slots.length = c.width := by
  have := c.width_eq
  rw [slots, List.length_cons, List.length_replicate]
  omega

namespace ConstantPool

/-- The number of slots that the constants take. -/
def width : List Constant → Nat
  | [] => 0
  | c :: rest => c.width + width rest

def ofConstants (constants : List Constant) : ConstantPool where
  slots := (constants.flatMap Constant.slots).toArray

theorem width_append (front back : List Constant) :
    width (front ++ back) = width front + width back := by
  induction front with
  | nil => rw [List.nil_append, width, Nat.zero_add]
  | cons c front ih => rw [List.cons_append, width, width, ih, Nat.add_assoc]

theorem length_flatMap_slots (constants : List Constant) :
    (constants.flatMap Constant.slots).length = width constants := by
  induction constants with
  | nil => rfl
  | cons c rest ih =>
    rw [List.flatMap_cons, List.length_append, c.length_slots, ih, width]

end ConstantPool

namespace Encoder

def text (s : String) : List UInt8 :=
  u16 (UInt16.ofNat (Text.ModifiedUtf8.encode s).length) ++ Text.ModifiedUtf8.encode s

def memberTag : MemberKind → UInt8
  | .field => 9
  | .method => 10
  | .interfaceMethod => 11

def constant : Constant → List UInt8
  | .utf8 s => [1] ++ text s
  | .integer value => [3] ++ u32 value.toUInt32
  | .float bits => [4] ++ u32 bits
  | .long value => [5] ++ u64 value.toUInt64
  | .double bits => [6] ++ u64 bits
  | .classInfo name => [7] ++ u16 name
  | .string text => [8] ++ u16 text
  | .member kind owner nameAndType => [memberTag kind] ++ (u16 owner ++ u16 nameAndType)
  | .nameAndType name descriptor => [12] ++ (u16 name ++ u16 descriptor)
  | .methodHandle kind reference => [15] ++ ([kind] ++ u16 reference)
  | .methodType descriptor => [16] ++ u16 descriptor
  | .dynamic bootstrap nameAndType => [17] ++ (u16 bootstrap ++ u16 nameAndType)
  | .invokeDynamic bootstrap nameAndType => [18] ++ (u16 bootstrap ++ u16 nameAndType)
  | .moduleInfo name => [19] ++ u16 name
  | .packageInfo name => [20] ++ u16 name

/-- The declared count is one more than the number of slots. -/
def constantPool (constants : List Constant) : List UInt8 :=
  u16 (UInt16.ofNat (ConstantPool.width constants + 1)) ++ constants.flatMap constant

end Encoder

theorem textOfBytes_encode (s : String) : textOfBytes (Text.ModifiedUtf8.encode s) = .ok s := by
  rw [textOfBytes, Text.ModifiedUtf8.decode?_encode]

namespace Decodes

theorem text {s : String} (h : (Text.ModifiedUtf8.encode s).length < 0x10000) :
    Decodes Decoder.text (Encoder.text s) s := by
  have hlen : (UInt16.ofNat (Text.ModifiedUtf8.encode s).length).toNat =
      (Text.ModifiedUtf8.encode s).length := by
    rw [UInt16.toNat_ofNat']
    omega
  apply (u16 _).bind
  rw [hlen]
  exact (run _).bind_nil (.lift (textOfBytes_encode s))

theorem constant {c : Constant} (h : c.Fits) :
    Decodes Decoder.constant (Encoder.constant c) c := by
  cases c with
  | utf8 s => exact (u8 1).bind ((text h).map _)
  | integer value => exact (u8 3).bind ((u32 value.toUInt32).map _)
  | float bits => exact (u8 4).bind ((u32 bits).map _)
  | long value => exact (u8 5).bind ((u64 value.toUInt64).map _)
  | double bits => exact (u8 6).bind ((u64 bits).map _)
  | classInfo name => exact (u8 7).bind ((u16 name).map _)
  | string text => exact (u8 8).bind ((u16 text).map _)
  | member kind owner nameAndType =>
    cases kind with
    | field => exact (u8 9).bind ((u16 owner).bind ((u16 nameAndType).map _))
    | method => exact (u8 10).bind ((u16 owner).bind ((u16 nameAndType).map _))
    | interfaceMethod => exact (u8 11).bind ((u16 owner).bind ((u16 nameAndType).map _))
  | nameAndType name descriptor => exact (u8 12).bind ((u16 name).bind ((u16 descriptor).map _))
  | methodHandle kind reference => exact (u8 15).bind ((u8 kind).bind ((u16 reference).map _))
  | methodType descriptor => exact (u8 16).bind ((u16 descriptor).map _)
  | dynamic bootstrap nameAndType =>
    exact (u8 17).bind ((u16 bootstrap).bind ((u16 nameAndType).map _))
  | invokeDynamic bootstrap nameAndType =>
    exact (u8 18).bind ((u16 bootstrap).bind ((u16 nameAndType).map _))
  | moduleInfo name => exact (u8 19).bind ((u16 name).map _)
  | packageInfo name => exact (u8 20).bind ((u16 name).map _)

theorem slots {constants : List Constant} (h : ∀ c ∈ constants, c.Fits)
    (read : Array (Option Constant)) :
    Decodes (Decoder.slots (ConstantPool.width constants) read)
      (constants.flatMap Encoder.constant)
      (read ++ (constants.flatMap Constant.slots).toArray) := by
  induction constants generalizing read with
  | nil =>
    rw [ConstantPool.width, Decoder.slots]
    exact .pure read
  | cons c rest ih =>
    have hrest : ∀ d ∈ rest, d.Fits := fun d hd => h d (List.mem_cons_of_mem c hd)
    have hread := constant (h c List.mem_cons_self)
    have hcount : ConstantPool.width (c :: rest) = c.width - 1 + ConstantPool.width rest + 1 := by
      have := c.width_eq
      rw [ConstantPool.width]
      omega
    rw [hcount, Decoder.slots, List.flatMap_cons, List.flatMap_cons]
    apply hread.bind
    rcases c.width_eq with hone | htwo
    · have hnext := ih hrest (read.push (some c))
      rw [if_neg (by omega), hone, Nat.sub_self, Nat.zero_add]
      simpa [Constant.slots, hone] using hnext
    · have hnext := ih hrest ((read.push (some c)).push none)
      rw [if_pos htwo, htwo, Nat.add_sub_cancel_left]
      simpa [Constant.slots, htwo] using hnext

theorem constantPool {constants : List Constant} (h : ∀ c ∈ constants, c.Fits)
    (hwidth : ConstantPool.width constants ≤ 65534) :
    Decodes Decoder.constantPool (Encoder.constantPool constants)
      (ConstantPool.ofConstants constants) := by
  have hcount : (UInt16.ofNat (ConstantPool.width constants + 1)).toNat - 1 =
      ConstantPool.width constants := by
    rw [UInt16.toNat_ofNat']
    omega
  rw [Decoder.constantPool_eq]
  apply (u16 _).bind
  rw [hcount]
  have hslots := slots h #[]
  rw [Array.empty_append] at hslots
  exact hslots.map _

end Decodes

namespace ConstantPool

/-- A constant stands after the slots of those before it. -/
theorem getElem?_flatMap_slots (front back : List Constant) (c : Constant) :
    ((front ++ c :: back).flatMap Constant.slots)[width front]? = some (some c) := by
  rw [List.flatMap_append, List.getElem?_append_right (Nat.le_of_eq (length_flatMap_slots front)),
    length_flatMap_slots, Nat.sub_self]
  rfl

variable {pool : ConstantPool} {i : UInt16}

theorem get_eq_ok_iff {c : Constant} :
    pool.get i = .ok c ↔ ∃ n, i.toNat = n + 1 ∧ pool.slots[n]? = some (some c) := by
  rw [get]
  split
  · rename_i hzero
    simp [hzero]
  · rename_i hpos
    obtain ⟨n, hn⟩ := Nat.exists_eq_add_one_of_ne_zero fun h => hpos (UInt16.toNat_inj.mp h)
    rw [hn, Nat.add_sub_cancel]
    cases hslot : pool.slots[n]? with
    | none => simp [hslot]
    | some slot => cases slot <;> simp [hslot]

theorem get_ofConstants {front back : List Constant} {c : Constant}
    (hwidth : width (front ++ c :: back) ≤ 65534) :
    (ofConstants (front ++ c :: back)).get (UInt16.ofNat (width front + 1)) = .ok c := by
  have hfront : width front < 65534 := by
    have := c.width_eq
    rw [width_append, width] at hwidth
    omega
  refine get_eq_ok_iff.mpr ⟨width front, ?_, ?_⟩
  · rw [UInt16.toNat_ofNat']
    omega
  · rw [ofConstants, List.getElem?_toArray, getElem?_flatMap_slots]

theorem mem_entries {c : Constant} (h : pool.get i = .ok c) : (i, c) ∈ pool.entries := by
  obtain ⟨n, hn, hslot⟩ := get_eq_ok_iff.mp h
  refine List.mem_filterMap.mpr ⟨(some c, n), ?_, ?_⟩
  · rwa [List.mk_mem_zipIdx_iff_getElem?, Array.getElem?_toList]
  · rw [Option.map_some, ← hn, UInt16.ofNat_toNat]

theorem utf8_eq_ok_iff {text : String} :
    pool.utf8 i = .ok text ↔ pool.get i = .ok (.utf8 text) := by
  rw [utf8, bind_eq_ok_iff]
  constructor
  · rintro ⟨c, hget, hc⟩
    cases c with
    | utf8 s =>
      cases hc
      exact hget
    | _ => cases hc
  · intro hget
    exact ⟨.utf8 text, hget, rfl⟩

theorem className_eq_ok_iff {name : String} :
    pool.className i = .ok name ↔
      ∃ j, pool.get i = .ok (.classInfo j) ∧ pool.get j = .ok (.utf8 name) := by
  rw [className, bind_eq_ok_iff]
  constructor
  · rintro ⟨c, hget, hc⟩
    cases c with
    | classInfo j => exact ⟨j, hget, utf8_eq_ok_iff.mp hc⟩
    | _ => cases hc
  · rintro ⟨j, hget, hj⟩
    exact ⟨.classInfo j, hget, utf8_eq_ok_iff.mpr hj⟩

theorem nameAndType_eq_ok_iff {name descriptor : String} :
    pool.nameAndType i = .ok (name, descriptor) ↔
      ∃ j k, pool.get i = .ok (.nameAndType j k) ∧ pool.get j = .ok (.utf8 name) ∧
        pool.get k = .ok (.utf8 descriptor) := by
  rw [nameAndType, bind_eq_ok_iff]
  constructor
  · rintro ⟨c, hget, hc⟩
    cases c with
    | nameAndType j k =>
      obtain ⟨s, hs, hrest⟩ := bind_eq_ok_iff.mp hc
      obtain ⟨t, ht, hpair⟩ := bind_eq_ok_iff.mp hrest
      cases hpair
      exact ⟨j, k, hget, utf8_eq_ok_iff.mp hs, utf8_eq_ok_iff.mp ht⟩
    | _ => cases hc
  · rintro ⟨j, k, hget, hj, hk⟩
    refine ⟨.nameAndType j k, hget, ?_⟩
    simp only [utf8_eq_ok_iff.mpr hj, utf8_eq_ok_iff.mpr hk]
    rfl

end ConstantPool

end ClassDeps.ClassFile
