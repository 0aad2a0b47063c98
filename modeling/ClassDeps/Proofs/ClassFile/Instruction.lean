import ClassDeps.ClassFile.Bytecode
import ClassDeps.Proofs.ClassFile.Encoder
import ClassDeps.Proofs.Traverse

namespace ClassDeps.ClassFile.Bytecode

/-- What follows an opcode. -/
inductive Format where
  /-- Bytes that name no constant: a value, a local variable, a branch, an array type. -/
  | immediate (width : Nat)
  /-- An index of one byte into the constant pool. -/
  | shortIndex
  /-- An index of two bytes into the constant pool, then bytes that name no constant. -/
  | index (kind : Operand) (trailing : Nat)
  | tableSwitch
  | lookupSwitch
  | wide
deriving DecidableEq

namespace Format

/-- The number of bytes after the opcode, where the opcode alone tells. -/
def width? : Format → Option Nat
  | immediate width => some width
  | shortIndex => some 1
  | index _ trailing => some (2 + trailing)
  | tableSwitch | lookupSwitch | wide => none

def kind? : Format → Option Operand
  | shortIndex => some .loadable
  | index kind _ => some kind
  | _ => none

end Format

/-- The instruction set as ranges of opcodes, first and last, that share a format. -/
def families : List (UInt8 × UInt8 × Format) :=
  [(0x00, 0x0f, .immediate 0), -- nop, aconst_null, iconst_m1 to dconst_1
   (0x10, 0x10, .immediate 1), -- bipush
   (0x11, 0x11, .immediate 2), -- sipush
   (0x12, 0x12, .shortIndex), -- ldc
   (0x13, 0x14, .index .loadable 0), -- ldc_w, ldc2_w
   (0x15, 0x19, .immediate 1), -- iload to aload
   (0x1a, 0x35, .immediate 0), -- iload_0 to saload
   (0x36, 0x3a, .immediate 1), -- istore to astore
   (0x3b, 0x83, .immediate 0), -- istore_0 to lxor
   (0x84, 0x84, .immediate 2), -- iinc
   (0x85, 0x98, .immediate 0), -- i2l to dcmpg
   (0x99, 0xa8, .immediate 2), -- ifeq to jsr
   (0xa9, 0xa9, .immediate 1), -- ret
   (0xaa, 0xaa, .tableSwitch),
   (0xab, 0xab, .lookupSwitch),
   (0xac, 0xb1, .immediate 0), -- ireturn to return
   (0xb2, 0xb5, .index .field 0), -- getstatic, putstatic, getfield, putfield
   (0xb6, 0xb8, .index .method 0), -- invokevirtual, invokespecial, invokestatic
   (0xb9, 0xb9, .index .method 2), -- invokeinterface
   (0xba, 0xba, .index .callSite 2), -- invokedynamic
   (0xbb, 0xbb, .index .type 0), -- new
   (0xbc, 0xbc, .immediate 1), -- newarray
   (0xbd, 0xbd, .index .type 0), -- anewarray
   (0xbe, 0xbf, .immediate 0), -- arraylength, athrow
   (0xc0, 0xc1, .index .type 0), -- checkcast, instanceof
   (0xc2, 0xc3, .immediate 0), -- monitorenter, monitorexit
   (0xc4, 0xc4, .wide),
   (0xc5, 0xc5, .index .type 1), -- multianewarray
   (0xc6, 0xc7, .immediate 2), -- ifnull, ifnonnull
   (0xc8, 0xc9, .immediate 4), -- goto_w, jsr_w
   (0xca, 0xca, .immediate 0), -- breakpoint
   (0xfe, 0xff, .immediate 0)] -- impdep1, impdep2

def format? (opcode : UInt8) : Option Format :=
  (families.find? fun family => family.1 ≤ opcode ∧ opcode ≤ family.2.1).map (·.2.2)

/-- A four-byte signed number. -/
def word (x : Int32) : List UInt8 :=
  Encoder.u32 x.toUInt32

def wordPair (pair : Int32 × Int32) : List UInt8 :=
  word pair.1 ++ word pair.2

/-- One instruction with its operands. The bytes between the opcode of a switch and its operands
are part of it and may have any value. -/
inductive Instruction where
  | immediate (opcode : UInt8) (operands : List UInt8)
      (fits : format? opcode = some (.immediate operands.length))
  | loadConstant (index : UInt8)
  | constant (opcode : UInt8) (kind : Operand) (index : UInt16) (trailing : List UInt8)
      (fits : format? opcode = some (.index kind trailing.length))
  | tableSwitch (filler : List UInt8) (default low high : Int32) (jumps : List Int32)
      (counted : (jumps.length : Int) = high.toInt - low.toInt + 1)
      (bounded : jumps.length < 0x80000000)
  | lookupSwitch (filler : List UInt8) (default : Int32) (pairs : List (Int32 × Int32))
      (bounded : pairs.length < 0x80000000)
  /-- The widened form of an instruction on local variables; 0x84 increments by two more bytes. -/
  | wide (widened : UInt8) (operands : List UInt8)
      (fits : operands.length = if widened = 0x84 then 4 else 2)

namespace Instruction

def opcode : Instruction → UInt8
  | immediate opcode .. => opcode
  | loadConstant _ => 0x12
  | constant opcode .. => opcode
  | tableSwitch .. => 0xaa
  | lookupSwitch .. => 0xab
  | wide .. => 0xc4

def operands : Instruction → List UInt8
  | immediate _ operands _ => operands
  | loadConstant index => [index]
  | constant _ _ index trailing _ => Encoder.u16 index ++ trailing
  | tableSwitch filler default low high jumps _ _ =>
    filler ++ (word default ++ (word low ++ (word high ++ jumps.flatMap word)))
  | lookupSwitch filler default pairs _ =>
    filler ++ (word default ++ (Encoder.u32 (UInt32.ofNat pairs.length) ++
      pairs.flatMap wordPair))
  | wide widened operands _ => widened :: operands

def bytes (i : Instruction) : List UInt8 :=
  i.opcode :: i.operands

/-- The operands of a switch at `offset` start at a multiple of four. -/
def FitsAt (offset : Nat) : Instruction → Prop
  | tableSwitch filler .. | lookupSwitch filler .. =>
    filler.length < 4 ∧ (offset + 1 + filler.length) % 4 = 0
  | _ => True

instance (offset : Nat) : (i : Instruction) → Decidable (i.FitsAt offset)
  | tableSwitch .. | lookupSwitch .. => inferInstanceAs (Decidable (_ ∧ _))
  | immediate .. | loadConstant _ | constant .. | wide .. => isTrue trivial

/-- The classes that the operand of an instruction contributes, if it points to a constant. -/
def classes (pool : ConstantPool) : Instruction → Except Malformed (List String)
  | loadConstant index => operandClasses pool index.toUInt16 .loadable
  | constant _ kind index _ _ => operandClasses pool index kind
  | _ => .ok []

end Instruction

theorem forall_byte {P : UInt8 → Prop} (h : ∀ n : Fin 256, P (UInt8.ofFin n)) (x : UInt8) : P x :=
  h x.toFin

/-- Only the switches and the widened form look past the opcode. -/
theorem length_of_ne {opcode : UInt8} (htable : opcode ≠ 0xaa) (hlookup : opcode ≠ 0xab)
    (hwide : opcode ≠ 0xc4) (offset : Nat) (operands : List UInt8) :
    length offset opcode operands = length 0 opcode [] := by
  simp only [length, if_neg htable, if_neg hlookup, if_neg hwide]

theorem length_table (opcode : UInt8) :
    (length 0 opcode []).toOption = ((format? opcode).bind Format.width?).map (1 + ·) := by
  revert opcode
  apply forall_byte
  decide +kernel

theorem operand?_eq (opcode : UInt8) : operand? opcode = (format? opcode).bind Format.kind? := by
  revert opcode
  apply forall_byte
  decide +kernel

theorem opcode_of_format (opcode : UInt8) :
    (format? opcode = some .shortIndex → opcode = 0x12) ∧
      (format? opcode = some .tableSwitch → opcode = 0xaa) ∧
      (format? opcode = some .lookupSwitch → opcode = 0xab) ∧
      (format? opcode = some .wide → opcode = 0xc4) := by
  revert opcode
  apply forall_byte
  decide +kernel

theorem length_of_width {opcode : UInt8} {format : Format} {width : Nat}
    (hformat : format? opcode = some format) (hwidth : format.width? = some width) (offset : Nat)
    (operands : List UInt8) : length offset opcode operands = .ok (1 + width) := by
  have hne : ∀ code, (format? code).bind Format.width? = none → opcode ≠ code := by
    intro code hnone hcode
    rw [← hcode, hformat, Option.bind_some, hwidth] at hnone
    exact absurd hnone (by simp)
  rw [length_of_ne (hne _ rfl) (hne _ rfl) (hne _ rfl)]
  have htable := length_table opcode
  rw [hformat, Option.bind_some, hwidth] at htable
  cases hlen : length 0 opcode [] with
  | error fault => rw [hlen] at htable; exact absurd htable (by simp [Except.toOption])
  | ok n =>
    rw [hlen] at htable
    rw [Option.some.inj htable]

theorem format?_isSome_of_length {offset : Nat} {opcode : UInt8} {operands : List UInt8} {n : Nat}
    (h : length offset opcode operands = .ok n) : ∃ format, format? opcode = some format := by
  cases hformat : format? opcode with
  | some format => exact ⟨format, rfl⟩
  | none =>
    have hne : ∀ code, (format? code).isSome → opcode ≠ code := by
      intro code hsome hcode
      rw [← hcode, hformat] at hsome
      exact absurd hsome (by simp)
    rw [length_of_ne (hne _ rfl) (hne _ rfl) (hne _ rfl)] at h
    have htable := length_table opcode
    rw [h, hformat] at htable
    exact absurd htable (by simp [Except.toOption])

theorem length_wide (offset : Nat) (widened : UInt8) (operands : List UInt8) :
    length offset 0xc4 (widened :: operands) = .ok (if widened = 0x84 then 6 else 4) := rfl

theorem length_eq_padding {offset n : Nat} (hlt : n < 4) (hfits : (offset + 1 + n) % 4 = 0) :
    n = padding offset := by
  rw [padding]
  omega

theorem padding_fits (offset : Nat) :
    padding offset < 4 ∧ (offset + 1 + padding offset) % 4 = 0 := by
  rw [padding]
  omega

@[simp] theorem length_word (x : Int32) : (word x).length = 4 := rfl

theorem word_injective : Function.Injective word := by
  intro x y h
  exact congrArg UInt32.toInt32 (Encoder.u32_injective h)

theorem exists_word_eq {bytes : List UInt8} (h : bytes.length = 4) : ∃ x, word x = bytes := by
  obtain ⟨x, hx⟩ := Encoder.exists_u32_eq h
  exact ⟨x.toInt32, hx⟩

theorem signedAt_append (start : List UInt8) {i : Nat} (hi : start.length = i) (x : UInt32)
    (rest : List UInt8) : signedAt i (start ++ (Encoder.u32 x ++ rest)) = .ok x.toInt32.toInt := by
  have hdrop : (start ++ (Encoder.u32 x ++ rest)).drop i = Encoder.u32 x ++ rest :=
    List.drop_left' hi
  have hx := x.toNat_lt
  have hint : x.toInt32.toInt = Int.bmod x.toNat (2 ^ 32) := BitVec.toInt_eq_toNat_bmod _
  rw [signedAt, hdrop, hint]
  simp only [Encoder.u32, Encoder.u16, List.cons_append, List.nil_append, UInt8.toNat_ofNat',
    UInt16.toNat_ofNat']
  congr 2
  omega

theorem signedAt_second {filler : List UInt8} {n : Nat} (hn : filler.length = n) (x y : Int32)
    (rest : List UInt8) :
    signedAt (n + 4) (filler ++ (word x ++ (word y ++ rest))) = .ok y.toInt := by
  have h := signedAt_append (filler ++ word x) (i := n + 4) (by simp [hn]) y.toUInt32 rest
  rwa [List.append_assoc] at h

theorem signedAt_third {filler : List UInt8} {n : Nat} (hn : filler.length = n) (x y z : Int32)
    (rest : List UInt8) :
    signedAt (n + 8) (filler ++ (word x ++ (word y ++ (word z ++ rest)))) = .ok z.toInt := by
  have h := signedAt_append (filler ++ (word x ++ word y)) (i := n + 8) (by simp [hn])
    z.toUInt32 rest
  rwa [List.append_assoc, List.append_assoc] at h

theorem exists_word_append_eq {bytes : List UInt8} {n : Nat} (h : bytes.length = 4 + n) :
    ∃ x rest, rest.length = n ∧ bytes = word x ++ rest := by
  obtain ⟨front, rest, hfront, hrest, hbytes⟩ := Encoder.exists_append_eq h
  obtain ⟨x, hx⟩ := exists_word_eq hfront
  exact ⟨x, rest, hrest, by rw [hbytes, hx]⟩

theorem word_append_inj {x y : Int32} {xs ys : List UInt8} (h : word x ++ xs = word y ++ ys) :
    x = y ∧ xs = ys := by
  obtain ⟨hword, hrest⟩ := List.append_inj h rfl
  exact ⟨word_injective hword, hrest⟩

@[simp] theorem length_wordPair (pair : Int32 × Int32) : (wordPair pair).length = 8 := rfl

theorem wordPair_injective : Function.Injective wordPair := by
  intro x y h
  obtain ⟨hfirst, hsecond⟩ := word_append_inj h
  exact Prod.ext hfirst (word_injective hsecond)

theorem exists_wordPair_eq {bytes : List UInt8} (h : bytes.length = 8) :
    ∃ pair, wordPair pair = bytes := by
  obtain ⟨x, rest, hrest, hbytes⟩ := exists_word_append_eq (n := 4) h
  obtain ⟨y, hy⟩ := exists_word_eq hrest
  exact ⟨(x, y), by rw [hbytes, ← hy]; rfl⟩

theorem tableCount?_eq_some_iff {low high : Int} {count : Nat} :
    tableCount? low high = some count ↔ (count : Int) = high - low + 1 ∧ count < 0x80000000 := by
  rw [tableCount?]
  split
  · rw [Option.some.injEq]
    omega
  · rename_i hrange
    constructor
    · intro h
      exact absurd h (by simp)
    · intro h
      exact absurd h (by omega)

theorem length_tableSwitch_iff {offset n : Nat} {operands : List UInt8} :
    length offset 0xaa operands = .ok n ↔ ∃ low high, ∃ count : Nat,
      signedAt (padding offset + 4) operands = .ok low ∧
      signedAt (padding offset + 8) operands = .ok high ∧
      ((count : Int) = high - low + 1 ∧ count < 0x80000000) ∧
      1 + (padding offset + 12 + 4 * count) = n := by
  simp only [length, UInt8.reduceLE, reduceIte]
  rw [if_neg (by decide), if_neg (by decide), if_neg (by decide), if_neg (by decide),
    if_neg (by decide)]
  simp only [bind_eq_ok_iff, ← tableCount?_eq_some_iff]
  constructor
  · rintro ⟨low, hlow, high, hhigh, hn⟩
    cases hcount : tableCount? low high with
    | none => rw [hcount] at hn; cases hn
    | some count =>
      rw [hcount] at hn
      injection hn with hn
      exact ⟨low, high, count, hlow, hhigh, hcount, by omega⟩
  · rintro ⟨low, high, count, hlow, hhigh, hcount, hn⟩
    refine ⟨low, hlow, high, hhigh, ?_⟩
    rw [hcount]
    exact congrArg Except.ok (by omega)

theorem length_lookupSwitch_iff {offset n : Nat} {operands : List UInt8} :
    length offset 0xab operands = .ok n ↔ ∃ count : Nat,
      signedAt (padding offset + 4) operands = .ok count ∧
      1 + (padding offset + 8 + 8 * count) = n := by
  have hlength : length offset 0xab operands = (do
      let pairs ← signedAt (padding offset + 4) operands
      if pairs < 0 then .error .lookupPairs
      else .ok (1 + padding offset + 8 + 8 * pairs.toNat)) := rfl
  rw [hlength]
  simp only [bind_eq_ok_iff]
  constructor
  · rintro ⟨pairs, hpairs, hn⟩
    split at hn
    · cases hn
    · rename_i hneg
      injection hn with hn
      exact ⟨pairs.toNat, by rw [hpairs, Int.toNat_of_nonneg (by omega)], by omega⟩
  · rintro ⟨count, hcount, hn⟩
    refine ⟨count, hcount, ?_⟩
    rw [if_neg (by omega)]
    exact congrArg Except.ok (by omega)

namespace Instruction

def format : Instruction → Format
  | immediate _ operands _ => .immediate operands.length
  | loadConstant _ => .shortIndex
  | constant _ kind _ trailing _ => .index kind trailing.length
  | tableSwitch .. => .tableSwitch
  | lookupSwitch .. => .lookupSwitch
  | wide .. => .wide

theorem format?_opcode (i : Instruction) : format? i.opcode = some i.format := by
  cases i with
  | immediate opcode operands fits => exact fits
  | constant opcode kind index trailing fits => exact fits
  | loadConstant | tableSwitch | lookupSwitch | wide => rfl

theorem length_bytes (i : Instruction) : i.bytes.length = 1 + i.operands.length := by
  rw [bytes, List.length_cons, Nat.add_comm]

theorem length_operands_tableSwitch (filler : List UInt8) (default low high : Int32)
    (jumps : List Int32) : (filler ++ (word default ++ (word low ++ (word high ++
      jumps.flatMap word)))).length = filler.length + 12 + 4 * jumps.length := by
  have hjumps : (jumps.flatMap word).length = 4 * jumps.length := by
    simp [List.length_flatMap, Nat.mul_comm]
  simp only [List.length_append, length_word, hjumps]
  omega

theorem length_operands_lookupSwitch (filler : List UInt8) (default : Int32) (count : UInt32)
    (pairs : List (Int32 × Int32)) : (filler ++ (word default ++ (Encoder.u32 count ++
      pairs.flatMap wordPair))).length = filler.length + 8 + 8 * pairs.length := by
  have hpairs : (pairs.flatMap wordPair).length = 8 * pairs.length := by
    simp [List.length_flatMap, Nat.mul_comm]
  simp only [List.length_append, length_word, Encoder.length_u32, hpairs]
  omega

/-- The number of pairs is stored as a signed number. -/
theorem toInt_ofNat {n : Nat} (h : n < 0x80000000) : (UInt32.ofNat n).toInt32.toInt = n := by
  have hint : (UInt32.ofNat n).toInt32.toInt = Int.bmod (UInt32.ofNat n).toNat (2 ^ 32) :=
    BitVec.toInt_eq_toNat_bmod _
  rw [hint, UInt32.toNat_ofNat', Nat.mod_eq_of_lt (by omega)]
  exact Int.bmod_eq_of_le (by omega) (by omega)

theorem length_eq {offset : Nat} {i : Instruction} (hfits : i.FitsAt offset) (rest : List UInt8) :
    length offset i.opcode (i.operands ++ rest) = .ok i.bytes.length := by
  rw [length_bytes]
  cases i with
  | immediate opcode operands fits => exact length_of_width fits rfl offset _
  | loadConstant index => rfl
  | constant opcode kind index trailing fits =>
    have hlen : (Encoder.u16 index ++ trailing).length = 2 + trailing.length := List.length_append
    rw [operands, hlen]
    exact length_of_width fits rfl offset _
  | tableSwitch filler default low high jumps counted bounded =>
    have hpad : filler.length = padding offset := length_eq_padding hfits.1 hfits.2
    apply length_tableSwitch_iff.mpr
    rw [operands, length_operands_tableSwitch, hpad]
    simp only [List.append_assoc]
    exact ⟨low.toInt, high.toInt, jumps.length, signedAt_second hpad .., signedAt_third hpad ..,
      ⟨counted, bounded⟩, rfl⟩
  | lookupSwitch filler default pairs bounded =>
    have hpad : filler.length = padding offset := length_eq_padding hfits.1 hfits.2
    have hcount := signedAt_second hpad default (UInt32.ofNat pairs.length).toInt32
      (pairs.flatMap wordPair ++ rest)
    rw [toInt_ofNat bounded] at hcount
    apply length_lookupSwitch_iff.mpr
    rw [operands, length_operands_lookupSwitch, hpad]
    simp only [List.append_assoc]
    exact ⟨pairs.length, hcount, rfl⟩
  | wide widened operands fits =>
    rw [opcode, Instruction.operands, List.cons_append, length_wide, List.length_cons, fits]
    split <;> rfl

theorem instructionClasses_eq (pool : ConstantPool) (i : Instruction) :
    instructionClasses pool i.opcode i.operands = i.classes pool := by
  have hkind : operand? i.opcode = i.format.kind? := by
    rw [operand?_eq, format?_opcode, Option.bind_some]
  rw [instructionClasses, hkind]
  cases i with
  | constant opcode kind index trailing fits =>
    have hne : opcode ≠ 0x12 := by
      intro h
      rw [h] at fits
      cases fits
    have hindex : poolIndex opcode (Encoder.u16 index ++ trailing) = .ok index := by
      show (if opcode = 0x12 then _ else Except.ok _) = Except.ok index
      rw [if_neg hne, Encoder.u16_value]
    simp only [format, Format.kind?, Instruction.opcode, operands, hindex, classes]
  | immediate | loadConstant | tableSwitch | lookupSwitch | wide => rfl

theorem exists_tableSwitch_eq {offset : Nat} {operands rest : List UInt8}
    (h : length offset 0xaa (operands ++ rest) = .ok (1 + operands.length)) :
    ∃ i : Instruction, i.FitsAt offset ∧ i.bytes = 0xaa :: operands := by
  obtain ⟨low, high, count, hlow, hhigh, hcount, hlen⟩ := length_tableSwitch_iff.mp h
  have hsplit : operands.length = padding offset + (4 + (4 + (4 + 4 * count))) := by omega
  obtain ⟨filler, words, hfiller, hwords, rfl⟩ := Encoder.exists_append_eq hsplit
  obtain ⟨default, bounds, hbounds, rfl⟩ := exists_word_append_eq hwords
  obtain ⟨x, upper, hupper, rfl⟩ := exists_word_append_eq hbounds
  obtain ⟨y, targets, htargets, rfl⟩ := exists_word_append_eq hupper
  obtain ⟨jumps, hjumps, rfl⟩ :=
    Encoder.exists_flatMap_eq (fun _ => exists_word_eq) count targets htargets
  simp only [List.append_assoc] at hlow hhigh
  have hx : x.toInt = low := Except.ok.inj ((signedAt_second hfiller ..).symm.trans hlow)
  have hy : y.toInt = high := Except.ok.inj ((signedAt_third hfiller ..).symm.trans hhigh)
  rw [← hx, ← hy, ← hjumps] at hcount
  refine ⟨tableSwitch filler default x y jumps hcount.1 hcount.2, ?_, rfl⟩
  have hfits := padding_fits offset
  rwa [← hfiller] at hfits

theorem exists_lookupSwitch_eq {offset : Nat} {operands rest : List UInt8}
    (h : length offset 0xab (operands ++ rest) = .ok (1 + operands.length)) :
    ∃ i : Instruction, i.FitsAt offset ∧ i.bytes = 0xab :: operands := by
  obtain ⟨count, hcount, hlen⟩ := length_lookupSwitch_iff.mp h
  have hsplit : operands.length = padding offset + (4 + (4 + 8 * count)) := by omega
  obtain ⟨filler, words, hfiller, hwords, rfl⟩ := Encoder.exists_append_eq hsplit
  obtain ⟨default, counted, hcounted, rfl⟩ := exists_word_append_eq hwords
  obtain ⟨x, table, htable, rfl⟩ := exists_word_append_eq hcounted
  obtain ⟨pairs, hpairs, rfl⟩ :=
    Encoder.exists_flatMap_eq (fun _ => exists_wordPair_eq) count table htable
  simp only [List.append_assoc] at hcount
  have hx : x.toInt = pairs.length := by
    rw [hpairs]
    exact Except.ok.inj ((signedAt_second hfiller ..).symm.trans hcount)
  have hbounded : pairs.length < 0x80000000 := by
    have := x.toInt_lt
    omega
  -- The stored count is the only word that reads as the number of pairs.
  have hword : word x = Encoder.u32 (UInt32.ofNat pairs.length) := by
    have hstored : x = (UInt32.ofNat pairs.length).toInt32 := by
      apply Int32.toInt_inj.mp
      rw [hx, toInt_ofNat hbounded]
    rw [hstored]
    rfl
  refine ⟨lookupSwitch filler default pairs hbounded, ?_, ?_⟩
  · have hfits := padding_fits offset
    rwa [← hfiller] at hfits
  · rw [hword]
    rfl

/-- What the length table accepts is one instruction. -/
theorem exists_bytes_eq {offset : Nat} {code : UInt8} {operands rest : List UInt8}
    (h : length offset code (operands ++ rest) = .ok (1 + operands.length)) :
    ∃ i : Instruction, i.FitsAt offset ∧ i.bytes = code :: operands := by
  obtain ⟨format, hformat⟩ := format?_isSome_of_length h
  have hwidth : ∀ width, format.width? = some width → width = operands.length := by
    intro width hw
    rw [length_of_width hformat hw] at h
    injection h with h
    omega
  obtain ⟨hshort, htable, hlookup, hwide⟩ := opcode_of_format code
  cases format with
  | immediate width =>
    rw [hwidth width rfl] at hformat
    exact ⟨immediate code operands hformat, trivial, rfl⟩
  | shortIndex =>
    match operands, hwidth 1 rfl with
    | [index], _ => exact ⟨loadConstant index, trivial, by rw [hshort hformat]; rfl⟩
  | index kind trailing =>
    obtain ⟨front, back, hfront, hback, hoperands⟩ :=
      Encoder.exists_append_eq (hwidth (2 + trailing) rfl).symm
    obtain ⟨i, hi⟩ := Encoder.exists_u16_eq hfront
    rw [← hback] at hformat
    refine ⟨constant code kind i back hformat, trivial, ?_⟩
    rw [hoperands, ← hi]
    rfl
  | tableSwitch =>
    obtain rfl := htable hformat
    exact exists_tableSwitch_eq h
  | lookupSwitch =>
    obtain rfl := hlookup hformat
    exact exists_lookupSwitch_eq h
  | wide =>
    obtain rfl := hwide hformat
    match operands, rest, h with
    | [], [], h => cases h
    | [], widened :: rest, h =>
      rw [List.nil_append, length_wide] at h
      injection h with h
      split at h <;> cases h
    | widened :: operands, rest, h =>
      rw [List.cons_append, length_wide, List.length_cons] at h
      injection h with h
      have hfits : operands.length = if widened = 0x84 then 4 else 2 := by
        by_cases hw : widened = 0x84
        · rw [if_pos hw] at h ⊢
          omega
        · rw [if_neg hw] at h ⊢
          omega
      exact ⟨wide widened operands hfits, trivial, rfl⟩

/-- At one place, equal bytes are the same instruction. -/
theorem eq_of_bytes_eq {offset : Nat} {i j : Instruction} (hi : i.FitsAt offset)
    (hj : j.FitsAt offset) (h : i.bytes = j.bytes) : i = j := by
  obtain ⟨hopcode, hoperands⟩ := List.cons.inj h
  have hformat : i.format = j.format := by
    have hsome := format?_opcode i
    rw [hopcode, format?_opcode j] at hsome
    exact (Option.some.inj hsome).symm
  -- The opcode fixes the constructor, so only the diagonal is left.
  cases i with
  | immediate opcode operands fits =>
    cases j with
    | immediate opcode' operands' fits' =>
      obtain rfl : opcode = opcode' := hopcode
      obtain rfl : operands = operands' := hoperands
      rfl
    | _ => cases hformat
  | loadConstant index =>
    cases j with
    | loadConstant index' => rw [List.head_eq_of_cons_eq hoperands]
    | _ => cases hformat
  | constant opcode kind index trailing fits =>
    cases j with
    | constant opcode' kind' index' trailing' fits' =>
      obtain rfl : opcode = opcode' := hopcode
      obtain rfl : kind = kind' := (Format.index.inj hformat).1
      obtain ⟨hindex, rfl⟩ := List.append_inj hoperands rfl
      obtain rfl := Encoder.u16_injective hindex
      rfl
    | _ => cases hformat
  | tableSwitch filler default low high jumps counted bounded =>
    cases j with
    | tableSwitch filler' default' low' high' jumps' counted' bounded' =>
      have hpad : filler.length = filler'.length :=
        (length_eq_padding hi.1 hi.2).trans (length_eq_padding hj.1 hj.2).symm
      obtain ⟨rfl, hwords⟩ := List.append_inj hoperands hpad
      obtain ⟨rfl, hbounds⟩ := word_append_inj hwords
      obtain ⟨rfl, hupper⟩ := word_append_inj hbounds
      obtain ⟨rfl, hjumps⟩ := word_append_inj hupper
      obtain rfl := Encoder.flatMap_injective word_injective length_word (by omega) hjumps
      rfl
    | _ => cases hformat
  | lookupSwitch filler default pairs bounded =>
    cases j with
    | lookupSwitch filler' default' pairs' bounded' =>
      have hpad : filler.length = filler'.length :=
        (length_eq_padding hi.1 hi.2).trans (length_eq_padding hj.1 hj.2).symm
      obtain ⟨rfl, hwords⟩ := List.append_inj hoperands hpad
      obtain ⟨rfl, hcounted⟩ := word_append_inj hwords
      obtain ⟨-, hpairs⟩ := List.append_inj hcounted rfl
      obtain rfl := Encoder.flatMap_injective wordPair_injective length_wordPair (by omega) hpairs
      rfl
    | _ => cases hformat
  | wide widened operands fits =>
    cases j with
    | wide widened' operands' fits' =>
      obtain ⟨rfl, rfl⟩ := List.cons.inj hoperands
      rfl
    | _ => cases hformat

end Instruction

end ClassDeps.ClassFile.Bytecode
