import ClassDeps.Proofs.ClassFile.Instruction
import Mathlib.Algebra.Group.Nat.Defs

namespace ClassDeps.ClassFile.Bytecode.Indexed

/-- Why a walk stops early: the code is malformed, or the walk itself has gone wrong. -/
inductive Stop where
  | malformed (e : Malformed)
  /-- There is no byte at a position that is looked at. -/
  | outside (position : Nat)
  | overflow (value : Nat)
  /-- The offset does not grow. -/
  | stalled (offset : Nat)
deriving DecidableEq

def fault (f : BytecodeFault) : Stop :=
  .malformed (.bytecode f)

/-- Lengths are numbers of 64 bits. -/
def wordEnd : Nat :=
  2 ^ 64

/-- A number that has to stay below a limit. -/
def within (limit n : Nat) : Except Stop Nat :=
  if n < limit then .ok n else .error (.overflow n)

/-- The byte at a position that has to lie inside. -/
def byteAt (bytes : List UInt8) (i : Nat) : Except Stop UInt8 :=
  match bytes[i]? with
  | some b => .ok b
  | none => .error (.outside i)

/-- The value as a number of 32 bits, if it is one. -/
def int32? (x : Int) : Option Int32 :=
  if -0x80000000 ≤ x ∧ x < 0x80000000 then some (Int32.ofInt x) else none

/-- The number of jumps of a table switch, computed in 32 bits. -/
def jumpCount? (low high : Int32) : Option Nat := do
  let span ← int32? (high.toInt - low.toInt)
  let count ← int32? (span.toInt + 1)
  if 0 ≤ count.toInt then some count.toInt.toNat else none

section

-- Positions are below `top`. For them, too, 64 bits are enough if the code lies in memory.
variable (top : Nat) (code : List UInt8)

/-- The `n` bytes from `i` on, if the code has them. -/
def sliceAt (i n : Nat) : Except Stop (List UInt8) := do
  let stop ← within top (i + n)
  if stop ≤ code.length then .ok ((code.drop i).take n) else .error (fault .operand)

def unsigned16At (i : Nat) : Except Stop UInt16 := do
  let bytes ← sliceAt top code i 2
  let a ← byteAt bytes 0
  let b ← byteAt bytes 1
  .ok (UInt16.ofNat (a.toNat * 0x100 + b.toNat))

def signed32At (i : Nat) : Except Stop Int32 := do
  let bytes ← sliceAt top code i 4
  let a ← byteAt bytes 0
  let b ← byteAt bytes 1
  let c ← byteAt bytes 2
  let d ← byteAt bytes 3
  .ok (UInt32.ofNat
    (a.toNat * 0x1000000 + b.toNat * 0x10000 + c.toNat * 0x100 + d.toNat)).toInt32

def paddingAt (offset : Nat) : Except Stop Nat := do
  let after ← within top (offset + 1)
  .ok ((4 - after % 4) % 4)

def tableLengthAt (offset : Nat) : Except Stop Nat := do
  let pad ← paddingAt top offset
  let base ← within top (offset + 1 + pad)
  let low ← signed32At top code (← within top (base + 4))
  let high ← signed32At top code (← within top (base + 8))
  match jumpCount? low high with
  | none => .error (fault .tableRange)
  | some count =>
    let fixed ← within wordEnd (1 + pad + 12)
    let jumps ← within wordEnd (count * 4)
    within wordEnd (fixed + jumps)

def lookupLengthAt (offset : Nat) : Except Stop Nat := do
  let pad ← paddingAt top offset
  let base ← within top (offset + 1 + pad)
  let pairs ← signed32At top code (← within top (base + 4))
  if pairs.toInt < 0 then .error (fault .lookupPairs)
  else
    let fixed ← within wordEnd (1 + pad + 8)
    let entries ← within wordEnd (pairs.toInt.toNat * 8)
    within wordEnd (fixed + entries)

def wideLengthAt (offset : Nat) : Except Stop Nat := do
  match code[← within top (offset + 1)]? with
  | some widened => .ok (if widened = 0x84 then 6 else 4)
  | none => .error (fault .wideOpcode)

/-- Any other length stands in the table. -/
def lengthAt (offset : Nat) : Except Stop Nat := do
  let opcode ← byteAt code offset
  if opcode = 0xaa then tableLengthAt top code offset
  else if opcode = 0xab then lookupLengthAt top code offset
  else if opcode = 0xc4 then wideLengthAt top code offset
  else (length 0 opcode []).mapError fault

def poolIndexAt (opcode : UInt8) (offset : Nat) : Except Stop UInt16 := do
  let i ← within top (offset + 1)
  if opcode = 0x12 then
    let b ← byteAt code i
    .ok b.toUInt16
  else unsigned16At top code i

/-- One turn: the classes of the instruction at `offset`, and where the next one is. -/
def step (pool : ConstantPool) (offset : Nat) : Except Stop (List String × Nat) := do
  let opcode ← byteAt code offset
  let n ← lengthAt top code offset
  let next ← within top (offset + n)
  if n = 0 ∨ code.length < next then .error (fault (.length offset))
  else
    match operand? opcode with
    | none => .ok ([], next)
    | some kind =>
      let i ← poolIndexAt top code opcode offset
      let names ← (operandClasses pool i kind).mapError .malformed
      .ok (names, next)

def walkFrom (pool : ConstantPool) (offset : Nat) (found : List String) :
    Except Stop (List String) :=
  if offset < code.length then
    match step top code pool offset with
    | .error stop => .error stop
    | .ok (names, next) =>
      if offset < next then walkFrom pool next (found ++ names) else .error (.stalled offset)
  else .ok found
termination_by code.length - offset

/-- The walk over the whole code. -/
def run (pool : ConstantPool) : Except Stop (List String) :=
  walkFrom top code pool 0 []

end

variable {top : Nat} {code rest : List UInt8} {offset : Nat} {opcode : UInt8}

theorem within_of_lt {limit n : Nat} (h : n < limit) : within limit n = .ok n :=
  if_pos h

theorem within_wordEnd {n : Nat} (h : n < 2 ^ 64) : within wordEnd n = .ok n :=
  within_of_lt h

theorem ok_bind {α β : Type} (a : α) (f : α → Except Stop β) : (Except.ok a >>= f) = f a :=
  rfl

theorem mapError_bind {α β ε ε' : Type} (g : ε → ε') (x : Except ε α) (f : α → Except ε β) :
    (x >>= f).mapError g = x.mapError g >>= fun a => (f a).mapError g := by
  cases x with
  | error e => rfl
  | ok a => rfl

theorem byteAt_of_drop {bytes tail : List UInt8} {i : Nat} {b : UInt8}
    (h : bytes.drop i = b :: tail) : byteAt bytes i = .ok b := by
  have hget : bytes[i]? = some b := by rw [← List.head?_drop, h]; rfl
  rw [byteAt, hget]

theorem sliceAt_of_le {i n : Nat} (htop : i + n < top) (hle : i + n ≤ code.length) :
    sliceAt top code i n = .ok ((code.drop i).take n) := by
  rw [sliceAt, within_of_lt htop]
  exact if_pos hle

theorem sliceAt_of_lt {i n : Nat} (htop : i + n < top) (hlt : code.length < i + n) :
    sliceAt top code i n = .error (fault .operand) := by
  rw [sliceAt, within_of_lt htop]
  exact if_neg (by omega)

theorem unsigned16At_of_drop {i : Nat} {a b : UInt8} {tail : List UInt8} (htop : i + 2 < top)
    (h : code.drop i = a :: b :: tail) :
    unsigned16At top code i = .ok (UInt16.ofNat (a.toNat * 0x100 + b.toNat)) := by
  have hlen := congrArg List.length h
  rw [List.length_drop, List.length_cons, List.length_cons] at hlen
  rw [unsigned16At, sliceAt_of_le htop (by omega), h]
  rfl

theorem signedAt_of_lt {operands : List UInt8} {i : Nat} (h : (operands.drop i).length < 4) :
    signedAt i operands = .error .operand := by
  rw [signedAt]
  split
  · rename_i heq
    rw [heq] at h
    simp only [List.length_cons] at h
    omega
  · rfl

theorem exists_four {xs : List UInt8} (h : 4 ≤ xs.length) :
    ∃ a b c d tail, xs = a :: b :: c :: d :: tail :=
  match xs, h with
  | a :: b :: c :: d :: tail, _ => ⟨a, b, c, d, tail, rfl⟩

/-- A number behind the opcode is the one of the scan, or is cut off in both. -/
theorem signed32At_eq (top : Nat) (hdrop : code.drop (offset + 1) = rest) {i p : Nat}
    (hp : offset + 1 + i = p) (htop : p + 4 < top) :
    (signedAt i rest).mapError fault = Int32.toInt <$> signed32At top code p := by
  have hrest : code.drop p = rest.drop i := by rw [← hp, ← hdrop, List.drop_drop]
  have hlen := congrArg List.length hrest
  rw [List.length_drop] at hlen
  by_cases hle : p + 4 ≤ code.length
  · obtain ⟨a, b, c, d, tail, hfour⟩ := exists_four (by omega : 4 ≤ (rest.drop i).length)
    have hint : ∀ x : UInt32, x.toInt32.toInt = Int.bmod x.toNat (2 ^ 32) :=
      fun x => BitVec.toInt_eq_toNat_bmod _
    rw [signedAt, signed32At, sliceAt_of_le htop hle, hrest, hfour]
    show Except.ok _ = Except.ok (UInt32.toInt32 _).toInt
    rw [hint, UInt32.toNat_ofNat', Nat.mod_eq_of_lt]
    · congr 2
    · have := a.toNat_lt
      have := b.toNat_lt
      have := c.toNat_lt
      have := d.toNat_lt
      omega
  · rw [signedAt_of_lt (by omega), signed32At, sliceAt_of_lt htop (by omega)]
    rfl

theorem int32?_eq_some_iff {x : Int} {y : Int32} :
    int32? x = some y ↔ y.toInt = x := by
  rw [int32?]
  split
  · rename_i hx
    rw [Option.some.injEq, ← Int32.toInt_inj, Int32.toInt_ofInt_of_le hx.1 hx.2, eq_comm]
  · rename_i hx
    have := y.toInt_lt
    have := y.le_toInt
    constructor
    · intro h
      cases h
    · intro h
      omega

/-- In 32 bits the difference of the bounds may overflow, but then there are too many jumps, or
fewer than none. -/
theorem jumpCount?_eq (low high : Int32) :
    jumpCount? low high = tableCount? low.toInt high.toInt := by
  ext count
  have := low.toInt_lt
  have := low.le_toInt
  have := high.toInt_lt
  have := high.le_toInt
  simp only [jumpCount?, tableCount?_eq_some_iff, Option.bind_eq_some_iff, int32?_eq_some_iff,
    bind]
  constructor
  · rintro ⟨span, hspan, total, htotal, h⟩
    have := total.toInt_lt
    split at h
    · cases h
      omega
    · cases h
  · rintro ⟨hcount, hlt⟩
    refine ⟨.ofInt (high.toInt - low.toInt), Int32.toInt_ofInt_of_le (by omega) (by omega),
      .ofInt count, ?_, ?_⟩
    · rw [Int32.toInt_ofInt_of_le (by omega) (by omega),
        Int32.toInt_ofInt_of_le (by omega) (by omega), hcount]
    · rw [Int32.toInt_ofInt_of_le (by omega) (by omega), if_pos (by omega), Int.toNat_natCast]

theorem paddingAt_eq (h : offset + 1 < top) : paddingAt top offset = .ok (padding offset) := by
  rw [paddingAt, within_of_lt h]
  rfl

theorem tableLengthAt_eq (hdrop : code.drop (offset + 1) = rest) (htop : offset + 2 ^ 35 ≤ top) :
    tableLengthAt top code offset = (length offset 0xaa rest).mapError fault := by
  have hpad := (padding_fits offset).1
  have hscan : length offset 0xaa rest = (do
      let low ← signedAt (padding offset + 4) rest
      let high ← signedAt (padding offset + 8) rest
      (tableCount? low high).elim (.error .tableRange)
        fun count => .ok (1 + padding offset + 12 + 4 * count)) := by
    refine bind_congr fun low => bind_congr fun high => ?_
    cases tableCount? low high with
    | none => rfl
    | some count => rfl
  rw [hscan, mapError_bind, signed32At_eq top hdrop (Nat.add_assoc ..).symm (by omega),
    bind_map_left]
  simp (disch := omega) only [tableLengthAt, paddingAt_eq, within_of_lt, ok_bind]
  apply bind_congr
  intro low
  rw [mapError_bind, signed32At_eq top hdrop (Nat.add_assoc ..).symm (by omega),
    bind_map_left]
  apply bind_congr
  intro high
  rw [jumpCount?_eq]
  cases hcount : tableCount? low.toInt high.toInt with
  | none => rfl
  | some count =>
    have hlt := (tableCount?_eq_some_iff.mp hcount).2
    simp (disch := omega) only [within_wordEnd, ok_bind, Nat.mul_comm, Option.elim_some,
      Except.mapError]

theorem lookupLengthAt_eq (hdrop : code.drop (offset + 1) = rest) (htop : offset + 2 ^ 35 ≤ top) :
    lookupLengthAt top code offset = (length offset 0xab rest).mapError fault := by
  have hpad := (padding_fits offset).1
  have hscan : length offset 0xab rest = (do
      let pairs ← signedAt (padding offset + 4) rest
      if pairs < 0 then .error .lookupPairs
      else .ok (1 + padding offset + 8 + 8 * pairs.toNat)) := rfl
  rw [hscan, mapError_bind, signed32At_eq top hdrop (Nat.add_assoc ..).symm (by omega),
    bind_map_left]
  simp (disch := omega) only [lookupLengthAt, paddingAt_eq, within_of_lt, ok_bind]
  apply bind_congr
  intro pairs
  have hlt := pairs.toInt_lt
  split
  · rfl
  · simp (disch := omega) only [within_wordEnd, ok_bind, Nat.mul_comm, Except.mapError]

theorem wideLengthAt_eq (hdrop : code.drop (offset + 1) = rest) (htop : offset + 1 < top) :
    wideLengthAt top code offset = (length offset 0xc4 rest).mapError fault := by
  have hget : code[offset + 1]? = rest.head? := by rw [← hdrop, List.head?_drop]
  rw [wideLengthAt, within_of_lt htop, ok_bind, hget]
  cases rest with
  | nil => rfl
  | cons widened rest => rfl

/-- The length of an instruction is that of the scan, and no number on the way is too large. -/
theorem lengthAt_eq (hdrop : code.drop offset = opcode :: rest) (htop : offset + 2 ^ 35 ≤ top) :
    lengthAt top code offset = (length offset opcode rest).mapError fault := by
  have hrest : code.drop (offset + 1) = rest := by
    rw [← List.drop_drop, hdrop]
    rfl
  rw [lengthAt, byteAt_of_drop hdrop, ok_bind]
  split
  · rename_i htable
    rw [htable, tableLengthAt_eq hrest htop]
  split
  · rename_i hlookup
    rw [hlookup, lookupLengthAt_eq hrest htop]
  split
  · rename_i hwide
    rw [hwide, wideLengthAt_eq hrest (by omega)]
  · rename_i htable hlookup hwide
    rw [length_of_ne htable hlookup hwide offset rest]

theorem signedAt_lt {operands : List UInt8} {i : Nat} {x : Int} (h : signedAt i operands = .ok x) :
    x < 0x80000000 := by
  rw [signedAt] at h
  split at h
  · have hlt := Int.bmod_lt (x := x) (m := 0x100000000) (by decide)
    injection h with h
    rw [← h, Int.bmod_bmod, h] at hlt
    omega
  · cases h

theorem length_le_of_ne (opcode : UInt8) : ∀ n ∈ (length 0 opcode []).toOption, n ≤ 5 := by
  revert opcode
  apply forall_byte
  decide +kernel

/-- Only a switch is long, and even that ends within reach. -/
theorem length_lt {n : Nat} (h : length offset opcode rest = .ok n) : n < 2 ^ 35 := by
  have hpad := (padding_fits offset).1
  by_cases htable : opcode = 0xaa
  · obtain ⟨_, _, count, -, -, ⟨-, hcount⟩, hn⟩ := length_tableSwitch_iff.mp (htable ▸ h)
    omega
  by_cases hlookup : opcode = 0xab
  · obtain ⟨count, hcount, hn⟩ := length_lookupSwitch_iff.mp (hlookup ▸ h)
    have := signedAt_lt hcount
    omega
  by_cases hwide : opcode = 0xc4
  · rw [hwide] at h
    cases rest with
    | nil => cases h
    | cons widened rest =>
      rw [length_wide] at h
      injection h with h
      split at h <;> omega
  · rw [length_of_ne htable hlookup hwide] at h
    have := length_le_of_ne opcode n (by rw [h]; rfl)
    omega

variable {pool : ConstantPool}

/-- An instruction that points to a constant is long enough for the index. -/
theorem poolIndexAt_eq {kind : Operand} {n : Nat} (hdrop : code.drop (offset + 1) = rest)
    (htop : offset + 3 < top) (hkind : operand? opcode = some kind)
    (hn : length offset opcode rest = .ok n) (hle : n ≤ rest.length + 1) :
    poolIndexAt top code opcode offset =
      (poolIndex opcode (rest.take (n - 1))).mapError fault := by
  rw [operand?_eq] at hkind
  obtain ⟨format, hformat, hkind⟩ := Option.bind_eq_some_iff.mp hkind
  have hwidth : ∀ width, format.width? = some width → n = 1 + width := by
    intro width hw
    rw [length_of_width hformat hw] at hn
    exact (Except.ok.inj hn).symm
  rw [poolIndexAt, within_of_lt (by omega), ok_bind]
  cases format with
  | shortIndex =>
    obtain rfl := (opcode_of_format opcode).1 hformat
    obtain rfl := hwidth 1 rfl
    match rest, hle with
    | a :: rest, _ =>
      rw [if_pos rfl, byteAt_of_drop hdrop]
      rfl
  | index kind' trailing =>
    have hne : opcode ≠ 0x12 := by
      rintro rfl
      cases hformat
    obtain rfl := hwidth (2 + trailing) rfl
    match rest, hle with
    | a :: b :: rest, _ =>
      have htake : (a :: b :: rest).take (1 + (2 + trailing) - 1) =
          a :: b :: rest.take trailing := by
        rw [Nat.add_sub_cancel_left, Nat.add_comm 2 trailing]
        rfl
      rw [if_neg hne, unsigned16At_of_drop (by omega) hdrop, htake]
      show _ = Except.mapError fault (if opcode = 0x12 then _ else Except.ok _)
      rw [if_neg hne]
      rfl
    | [_], hle => simp only [List.length_cons, List.length_nil] at hle; omega
    | [], hle => simp only [List.length_nil] at hle; omega
  | _ => cases hkind

/-- One turn does what the scan does with the instruction in front. -/
theorem step_eq (hdrop : code.drop offset = opcode :: rest) (htop : code.length + 2 ^ 35 ≤ top) :
    step top code pool offset =
      match length offset opcode rest with
      | .error f => .error (fault f)
      | .ok n =>
        if (rest.take (n - 1)).length + 1 = n then
          (·, offset + n) <$>
            (instructionClasses pool opcode (rest.take (n - 1))).mapError .malformed
        else .error (fault (.length offset)) := by
  have hlen := congrArg List.length hdrop
  rw [List.length_drop, List.length_cons] at hlen
  have hrest : code.drop (offset + 1) = rest := by
    rw [← List.drop_drop, hdrop]
    rfl
  rw [step, byteAt_of_drop hdrop, ok_bind, lengthAt_eq hdrop (by omega)]
  cases hn : length offset opcode rest with
  | error f => rfl
  | ok n =>
    have hlt := length_lt hn
    have hfits : (n = 0 ∨ code.length < offset + n) ↔ ¬(rest.take (n - 1)).length + 1 = n := by
      rw [List.length_take]
      omega
    show (within top (offset + n) >>= _) = _
    rw [within_of_lt (by omega), ok_bind]
    simp only [hfits, ite_not]
    split
    · rename_i hle
      rw [List.length_take] at hle
      rw [instructionClasses]
      cases hkind : operand? opcode with
      | none => rfl
      | some kind =>
        rw [poolIndexAt_eq hrest (by omega) hkind hn (by omega)]
        cases poolIndex opcode (rest.take (n - 1)) with
        | error f => rfl
        | ok i =>
          simp only [map_eq_pure_bind]
          rfl
    · rfl

/-- What a turn may come to: the offset grows, at most to the end of the code, or the code is
malformed. -/
def Advances (code : List UInt8) (offset : Nat) : Except Stop (List String × Nat) → Prop
  | .ok (_, next) => offset < next ∧ next ≤ code.length
  | .error stop => ∃ e, stop = .malformed e

theorem step_advances (htop : code.length + 2 ^ 35 ≤ top) (hlt : offset < code.length) :
    Advances code offset (step top code pool offset) := by
  obtain ⟨opcode, rest, hdrop⟩ : ∃ opcode rest, code.drop offset = opcode :: rest :=
    List.exists_cons_of_ne_nil (by rw [Ne, List.drop_eq_nil_iff]; omega)
  have hlen := congrArg List.length hdrop
  rw [List.length_drop, List.length_cons] at hlen
  rw [step_eq hdrop htop]
  cases length offset opcode rest with
  | error f => exact ⟨_, rfl⟩
  | ok n =>
    dsimp only
    split
    · rename_i hfits
      rw [List.length_take] at hfits
      cases instructionClasses pool opcode (rest.take (n - 1)) with
      | error e => exact ⟨e, rfl⟩
      | ok names => exact ⟨by omega, by omega⟩
    · exact ⟨_, rfl⟩

theorem walkFrom_eq (found : List (List String)) (htop : code.length + 2 ^ 35 ≤ top)
    (hdrop : code.drop offset = rest) : walkFrom top code pool offset found.reverse.flatten =
      (walk pool offset rest found).mapError .malformed := by
  have hinside : ∀ {offset opcode rest}, code.drop offset = opcode :: rest →
      offset < code.length := by
    intro offset opcode rest h
    have hlen := congrArg List.length h
    rw [List.length_drop, List.length_cons] at hlen
    omega
  fun_induction walk pool offset rest found with
  | case1 offset found =>
    rw [walkFrom, if_neg (by rw [List.drop_eq_nil_iff] at hdrop; omega)]
    rfl
  | case2 offset found opcode rest f hn =>
    rw [walkFrom, if_pos (hinside hdrop), step_eq hdrop htop, hn]
    rfl
  | case3 offset found opcode rest n hn hfits names hnames ih =>
    have hnext : code.drop (offset + n) = rest.drop (n - 1) := by
      obtain ⟨k, rfl⟩ : ∃ k, n = 1 + k := ⟨n - 1, by omega⟩
      rw [← List.drop_drop, hdrop, Nat.add_sub_cancel_left, Nat.add_comm 1 k]
      rfl
    have hfound : (names :: found).reverse.flatten = found.reverse.flatten ++ names := by simp
    rw [← ih hnext, hfound, walkFrom, if_pos (hinside hdrop), step_eq hdrop htop, hn]
    simp only [if_pos hfits, hnames]
    exact if_pos (by omega)
  | case4 offset found opcode rest n hn hfits e he =>
    rw [walkFrom, if_pos (hinside hdrop), step_eq hdrop htop, hn]
    simp only [if_pos hfits, he]
    rfl
  | case5 offset found opcode rest n hn hfits =>
    rw [walkFrom, if_pos (hinside hdrop), step_eq hdrop htop, hn]
    simp only [if_neg hfits]
    rfl

/-- With room behind the code for one more instruction, no turn at an offset in the code goes wrong,
and the whole walk ends as the scan does: with its classes, or because the code is malformed. -/
theorem run_eq_referencedClasses (pool : ConstantPool) (code : List UInt8) {top : Nat}
    (htop : code.length + 2 ^ 35 ≤ top) :
    (∀ offset < code.length, Advances code offset (step top code pool offset)) ∧
    run top code pool = (referencedClasses pool code).mapError .malformed :=
  ⟨fun _ hlt => step_advances htop hlt, walkFrom_eq [] htop rfl⟩

/-- The largest table that 32 bits can count, and no jumps behind it. -/
def hugeTable : List UInt8 :=
  [0x12, 2, 0xbb, 0, 2, 0xaa, 0, 0, 0, 0, 0, 0, 0x80, 0, 0, 0, 0xff, 0xff, 0xff, 0xfe]

def onePool : ConstantPool where
  slots := #[some (.utf8 "a/B"), some (.classInfo 1)]

theorem run_eq_referencedClasses_hugeTable :
    hugeTable.length + 2 ^ 35 ≤ 2 ^ 64 ∧
    step (2 ^ 64) hugeTable onePool 0 = .ok (["a/B"], 2) ∧
    Advances hugeTable 0 (step (2 ^ 64) hugeTable onePool 0) ∧
    lengthAt (2 ^ 64) hugeTable 5 = .ok (2 ^ 33 + 11) ∧
    run (2 ^ 64) hugeTable onePool = .error (fault (.length 5)) := by
  have htop : hugeTable.length + 2 ^ 35 ≤ 2 ^ 64 := by decide
  obtain ⟨hstep, hrun⟩ := run_eq_referencedClasses onePool hugeTable htop
  refine ⟨htop, by decide +kernel, hstep 0 (by decide), by decide +kernel, ?_⟩
  rw [hrun]
  decide +kernel

end ClassDeps.ClassFile.Bytecode.Indexed
