import ClassDeps.Proofs.ClassFile.Instruction

namespace ClassDeps.ClassFile.Bytecode

/-- The instructions one after the other. -/
def layout (instructions : List Instruction) : List UInt8 :=
  instructions.flatMap (·.bytes)

/-- Laid out from `offset` on, every instruction fits where it comes to lie. -/
def Aligned (offset : Nat) : List Instruction → Prop
  | [] => True
  | i :: rest => i.FitsAt offset ∧ Aligned (offset + i.bytes.length) rest

instance decidableAligned : (offset : Nat) → (instructions : List Instruction) →
    Decidable (Aligned offset instructions)
  | _, [] => isTrue trivial
  | offset, i :: rest =>
    have := decidableAligned (offset + i.bytes.length) rest
    inferInstanceAs (Decidable (i.FitsAt offset ∧ _))

variable {pool : ConstantPool} {offset : Nat} {found : List (List String)}

/-- One step of the scan reads one instruction. -/
theorem walk_bytes_append {i : Instruction} (hfits : i.FitsAt offset) (rest : List UInt8) :
    walk pool offset (i.bytes ++ rest) found = i.classes pool >>= fun names =>
      walk pool (offset + i.bytes.length) rest (names :: found) := by
  have htake : (i.operands ++ rest).take (i.bytes.length - 1) = i.operands := by
    rw [i.length_bytes, Nat.add_sub_cancel_left, List.take_left]
  have hdrop : (i.operands ++ rest).drop (i.bytes.length - 1) = rest := by
    rw [i.length_bytes, Nat.add_sub_cancel_left, List.drop_left]
  have hlen : i.operands.length + 1 = i.bytes.length := by rw [i.length_bytes, Nat.add_comm]
  conv_lhs => rw [Instruction.bytes, List.cons_append, walk]
  simp only [Instruction.length_eq hfits rest, htake, hdrop, hlen, if_true,
    Instruction.instructionClasses_eq]
  cases i.classes pool with
  | ok names => rfl
  | error e => rfl

theorem walk_layout {instructions : List Instruction} (h : Aligned offset instructions) :
    walk pool offset (layout instructions) found =
      (instructions.mapM (Instruction.classes pool)).map fun names =>
        found.reverse.flatten ++ names.flatten := by
  induction instructions generalizing offset found with
  | nil =>
    rw [layout, List.flatMap_nil, walk, List.mapM_nil]
    exact congrArg Except.ok (List.append_nil _).symm
  | cons i rest ih =>
    rw [layout, List.flatMap_cons, walk_bytes_append h.1, List.mapM_cons]
    cases hclasses : i.classes pool with
    | error e => rfl
    | ok names =>
      show walk pool _ (layout rest) (names :: found) = _
      rw [ih h.2]
      cases rest.mapM (Instruction.classes pool) with
      | error e => rfl
      | ok tail =>
        apply congrArg Except.ok
        simp

theorem exists_layout_of_walk {code : List UInt8} {names : List String}
    (h : walk pool offset code found = .ok names) :
    ∃ instructions, Aligned offset instructions ∧ layout instructions = code := by
  fun_induction walk pool offset code found with
  | case1 offset found => exact ⟨[], trivial, rfl⟩
  | case2 => cases h
  | case3 offset found opcode rest n hlen htake own hown ih =>
    obtain ⟨instructions, haligned, hlayout⟩ := ih h
    have hn : 1 + (rest.take (n - 1)).length = n := by omega
    have hstep : length offset opcode (rest.take (n - 1) ++ rest.drop (n - 1)) =
        .ok (1 + (rest.take (n - 1)).length) := by
      rw [List.take_append_drop, hlen, hn]
    obtain ⟨i, hfits, hbytes⟩ := Instruction.exists_bytes_eq hstep
    have hsize : i.bytes.length = n := by rw [hbytes, List.length_cons, htake]
    refine ⟨i :: instructions, ⟨hfits, by rwa [hsize]⟩, ?_⟩
    rw [layout, List.flatMap_cons, hbytes, List.cons_append]
    show opcode :: (rest.take (n - 1) ++ layout instructions) = opcode :: rest
    rw [hlayout, List.take_append_drop]
  | case4 => cases h
  | case5 => cases h

theorem layout_injective {is js : List Instruction} (hi : Aligned offset is)
    (hj : Aligned offset js) (h : layout is = layout js) : is = js := by
  induction is generalizing offset js with
  | nil =>
    match js, h with
    | [], _ => rfl
  | cons i is ih =>
    match js, hj, h with
    | j :: js, hj, h =>
      rw [layout, layout, List.flatMap_cons, List.flatMap_cons] at h
      have hcons : i.opcode :: (i.operands ++ layout is) =
          j.opcode :: (j.operands ++ layout js) := h
      obtain ⟨hopcode, htail⟩ := List.cons.inj hcons
      -- Both first instructions have the length that the table gives for the same bytes.
      have hsize : i.bytes.length = j.bytes.length := by
        have hlen := Instruction.length_eq hi.1 (layout is)
        rw [hopcode, htail, Instruction.length_eq hj.1 (layout js)] at hlen
        exact (Except.ok.inj hlen).symm
      obtain ⟨hbytes, hrest⟩ := List.append_inj h hsize
      obtain rfl := Instruction.eq_of_bytes_eq hi.1 hj.1 hbytes
      rw [ih hi.2 hj.2 hrest]

/-- The scan sees exactly the instructions. On a layout it gives the classes of each instruction in
order, or the first failure among them; and what it accepts is the layout of exactly one sequence
of instructions. -/
theorem referencedClasses_layout (pool : ConstantPool) :
    (∀ instructions, Aligned 0 instructions → referencedClasses pool (layout instructions) =
      (instructions.mapM (Instruction.classes pool)).map List.flatten) ∧
    ∀ code names, referencedClasses pool code = .ok names →
      ∃! instructions, Aligned 0 instructions ∧ layout instructions = code := by
  constructor
  · intro instructions h
    rw [referencedClasses, walk_layout h]
    rfl
  · intro code names h
    obtain ⟨instructions, haligned, hlayout⟩ := exists_layout_of_walk h
    refine ⟨instructions, ⟨haligned, hlayout⟩, ?_⟩
    intro others hothers
    exact layout_injective hothers.1 haligned (hothers.2.trans hlayout.symm)

def switchPool : ConstantPool where
  slots := #[some (.utf8 "a/B"), some (.classInfo 1), some (.utf8 "run"), some (.utf8 "()Lc/D;"),
    some (.nameAndType 3 4), some (.member .interfaceMethod 2 5)]

/-- Both switches need two bytes of filler where they lie. -/
def switchBody : List Instruction :=
  [.immediate 0x01 [] rfl,
   .tableSwitch [7, 9] 0 (-1) 1 [4, 5, 6] rfl (by decide),
   .loadConstant 2,
   .constant 0xb9 .method 6 [1, 0] rfl,
   .wide 0x84 [0, 1, 0, 2] rfl,
   .lookupSwitch [0, 255] 0 [(1, 2)] (by decide),
   .wide 0x15 [1, 1] rfl]

theorem referencedClasses_layout_switches :
    Aligned 0 switchBody ∧
    referencedClasses switchPool (layout switchBody) = .ok ["a/B", "a/B", "c/D"] ∧
    ∃! instructions, Aligned 0 instructions ∧ layout instructions = layout switchBody := by
  have haligned : Aligned 0 switchBody := by decide
  have hclasses : referencedClasses switchPool (layout switchBody) =
      .ok ["a/B", "a/B", "c/D"] := by
    rw [(referencedClasses_layout switchPool).1 switchBody haligned]
    decide +kernel
  exact ⟨haligned, hclasses, (referencedClasses_layout switchPool).2 _ _ hclasses⟩

end ClassDeps.ClassFile.Bytecode
