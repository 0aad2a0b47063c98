import ClassDeps.ClassFile.ConstantPool
import ClassDeps.ClassFile.Descriptor

namespace ClassDeps.ClassFile.Bytecode

/-- A big-endian signed number of four bytes at position `i`. -/
def signedAt (i : Nat) (operands : List UInt8) : Except BytecodeFault Int :=
  match operands.drop i with
  | a :: b :: c :: d :: _ =>
    .ok (Int.bmod (a.toNat * 0x1000000 + b.toNat * 0x10000 + c.toNat * 0x100 + d.toNat)
      0x100000000)
  | _ => .error .operand

/-- The bytes between a switch opcode at `offset` and its operands, which are aligned to four. -/
def padding (offset : Nat) : Nat :=
  (4 - (offset + 1) % 4) % 4

/-- The number of jumps of a table switch from `low` to `high`, if it is not negative and fits
in 31 bits. -/
def tableCount? (low high : Int) : Option Nat :=
  let count := high - low + 1
  if 0 ≤ count ∧ count < 0x80000000 then some count.toNat else none

/-- The length of the instruction `opcode` at `offset`, whose operands start `operands`. -/
def length (offset : Nat) (opcode : UInt8) (operands : List UInt8) : Except BytecodeFault Nat :=
  if opcode ≤ 0x0f then .ok 1
  else if opcode = 0x10 then .ok 2
  else if opcode = 0x11 then .ok 3
  else if opcode = 0x12 then .ok 2
  else if opcode ≤ 0x14 then .ok 3
  else if opcode ≤ 0x19 then .ok 2
  else if opcode ≤ 0x35 then .ok 1
  else if opcode ≤ 0x3a then .ok 2
  else if opcode ≤ 0x83 then .ok 1
  else if opcode = 0x84 then .ok 3
  else if opcode ≤ 0x98 then .ok 1
  else if opcode ≤ 0xa8 then .ok 3
  else if opcode = 0xa9 then .ok 2
  else if opcode = 0xaa then do
    let pad := padding offset
    let low ← signedAt (pad + 4) operands
    let high ← signedAt (pad + 8) operands
    match tableCount? low high with
    | some count => .ok (1 + pad + 12 + 4 * count)
    | none => .error .tableRange
  else if opcode = 0xab then do
    let pad := padding offset
    let pairs ← signedAt (pad + 4) operands
    if pairs < 0 then .error .lookupPairs
    else .ok (1 + pad + 8 + 8 * pairs.toNat)
  else if opcode ≤ 0xb1 then .ok 1
  else if opcode ≤ 0xb8 then .ok 3
  else if opcode ≤ 0xba then .ok 5
  else if opcode = 0xbb then .ok 3
  else if opcode = 0xbc then .ok 2
  else if opcode = 0xbd then .ok 3
  else if opcode ≤ 0xbf then .ok 1
  else if opcode ≤ 0xc1 then .ok 3
  else if opcode ≤ 0xc3 then .ok 1
  else if opcode = 0xc4 then
    match operands with
    | widened :: _ => .ok (if widened = 0x84 then 6 else 4)
    | [] => .error .wideOpcode
  else if opcode = 0xc5 then .ok 4
  else if opcode ≤ 0xc7 then .ok 3
  else if opcode ≤ 0xc9 then .ok 5
  else if opcode = 0xca then .ok 1
  else if 0xfe ≤ opcode then .ok 1
  else .error (.opcode opcode)

/-- What the operand of an instruction points to in the constant pool. -/
inductive Operand where
  /-- A constant to load, by an index of one byte or two. -/
  | loadable
  | field
  | method
  | callSite
  | type
deriving DecidableEq, Repr

def operand? (opcode : UInt8) : Option Operand :=
  if 0x12 ≤ opcode ∧ opcode ≤ 0x14 then some .loadable
  else if 0xb2 ≤ opcode ∧ opcode ≤ 0xb5 then some .field
  else if 0xb6 ≤ opcode ∧ opcode ≤ 0xb9 then some .method
  else if opcode = 0xba then some .callSite
  else if opcode = 0xbb ∨ opcode = 0xbd ∨ opcode = 0xc0 ∨ opcode = 0xc1 ∨ opcode = 0xc5 then
    some .type
  else none

/-- The index that the operands start with: two bytes, or one after opcode 0x12. -/
def poolIndex (opcode : UInt8) : List UInt8 → Except BytecodeFault UInt16
  | a :: rest =>
    if opcode = 0x12 then .ok a.toUInt16
    else
      match rest with
      | b :: _ => .ok (UInt16.ofNat (a.toNat * 0x100 + b.toNat))
      | [] => .error .operand
  | [] => .error .operand

/-- The class a name stands for, as a list of at most one. -/
def elementClasses (name : String) : List String :=
  (Descriptor.elementClass? name).toList

def loadableClasses (pool : ConstantPool) (i : UInt16) : Except Malformed (List String) := do
  match ← pool.get i with
  | .classInfo _ => return elementClasses (← pool.className i)
  | .methodType descriptor => Descriptor.methodTypeNames (← pool.utf8 descriptor)
  | .methodHandle _ reference => return elementClasses (← pool.memberRef reference).owner
  | .dynamic _ nameAndType => Descriptor.fieldTypeNames (← pool.nameAndType nameAndType).2
  | _ => return []

/-- The classes that the constant at `i` contributes as an operand of the given kind. -/
def operandClasses (pool : ConstantPool) (i : UInt16) : Operand → Except Malformed (List String)
  | .loadable => loadableClasses pool i
  | .field => do
    let target ← pool.memberRef i
    return elementClasses target.owner ++ (← Descriptor.fieldTypeNames target.descriptor)
  | .method => do
    let target ← pool.memberRef i
    return elementClasses target.owner ++ (← Descriptor.methodTypeNames target.descriptor)
  | .callSite => do
    match ← pool.get i with
    | .invokeDynamic _ nameAndType =>
      Descriptor.methodTypeNames (← pool.nameAndType nameAndType).2
    | _ => .error (.entry i .invokeDynamic)
  | .type => return elementClasses (← pool.className i)

/-- The classes that one instruction refers to. -/
def instructionClasses (pool : ConstantPool) (opcode : UInt8) (operands : List UInt8) :
    Except Malformed (List String) :=
  match operand? opcode with
  | none => .ok []
  | some kind =>
    match poolIndex opcode operands with
    | .ok i => operandClasses pool i kind
    | .error fault => .error (.bytecode fault)

/-- Walks the instructions from `offset` on and adds the classes of each to those found. -/
def walk (pool : ConstantPool) (offset : Nat) (code : List UInt8) (found : List (List String)) :
    Except Malformed (List String) :=
  match code with
  | [] => .ok found.reverse.flatten
  | opcode :: rest =>
    match length offset opcode rest with
    | .error fault => .error (.bytecode fault)
    | .ok n =>
      if (rest.take (n - 1)).length + 1 = n then
        match instructionClasses pool opcode (rest.take (n - 1)) with
        | .ok names => walk pool (offset + n) (rest.drop (n - 1)) (names :: found)
        | .error e => .error e
      else .error (.bytecode (.length offset))
termination_by code.length
decreasing_by simp only [List.length_drop, List.length_cons]; omega

/-- The internal names of the classes that a method body refers to, in instruction order. -/
def referencedClasses (pool : ConstantPool) (code : List UInt8) :
    Except Malformed (List String) :=
  walk pool 0 code []

end ClassDeps.ClassFile.Bytecode
