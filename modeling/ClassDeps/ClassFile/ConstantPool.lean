import ClassDeps.ClassFile.Decoder
import ClassDeps.Text.ModifiedUtf8

namespace ClassDeps.ClassFile

inductive MemberKind where
  | field
  | method
  | interfaceMethod
deriving DecidableEq, Repr

inductive Constant where
  | utf8 (text : String)
  | integer (value : Int32)
  | float (bits : UInt32)
  | long (value : Int64)
  | double (bits : UInt64)
  | classInfo (name : UInt16)
  | string (text : UInt16)
  | member (kind : MemberKind) (owner nameAndType : UInt16)
  | nameAndType (name descriptor : UInt16)
  | methodHandle (kind : UInt8) (reference : UInt16)
  | methodType (descriptor : UInt16)
  | dynamic (bootstrap nameAndType : UInt16)
  | invokeDynamic (bootstrap nameAndType : UInt16)
  | moduleInfo (name : UInt16)
  | packageInfo (name : UInt16)
deriving DecidableEq, Repr

/-- How many slots of the pool a constant takes. -/
def Constant.width : Constant → Nat
  | .long _ | .double _ => 2
  | _ => 1

theorem Constant.width_eq (c : Constant) : c.width = 1 ∨ c.width = 2 := by
  unfold width
  split
  · exact .inr rfl
  · exact .inr rfl
  · exact .inl rfl

/-- The slots of a pool in order, the first having index 1. The slot after a constant that takes
two is empty. -/
structure ConstantPool where
  slots : Array (Option Constant)
deriving DecidableEq, Repr

/-- A field, method or interface method with its names looked up. -/
structure MemberRef where
  owner : String
  name : String
  descriptor : String
deriving DecidableEq, Repr

namespace ConstantPool

def size (pool : ConstantPool) : Nat :=
  pool.slots.size

/-- The constants with their indices, in index order. -/
def entries (pool : ConstantPool) : List (UInt16 × Constant) :=
  pool.slots.toList.zipIdx.filterMap fun slot =>
    slot.1.map fun c => (UInt16.ofNat (slot.2 + 1), c)

def get (pool : ConstantPool) (i : UInt16) : Except Malformed Constant :=
  if i = 0 then .error (.index i)
  else
    match pool.slots[i.toNat - 1]? with
    | some (some c) => .ok c
    | _ => .error (.index i)

def utf8 (pool : ConstantPool) (i : UInt16) : Except Malformed String := do
  match ← pool.get i with
  | .utf8 text => .ok text
  | _ => .error (.entry i .utf8)

/-- The name of a class as it is written, with slashes. -/
def className (pool : ConstantPool) (i : UInt16) : Except Malformed String := do
  match ← pool.get i with
  | .classInfo name => pool.utf8 name
  | _ => .error (.entry i .classInfo)

def nameAndType (pool : ConstantPool) (i : UInt16) : Except Malformed (String × String) := do
  match ← pool.get i with
  | .nameAndType name descriptor => return (← pool.utf8 name, ← pool.utf8 descriptor)
  | _ => .error (.entry i .nameAndType)

def memberRef (pool : ConstantPool) (i : UInt16) : Except Malformed MemberRef := do
  match ← pool.get i with
  | .member _ owner nameAndType =>
    let owner ← pool.className owner
    let (name, descriptor) ← pool.nameAndType nameAndType
    return { owner, name, descriptor }
  | _ => .error (.entry i .member)

end ConstantPool

/-- The text that the bytes of a text constant spell. -/
def textOfBytes (bytes : List UInt8) : Except Malformed String :=
  match Text.ModifiedUtf8.decode? bytes with
  | some s => .ok s
  | none => .error (.utf8 bytes)

namespace Decoder

def text : Decoder String := do
  let bytes ← run (← u16).toNat
  textOfBytes bytes

def constant : Decoder Constant := do
  let tag ← u8
  match tag with
  | 1 => return .utf8 (← text)
  | 3 => return .integer (← u32).toInt32
  | 4 => return .float (← u32)
  | 5 => return .long (← u64).toInt64
  | 6 => return .double (← u64)
  | 7 => return .classInfo (← u16)
  | 8 => return .string (← u16)
  | 9 => return .member .field (← u16) (← u16)
  | 10 => return .member .method (← u16) (← u16)
  | 11 => return .member .interfaceMethod (← u16) (← u16)
  | 12 => return .nameAndType (← u16) (← u16)
  | 15 => return .methodHandle (← u8) (← u16)
  | 16 => return .methodType (← u16)
  | 17 => return .dynamic (← u16) (← u16)
  | 18 => return .invokeDynamic (← u16) (← u16)
  | 19 => return .moduleInfo (← u16)
  | 20 => return .packageInfo (← u16)
  | _ => throw (.tag tag)

/-- The index `n` places on, or the largest if there is no such index. -/
def advance (index : UInt16) (n : Nat) : UInt16 :=
  UInt16.ofNat (min (index.toNat + n) 0xffff)

theorem toNat_advance (index : UInt16) (n : Nat) :
    (advance index n).toNat = min (index.toNat + n) 0xffff := by
  rw [advance, UInt16.toNat_ofNat']
  omega

/-- Puts a constant after those already read, with an empty slot if it takes two. -/
def pushConstant (read : Array (Option Constant)) (c : Constant) : Array (Option Constant) :=
  if c.width = 2 then (read.push (some c)).push none else read.push (some c)

/-- Constants from `index` on, put after those already read, until the index reaches `count`. A
constant of two slots may run one past the end. -/
def slotsFrom (count index : UInt16) (read : Array (Option Constant)) :
    Decoder (Array (Option Constant)) :=
  if index < count then do
    let c ← constant
    slotsFrom count (advance index c.width) (pushConstant read c)
  else return read
termination_by count.toNat - index.toNat
decreasing_by
  rename_i hlt
  have hwidth := c.width_eq
  have hcount := count.toNat_lt
  rw [UInt16.lt_iff_toNat_lt] at hlt
  rw [toNat_advance]
  omega

/-- The declared count is one more than the number of slots. -/
def constantPool : Decoder ConstantPool := do
  let count ← u16
  return { slots := ← slotsFrom count 1 #[] }

end Decoder

end ClassDeps.ClassFile
