import ClassDeps.Text.Hex

namespace ClassDeps.ClassFile

/-- What the input ended inside: one number, or a run of bytes of declared length. -/
inductive Cut where
  | number
  | run
deriving DecidableEq, Repr

def Cut.message : Cut → String
  | number => "failed to fill whole buffer"
  | run => "unexpected end of file"

/-- The kind of constant that an index has to point to. -/
inductive Wanted where
  | utf8
  | classInfo
  | nameAndType
  | member
  | invokeDynamic
deriving DecidableEq, Repr

def Wanted.name : Wanted → String
  | utf8 => "Utf8"
  | classInfo => "Class"
  | nameAndType => "NameAndType"
  | member => "member reference"
  | invokeDynamic => "InvokeDynamic"

/-- Why a method body is not a sequence of instructions. -/
inductive BytecodeFault where
  | length (offset : Nat)
  | opcode (code : UInt8)
  | wideOpcode
  | tableRange
  | lookupPairs
  | operand
deriving DecidableEq, Repr

def BytecodeFault.message : BytecodeFault → String
  | length offset => s!"invalid instruction length at offset {offset}"
  | opcode code => "unsupported opcode 0x" ++ Text.hex 2 code.toNat
  | wideOpcode => "missing wide opcode"
  | tableRange => "invalid tableswitch range"
  | lookupPairs => "invalid lookupswitch pairs"
  | operand => "operand out of bounds"

inductive Malformed where
  | magic (found : UInt32)
  | truncated (cut : Cut)
  | index (index : UInt16)
  | entry (index : UInt16) (wanted : Wanted)
  | tag (tag : UInt8)
  /-- The bytes of a text constant that are not modified UTF-8. -/
  | utf8 (bytes : List UInt8)
  | descriptor (text : String)
  | bytecode (fault : BytecodeFault)
  /-- An annotation holds an element value of no known kind. -/
  | elementValue (tag : UInt8)
deriving DecidableEq, Repr

/-- The bytes as `[C0, 80]`. -/
def byteList (bytes : List UInt8) : String :=
  "[" ++ String.intercalate ", " (bytes.map fun b => Text.hexUpper 2 b.toNat) ++ "]"

namespace Malformed

def message : Malformed → String
  | magic found => "invalid magic identifier 0x" ++ Text.hexUpper 8 found.toNat
  | truncated _ => "truncated class file"
  | index i => s!"invalid constant pool index {i}"
  | entry i wanted => s!"constant pool entry {i} is not a " ++ wanted.name
  | tag t => s!"unknown constant pool tag {t}"
  | utf8 bytes => "invalid modified UTF-8 constant " ++ byteList bytes
  | descriptor text => "invalid descriptor '" ++ text ++ "'"
  | bytecode fault => "invalid bytecode: " ++ fault.message
  | elementValue t => s!"invalid annotation attribute: unknown element value tag {t}"

/-- What lies under a failure, if it has a cause of its own. -/
def cause? : Malformed → Option String
  | truncated cut => some cut.message
  | _ => none

end Malformed

end ClassDeps.ClassFile
