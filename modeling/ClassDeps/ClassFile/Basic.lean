import ClassDeps.ClassFile.Attribute

namespace ClassDeps

namespace ClassFile

/-- A field or a method. -/
structure Member where
  flags : UInt16
  name : String
  descriptor : String
  attributes : List Attribute
deriving DecidableEq, Repr

namespace Member

/-- The first method body among the attributes. -/
def code? (m : Member) : Option Code :=
  m.attributes.findSome? fun
    | .code body => some body
    | _ => none

def codeSize (m : Member) : Nat :=
  (m.code?.map (·.length.toNat)).getD 0

/-- The declared exceptions, from the first attribute that lists any. -/
def exceptions (m : Member) : List String :=
  (m.attributes.findSome? fun
    | .exceptions names => some names
    | _ => none).getD []

end Member

end ClassFile

/-- A decoded class. Names are internal, with slashes. -/
structure ClassFile where
  minorVersion : UInt16
  majorVersion : UInt16
  pool : ClassFile.ConstantPool
  flags : UInt16
  name : String
  superName : Option String
  interfaces : List String
  fields : List ClassFile.Member
  methods : List ClassFile.Member
  attributes : List ClassFile.Attribute
  /-- The number of bytes that the class was read from. -/
  size : Nat
deriving DecidableEq, Repr

namespace ClassFile

/-- The number that every class starts with. -/
def magicNumber : UInt32 := 0xcafebabe

namespace Decoder

def member (pool : ConstantPool) : Decoder Member := do
  let flags ← u16
  let name ← pool.utf8 (← u16)
  let descriptor ← pool.utf8 (← u16)
  return { flags, name, descriptor, attributes := ← attributes pool }

/-- A class in an input of `size` bytes. -/
def classFile (size : Nat) : Decoder ClassFile := do
  let magic ← u32
  if magic ≠ magicNumber then throw (.magic magic)
  let minorVersion ← u16
  let majorVersion ← u16
  let pool ← constantPool
  let flags ← u16
  let name ← pool.className (← u16)
  let superName ← optional pool.className
  let interfaces ← table do pool.className (← u16)
  let fields ← table (member pool)
  let methods ← table (member pool)
  let attributes ← attributes pool
  return { minorVersion, majorVersion, pool, flags, name, superName, interfaces, fields, methods,
           attributes, size }

end Decoder

/-- Decodes one compiled class. Bytes after it are ignored but count towards its size. -/
def decode (data : List UInt8) : Except Malformed ClassFile :=
  match Decoder.classFile data.length data with
  | .ok (c, _) => .ok c
  | .error e => .error e

end ClassFile

end ClassDeps
