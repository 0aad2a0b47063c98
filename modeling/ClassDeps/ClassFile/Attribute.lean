import ClassDeps.ClassFile.Bytecode

namespace ClassDeps.ClassFile

/-- An annotation's type and the classes that its element values mention. -/
structure Annotation where
  type : String
  classes : List String
deriving DecidableEq, Repr

/-- A nested class as its table lists it. -/
structure InnerClass where
  inner : String
  outer : Option String
  simpleName : Option String
  flags : UInt16
deriving DecidableEq, Repr

/-- A method body: its length and the classes that it refers to, those it catches last. -/
structure Code where
  length : UInt32
  classes : List String
deriving DecidableEq, Repr

inductive Attribute where
  | annotations (visible : Bool) (items : List Annotation)
  | signature (text : String)
  | innerClasses (items : List InnerClass)
  /-- The class around a local class, with the name and descriptor of the method if it is in one. -/
  | enclosingMethod (owner : String) (method : Option (String × String))
  | code (body : Code)
  | exceptions (names : List String)
  | other (name : String) (length : UInt32)
deriving DecidableEq, Repr

namespace Decoder

/-- Looks an index up unless it is zero, which stands for nothing. -/
def optional {α : Type} (lookup : UInt16 → Except Malformed α) : Decoder (Option α) := do
  let i ← u16
  if i = 0 then return none else return some (← lookup i)

/-- An annotation, given how an element value is read. -/
def annotationWith (pool : ConstantPool) (value : Decoder (List String)) :
    Decoder Annotation := do
  let descriptor ← pool.utf8 (← u16)
  match ← Descriptor.fieldTypeNames descriptor with
  | [] => throw (.descriptor descriptor)
  | type :: _ =>
    let classes ← table do
      let _name ← u16
      value
    return { type, classes := classes.flatten }

/-- The classes that an element value mentions. The argument bounds the nesting of values; each
level takes a byte, so the length of the input is enough. -/
def elementValue (pool : ConstantPool) : Nat → Decoder (List String)
  | 0 => throw (.truncated .number)
  | depth + 1 => do
    let tag ← u8
    if "BCDFIJSZs".toList.any (·.toNat = tag.toNat) then
      let _constant ← u16
      return []
    else if tag.toNat = 'e'.toNat then
      let names ← Descriptor.fieldTypeNames (← pool.utf8 (← u16))
      let _constant ← u16
      return names
    else if tag.toNat = 'c'.toNat then
      Descriptor.fieldTypeNames (← pool.utf8 (← u16))
    else if tag.toNat = '@'.toNat then
      let nested ← annotationWith pool (elementValue pool depth)
      return nested.type :: nested.classes
    else if tag.toNat = '['.toNat then
      return (← table (elementValue pool depth)).flatten
    else throw (.elementValue tag)

def annotationEntry (pool : ConstantPool) : Decoder Annotation := do
  let input ← get
  annotationWith pool (elementValue pool input.length)

def annotations (pool : ConstantPool) : Decoder (List Annotation) :=
  table (annotationEntry pool)

/-- The annotations of all parameters in one list. -/
def parameterAnnotations (pool : ConstantPool) : Decoder (List Annotation) := do
  let parameters ← u8
  return (← times parameters.toNat (annotations pool)).flatten

def innerClass (pool : ConstantPool) : Decoder InnerClass := do
  let inner ← pool.className (← u16)
  let outer ← optional pool.className
  let simpleName ← optional pool.utf8
  return { inner, outer, simpleName, flags := ← u16 }

/-- The class that an exception handler catches, if it does not catch everything. -/
def handler (pool : ConstantPool) : Decoder (Option String) := do
  let _range ← run 6
  optional pool.className

/-- A method body, given how its own attributes are read. They are checked and dropped. -/
def codeWith (pool : ConstantPool) (nested : Decoder (List Attribute)) : Decoder Code := do
  let _maxStack ← u16
  let _maxLocals ← u16
  let length ← u32
  let classes ← Bytecode.referencedClasses pool (← run length.toNat)
  let caught ← table (handler pool)
  let _attributes ← nested
  return { length, classes := classes ++ caught.filterMap id }

/-- The content of the attribute `name` of the given length. -/
def attributeBody (pool : ConstantPool) (nested : Decoder (List Attribute)) (name : String)
    (length : UInt32) : Decoder Attribute := do
  match name with
  | "RuntimeVisibleAnnotations" => return .annotations true (← annotations pool)
  | "RuntimeInvisibleAnnotations" => return .annotations false (← annotations pool)
  | "RuntimeVisibleParameterAnnotations" =>
    return .annotations true (← parameterAnnotations pool)
  | "RuntimeInvisibleParameterAnnotations" =>
    return .annotations false (← parameterAnnotations pool)
  | "Signature" => return .signature (← pool.utf8 (← u16))
  | "InnerClasses" => return .innerClasses (← table (innerClass pool))
  | "EnclosingMethod" =>
    let owner ← pool.className (← u16)
    return .enclosingMethod owner (← optional pool.nameAndType)
  | "Code" => return .code (← codeWith pool nested)
  | "Exceptions" => return .exceptions (← table do pool.className (← u16))
  | _ => return .other name length

def attributeWith (pool : ConstantPool) (nested : Decoder (List Attribute)) :
    Decoder Attribute := do
  let name ← pool.utf8 (← u16)
  let length ← u32
  let body ← run length.toNat
  inside body (attributeBody pool nested name length)

/-- A table of attributes. The argument bounds how deep code nests in code; the attributes of a
body lie in a shorter slice, so the length of the input is enough. -/
def attributesWithin (pool : ConstantPool) : Nat → Decoder (List Attribute)
  | 0 => throw (.truncated .number)
  | depth + 1 => table (attributeWith pool (attributesWithin pool depth))

def attributes (pool : ConstantPool) : Decoder (List Attribute) := do
  let input ← get
  attributesWithin pool input.length

end Decoder

end ClassDeps.ClassFile
