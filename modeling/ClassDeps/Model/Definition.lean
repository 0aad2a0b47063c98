import ClassDeps.ClassFile.Basic
import Std.Data.ExtTreeSet

namespace ClassDeps

structure ClassDefinition where
  name : String
  size : Nat
  codeSize : Nat
  outer : Option String
  annotations : Std.ExtTreeSet String
  uses : Std.ExtTreeSet String
deriving DecidableEq

namespace ClassFile

/-- The internal names of the classes that an attribute mentions. -/
def Attribute.classes : Attribute → Except Malformed (List String)
  | annotations _ items => .ok (items.flatMap fun a => a.type :: a.classes)
  | signature text => Signature.referencedTypes text
  | innerClasses items =>
    .ok (items.flatMap fun c => (c.inner :: c.outer.toList).flatMap Bytecode.elementClasses)
  | enclosingMethod owner none => .ok (Bytecode.elementClasses owner)
  | enclosingMethod owner (some (_, descriptor)) => do
    return Bytecode.elementClasses owner ++ (← Descriptor.methodTypeNames descriptor)
  | code body => .ok body.classes
  | exceptions names => .ok names
  | other _ _ => .ok []

def attributeClasses (attributes : List Attribute) : Except Malformed (List String) :=
  return (← attributes.mapM Attribute.classes).flatten

/-- The classes of a member, given how its descriptor is read. -/
def Member.classes (typeNames : String → Except Malformed (List String)) (m : Member) :
    Except Malformed (List String) := do
  let own ← typeNames m.descriptor
  return own ++ (← attributeClasses m.attributes)

/-- The element classes of the class constants. -/
def ConstantPool.classes (pool : ConstantPool) : Except Malformed (List String) := do
  let names ← pool.entries.mapM fun
    | (i, .classInfo _) => return Bytecode.elementClasses (← pool.className i)
    | _ => return []
  return names.flatten

/-- Every class that a class file mentions, by internal name. -/
def mentioned (c : ClassFile) : Except Malformed (List String) := do
  let constants ← c.pool.classes
  let hierarchy := (c.superName.toList ++ c.interfaces).flatMap Bytecode.elementClasses
  let fields ← c.fields.mapM (Member.classes Descriptor.fieldTypeNames)
  let methods ← c.methods.mapM (Member.classes Descriptor.methodTypeNames)
  let own ← attributeClasses c.attributes
  return constants ++ hierarchy ++ fields.flatten ++ methods.flatten ++ own

/-- The outer class that a table of nested classes gives the class `name`. -/
def Attribute.outerOf? (name : String) : Attribute → Option String
  | innerClasses items => (items.find? (·.inner = name)).bind (·.outer)
  | _ => none

/-- The class around the class, from its table of nested classes or else from the method that
encloses it. -/
def outer? (c : ClassFile) : Option String :=
  (c.attributes.findSome? (Attribute.outerOf? c.name)).or
    (c.attributes.findSome? fun
      | .enclosingMethod owner _ => some owner
      | _ => none)

/-- The types of the annotations on the class itself. -/
def annotationTypes (c : ClassFile) : List String :=
  c.attributes.flatMap fun
    | .annotations _ items => items.map (·.type)
    | _ => []

def definition (c : ClassFile) : Except Malformed ClassDefinition := do
  let mentioned ← c.mentioned
  let name := Descriptor.dotted c.name
  return {
    name
    size := c.size
    codeSize := (c.methods.map Member.codeSize).foldr (· + ·) 0
    outer := c.outer?.map Descriptor.dotted
    annotations := Std.ExtTreeSet.ofList (c.annotationTypes.map Descriptor.dotted)
    uses := (Std.ExtTreeSet.ofList (mentioned.map Descriptor.dotted)).erase name
  }

end ClassFile

end ClassDeps
