import ClassDeps.ClassFile.Basic
import ClassDeps.Proofs.ClassFile.ConstantPool

namespace ClassDeps.ClassFile.Stored

variable {α : Type}

/-- The result of a lookup, or the default where there is none. -/
def found [Inhabited α] : Except Malformed α → α
  | .ok a => a
  | .error _ => default

theorem isOk_iff {x : Except Malformed α} : x.isOk ↔ ∃ a, x = .ok a := by
  cases x with
  | ok a => exact ⟨fun _ => ⟨a, rfl⟩, fun _ => rfl⟩
  | error e => simp [Except.isOk, Except.toBool]

theorem eq_ok_found [Inhabited α] {x : Except Malformed α} (h : x.isOk) : x = .ok (found x) := by
  cases x with
  | ok a => rfl
  | error e => cases h

/-- What an index stands for if zero stands for nothing. -/
def foundOptional [Inhabited α] (lookup : UInt16 → Except Malformed α) (i : UInt16) : Option α :=
  if i = 0 then none else some (found (lookup i))

section

variable (pool : ConstantPool) (i : UInt16)

/-- The index points to a text. -/
def IsText : Prop :=
  ∃ text, pool.get i = .ok (.utf8 text)

/-- The index points to a class constant, and that to the text of its name. -/
def IsClass : Prop :=
  ∃ j name, pool.get i = .ok (.classInfo j) ∧ pool.get j = .ok (.utf8 name)

/-- A table of indices that all point to class constants. -/
def AreClasses (indices : List UInt16) : Prop :=
  indices.length < 0x10000 ∧ ∀ i ∈ indices, IsClass pool i

/-- The index points to a name and a descriptor, and these to texts. -/
def IsNameAndType : Prop :=
  ∃ j k name descriptor, pool.get i = .ok (.nameAndType j k) ∧
    pool.get j = .ok (.utf8 name) ∧ pool.get k = .ok (.utf8 descriptor)

/-- The index points to the text of a valid field descriptor. -/
def IsDescriptor : Prop :=
  ∃ text names, pool.get i = .ok (.utf8 text) ∧ Descriptor.fieldTypeNames text = .ok names

/-- The index points to the text of a field descriptor that names a class. -/
def IsClassDescriptor : Prop :=
  ∃ text name more, pool.get i = .ok (.utf8 text) ∧
    Descriptor.fieldTypeNames text = .ok (name :: more)

/-- The class types of the field descriptor at an index. -/
def types : Except Malformed (List String) := do
  Descriptor.fieldTypeNames (← pool.utf8 i)

end

section

variable {pool : ConstantPool} {i : UInt16}

theorem isText_iff : IsText pool i ↔ (pool.utf8 i).isOk := by
  simp only [IsText, isOk_iff, ConstantPool.utf8_eq_ok_iff]

theorem isClass_iff : IsClass pool i ↔ (pool.className i).isOk := by
  simp only [IsClass, isOk_iff, ConstantPool.className_eq_ok_iff]
  exact exists_comm

theorem isNameAndType_iff : IsNameAndType pool i ↔ (pool.nameAndType i).isOk := by
  simp only [IsNameAndType, isOk_iff, Prod.exists, ConstantPool.nameAndType_eq_ok_iff]
  constructor
  · rintro ⟨j, k, name, descriptor, h⟩
    exact ⟨name, descriptor, j, k, h⟩
  · rintro ⟨name, descriptor, j, k, h⟩
    exact ⟨j, k, name, descriptor, h⟩

theorem types_eq_ok_iff {names : List String} : types pool i = .ok names ↔
    ∃ text, pool.get i = .ok (.utf8 text) ∧ Descriptor.fieldTypeNames text = .ok names := by
  simp only [types, bind_eq_ok_iff, ConstantPool.utf8_eq_ok_iff]

theorem isDescriptor_iff : IsDescriptor pool i ↔ (types pool i).isOk := by
  simp only [IsDescriptor, isOk_iff, types_eq_ok_iff]
  exact exists_comm

theorem isClassDescriptor_iff :
    IsClassDescriptor pool i ↔ (types pool i).isOk ∧ found (types pool i) ≠ [] := by
  constructor
  · rintro ⟨text, name, more, hget, hnames⟩
    rw [types_eq_ok_iff.mpr ⟨text, hget, hnames⟩]
    exact ⟨rfl, List.cons_ne_nil name more⟩
  · rintro ⟨hok, hne⟩
    obtain ⟨name, more, hfound⟩ := List.exists_cons_of_ne_nil hne
    have htypes := eq_ok_found hok
    rw [hfound] at htypes
    obtain ⟨text, hget, hnames⟩ := types_eq_ok_iff.mp htypes
    exact ⟨text, name, more, hget, hnames⟩

end

instance (pool : ConstantPool) : DecidablePred (IsText pool) :=
  fun _ => decidable_of_iff _ isText_iff.symm

instance (pool : ConstantPool) : DecidablePred (IsClass pool) :=
  fun _ => decidable_of_iff _ isClass_iff.symm

-- Indices are finitely many, but only those of the list are to be tried.
instance (pool : ConstantPool) (indices : List UInt16) : Decidable (AreClasses pool indices) :=
  have : Decidable (∀ i ∈ indices, IsClass pool i) := List.decidableBAll _ indices
  inferInstanceAs (Decidable (_ ∧ _))

instance (pool : ConstantPool) : DecidablePred (IsNameAndType pool) :=
  fun _ => decidable_of_iff _ isNameAndType_iff.symm

instance (pool : ConstantPool) : DecidablePred (IsDescriptor pool) :=
  fun _ => decidable_of_iff _ isDescriptor_iff.symm

instance (pool : ConstantPool) : DecidablePred (IsClassDescriptor pool) :=
  fun _ => decidable_of_iff _ isClassDescriptor_iff.symm

/-- The value of an annotation's element. -/
inductive ElementValue where
  /-- A number, a character, a truth value or a text, told apart by the tag. -/
  | constant (tag : Char) (value : UInt16)
  | enumConstant (type name : UInt16)
  | classLiteral (descriptor : UInt16)
  /-- An annotation as a value. -/
  | nested (type : UInt16) (elements : List (UInt16 × ElementValue))
  | array (items : List ElementValue)

/-- An annotation with its named elements. -/
structure AnnotationItem where
  type : UInt16
  elements : List (UInt16 × ElementValue)

namespace ElementValue

def constantTags : List Char :=
  "BCDFIJSZs".toList

def tagByte (tag : Char) : UInt8 :=
  UInt8.ofNat tag.toNat

theorem sizeOf_item_lt {v : ElementValue} {items : List ElementValue} (h : v ∈ items) :
    sizeOf v < sizeOf (array items) := by
  have := List.sizeOf_lt_of_mem h
  rw [array.sizeOf_spec]
  omega

theorem sizeOf_element_lt {e : UInt16 × ElementValue} {type : UInt16}
    {elements : List (UInt16 × ElementValue)} (h : e ∈ elements) :
    sizeOf e.2 < sizeOf (nested type elements) := by
  have hmem := List.sizeOf_lt_of_mem h
  have hpair : sizeOf e = 1 + sizeOf e.1 + sizeOf e.2 := rfl
  rw [nested.sizeOf_spec]
  omega

def bytes : ElementValue → List UInt8
  | constant tag value => [tagByte tag] ++ Encoder.u16 value
  | enumConstant type name => [tagByte 'e'] ++ (Encoder.u16 type ++ Encoder.u16 name)
  | classLiteral descriptor => [tagByte 'c'] ++ Encoder.u16 descriptor
  | nested type elements =>
    [tagByte '@'] ++ (Encoder.u16 type ++ (Encoder.u16 (UInt16.ofNat elements.length) ++
      elements.flatMap fun e => Encoder.u16 e.1 ++ e.2.bytes))
  | array items =>
    [tagByte '['] ++ (Encoder.u16 (UInt16.ofNat items.length) ++ items.flatMap bytes)
termination_by v => sizeOf v
decreasing_by
  · exact sizeOf_element_lt ‹_›
  · exact sizeOf_item_lt ‹_›

/-- Tags are known, counts fit in two bytes and types have descriptors; that of an annotation names
a class. -/
def Valid (pool : ConstantPool) : ElementValue → Prop
  | constant tag _ => tag ∈ constantTags
  | enumConstant type _ => IsDescriptor pool type
  | classLiteral descriptor => IsDescriptor pool descriptor
  | nested type elements =>
    IsClassDescriptor pool type ∧ elements.length < 0x10000 ∧ ∀ e ∈ elements, e.2.Valid pool
  | array items => items.length < 0x10000 ∧ ∀ v ∈ items, v.Valid pool
termination_by v => sizeOf v
decreasing_by
  · exact sizeOf_element_lt ‹_›
  · exact sizeOf_item_lt ‹_›

/-- The classes that a value mentions, in order. -/
def classes (pool : ConstantPool) : ElementValue → List String
  | constant _ _ => []
  | enumConstant type _ => found (types pool type)
  | classLiteral descriptor => found (types pool descriptor)
  | nested type elements =>
    (found (types pool type)).headD "" :: elements.flatMap fun e => e.2.classes pool
  | array items => items.flatMap (classes pool)
termination_by v => sizeOf v
decreasing_by
  · exact sizeOf_element_lt ‹_›
  · exact sizeOf_item_lt ‹_›

instance decidableValid (pool : ConstantPool) : (v : ElementValue) → Decidable (v.Valid pool)
  | constant tag _ => decidable_of_iff (tag ∈ constantTags) (by rw [Valid])
  | enumConstant type _ => decidable_of_iff (IsDescriptor pool type) (by rw [Valid])
  | classLiteral descriptor => decidable_of_iff (IsDescriptor pool descriptor) (by rw [Valid])
  | nested type elements =>
    have : DecidablePred fun e : { e // e ∈ elements } => e.1.2.Valid pool :=
      fun e => decidableValid pool e.1.2
    decidable_of_iff (IsClassDescriptor pool type ∧ elements.length < 0x10000 ∧
      ∀ e ∈ elements.attach, e.1.2.Valid pool) (by simp [Valid])
  | array items =>
    have : DecidablePred fun v : { v // v ∈ items } => v.1.Valid pool :=
      fun v => decidableValid pool v.1
    decidable_of_iff (items.length < 0x10000 ∧ ∀ v ∈ items.attach, v.1.Valid pool)
      (by simp [Valid])
termination_by v => sizeOf v
decreasing_by
  · exact sizeOf_element_lt e.2
  · exact sizeOf_item_lt v.2

end ElementValue

namespace AnnotationItem

def bytes (a : AnnotationItem) : List UInt8 :=
  Encoder.u16 a.type ++ Encoder.table (fun e => Encoder.u16 e.1 ++ e.2.bytes) a.elements

def Valid (pool : ConstantPool) (a : AnnotationItem) : Prop :=
  (ElementValue.nested a.type a.elements).Valid pool

theorem valid_iff {pool : ConstantPool} {a : AnnotationItem} : a.Valid pool ↔
    IsClassDescriptor pool a.type ∧ a.elements.length < 0x10000 ∧
      ∀ e ∈ a.elements, e.2.Valid pool := by
  rw [Valid, ElementValue.Valid]

instance (pool : ConstantPool) (a : AnnotationItem) : Decidable (a.Valid pool) :=
  inferInstanceAs (Decidable (ElementValue.Valid pool _))

def record (pool : ConstantPool) (a : AnnotationItem) : Annotation where
  type := (found (types pool a.type)).headD ""
  classes := a.elements.flatMap fun e => e.2.classes pool

end AnnotationItem

structure InnerClassItem where
  inner : UInt16
  outer : UInt16
  simpleName : UInt16
  flags : UInt16

namespace InnerClassItem

def bytes (i : InnerClassItem) : List UInt8 :=
  Encoder.u16 i.inner ++ (Encoder.u16 i.outer ++ (Encoder.u16 i.simpleName ++ Encoder.u16 i.flags))

def Valid (pool : ConstantPool) (i : InnerClassItem) : Prop :=
  IsClass pool i.inner ∧ (i.outer = 0 ∨ IsClass pool i.outer) ∧
    (i.simpleName = 0 ∨ IsText pool i.simpleName)

instance (pool : ConstantPool) (i : InnerClassItem) : Decidable (i.Valid pool) :=
  inferInstanceAs (Decidable (_ ∧ (_ ∨ _) ∧ (_ ∨ _)))

def record (pool : ConstantPool) (i : InnerClassItem) : InnerClass where
  inner := found (pool.className i.inner)
  outer := foundOptional pool.className i.outer
  simpleName := foundOptional pool.utf8 i.simpleName
  flags := i.flags

end InnerClassItem

/-- An entry of an exception table: the instructions that it guards, where it goes on, and the class
that it catches, which is zero if it catches everything. -/
structure Handler where
  start : UInt16
  stop : UInt16
  target : UInt16
  caught : UInt16

def Handler.bytes (h : Handler) : List UInt8 :=
  Encoder.u16 h.start ++ (Encoder.u16 h.stop ++ Encoder.u16 h.target) ++ Encoder.u16 h.caught

/-- The content of an attribute. An attribute is its content with the index of its name. -/
inductive Content where
  | annotations (visible : Bool) (items : List AnnotationItem)
  | parameterAnnotations (visible : Bool) (parameters : List (List AnnotationItem))
  | signature (text : UInt16)
  | innerClasses (items : List InnerClassItem)
  | enclosingMethod (owner method : UInt16)
  | code (maxStack maxLocals : UInt16) (instructions : List UInt8) (handlers : List Handler)
      (attributes : List (UInt16 × Content))
  | exceptions (classes : List UInt16)
  /-- An attribute of any other name. -/
  | other (body : List UInt8)

namespace Content

/-- The name that the content goes by. -/
def name? : Content → Option String
  | annotations visible _ =>
    some (if visible then "RuntimeVisibleAnnotations" else "RuntimeInvisibleAnnotations")
  | parameterAnnotations visible _ =>
    some (if visible then "RuntimeVisibleParameterAnnotations"
      else "RuntimeInvisibleParameterAnnotations")
  | signature _ => some "Signature"
  | innerClasses _ => some "InnerClasses"
  | enclosingMethod _ _ => some "EnclosingMethod"
  | code _ _ _ _ _ => some "Code"
  | exceptions _ => some "Exceptions"
  | other _ => none

def knownNames : List String :=
  ["RuntimeVisibleAnnotations", "RuntimeInvisibleAnnotations",
   "RuntimeVisibleParameterAnnotations", "RuntimeInvisibleParameterAnnotations", "Signature",
   "InnerClasses", "EnclosingMethod", "Code", "Exceptions"]

/-- The name at `i` is the content's own, or for other content none that is known. -/
def Named (pool : ConstantPool) (i : UInt16) (c : Content) : Prop :=
  IsText pool i ∧ (c.name? = some (found (pool.utf8 i)) ∨
    c.name? = none ∧ found (pool.utf8 i) ∉ knownNames)

instance (pool : ConstantPool) (i : UInt16) (c : Content) : Decidable (c.Named pool i) :=
  inferInstanceAs (Decidable (_ ∧ (_ ∨ _ ∧ _)))

theorem sizeOf_attribute_lt {a : UInt16 × Content} {maxStack maxLocals : UInt16}
    {instructions : List UInt8} {handlers : List Handler} {attributes : List (UInt16 × Content)}
    (h : a ∈ attributes) :
    sizeOf a.2 < sizeOf (code maxStack maxLocals instructions handlers attributes) := by
  have hmem := List.sizeOf_lt_of_mem h
  have hpair : sizeOf a = 1 + sizeOf a.1 + sizeOf a.2 := rfl
  rw [code.sizeOf_spec]
  omega

def bytes : Content → List UInt8
  | annotations _ items => Encoder.table AnnotationItem.bytes items
  | parameterAnnotations _ parameters =>
    [UInt8.ofNat parameters.length] ++ parameters.flatMap (Encoder.table AnnotationItem.bytes)
  | signature text => Encoder.u16 text
  | innerClasses items => Encoder.table InnerClassItem.bytes items
  | enclosingMethod owner method => Encoder.u16 owner ++ Encoder.u16 method
  | code maxStack maxLocals instructions handlers attributes =>
    Encoder.u16 maxStack ++ (Encoder.u16 maxLocals ++
      (Encoder.u32 (UInt32.ofNat instructions.length) ++ (instructions ++
        (Encoder.table Handler.bytes handlers ++ (Encoder.u16 (UInt16.ofNat attributes.length) ++
          attributes.flatMap fun a => Encoder.u16 a.1 ++
            (Encoder.u32 (UInt32.ofNat a.2.bytes.length) ++ a.2.bytes))))))
  | exceptions classes => Encoder.table Encoder.u16 classes
  | other body => body
termination_by c => sizeOf c
decreasing_by all_goals exact sizeOf_attribute_lt ‹_›

/-- Counts and lengths fit, indices point to what they should, the instructions can be scanned, and
so on for the attributes of the code. -/
def Valid (pool : ConstantPool) : Content → Prop
  | annotations _ items => items.length < 0x10000 ∧ ∀ a ∈ items, a.Valid pool
  | parameterAnnotations _ parameters =>
    parameters.length < 0x100 ∧
      ∀ items ∈ parameters, items.length < 0x10000 ∧ ∀ a ∈ items, a.Valid pool
  | signature text => IsText pool text
  | innerClasses items => items.length < 0x10000 ∧ ∀ i ∈ items, i.Valid pool
  | enclosingMethod owner method =>
    IsClass pool owner ∧ (method = 0 ∨ IsNameAndType pool method)
  | code _ _ instructions handlers attributes =>
    (instructions.length < 0x100000000 ∧ (Bytecode.referencedClasses pool instructions).isOk) ∧
    (handlers.length < 0x10000 ∧ ∀ h ∈ handlers, h.caught = 0 ∨ IsClass pool h.caught) ∧
    attributes.length < 0x10000 ∧
      ∀ a ∈ attributes, a.2.Named pool a.1 ∧ a.2.bytes.length < 0x100000000 ∧ a.2.Valid pool
  | exceptions classes => AreClasses pool classes
  | other _ => True
termination_by c => sizeOf c
decreasing_by exact sizeOf_attribute_lt ‹_›

instance decidableValid (pool : ConstantPool) : (c : Content) → Decidable (c.Valid pool)
  | annotations _ items =>
    decidable_of_iff (items.length < 0x10000 ∧ ∀ a ∈ items, a.Valid pool) (by rw [Valid])
  | parameterAnnotations _ parameters =>
    decidable_of_iff (parameters.length < 0x100 ∧
      ∀ items ∈ parameters, items.length < 0x10000 ∧ ∀ a ∈ items, a.Valid pool) (by rw [Valid])
  | signature text => decidable_of_iff (IsText pool text) (by rw [Valid])
  | innerClasses items =>
    decidable_of_iff (items.length < 0x10000 ∧ ∀ i ∈ items, i.Valid pool) (by rw [Valid])
  | enclosingMethod owner method =>
    decidable_of_iff (IsClass pool owner ∧ (method = 0 ∨ IsNameAndType pool method))
      (by rw [Valid])
  | code maxStack maxLocals instructions handlers attributes =>
    have : DecidablePred fun a : { a // a ∈ attributes } => a.1.2.Valid pool :=
      fun a => decidableValid pool a.1.2
    decidable_of_iff ((instructions.length < 0x100000000 ∧
        (Bytecode.referencedClasses pool instructions).isOk = true) ∧
      (handlers.length < 0x10000 ∧ ∀ h ∈ handlers, h.caught = 0 ∨ IsClass pool h.caught) ∧
      attributes.length < 0x10000 ∧ ∀ a ∈ attributes.attach, a.1.2.Named pool a.1.1 ∧
        a.1.2.bytes.length < 0x100000000 ∧ a.1.2.Valid pool) (by simp [Valid])
  | exceptions classes => decidable_of_iff (AreClasses pool classes) (by rw [Valid])
  | other _ => decidable_of_iff True (by rw [Valid])
termination_by c => sizeOf c
decreasing_by exact sizeOf_attribute_lt a.2

/-- What an attribute records. Code keeps its length and the classes that it refers to, those that
it catches last; its own attributes are dropped. -/
def record (pool : ConstantPool) (name : UInt16) : Content → Attribute
  | annotations visible items => .annotations visible (items.map (AnnotationItem.record pool))
  | parameterAnnotations visible parameters =>
    .annotations visible (parameters.flatten.map (AnnotationItem.record pool))
  | signature text => .signature (found (pool.utf8 text))
  | innerClasses items => .innerClasses (items.map (InnerClassItem.record pool))
  | enclosingMethod owner method =>
    .enclosingMethod (found (pool.className owner)) (foundOptional pool.nameAndType method)
  | code _ _ instructions handlers _ =>
    .code {
      length := UInt32.ofNat instructions.length
      classes := found (Bytecode.referencedClasses pool instructions) ++
        handlers.filterMap fun h => foundOptional pool.className h.caught }
  | exceptions classes => .exceptions (classes.map fun i => found (pool.className i))
  | other body => .other (found (pool.utf8 name)) (UInt32.ofNat body.length)

end Content

/-- The attributes of a class, a field, a method or a piece of code. -/
structure Attributes where
  items : List (UInt16 × Content)

namespace Attributes

def itemBytes (a : UInt16 × Content) : List UInt8 :=
  Encoder.u16 a.1 ++ (Encoder.u32 (UInt32.ofNat a.2.bytes.length) ++ a.2.bytes)

def bytes (as : Attributes) : List UInt8 :=
  Encoder.table itemBytes as.items

def Valid (pool : ConstantPool) (as : Attributes) : Prop :=
  as.items.length < 0x10000 ∧
    ∀ a ∈ as.items, a.2.Named pool a.1 ∧ a.2.bytes.length < 0x100000000 ∧ a.2.Valid pool

instance (pool : ConstantPool) (as : Attributes) : Decidable (as.Valid pool) :=
  inferInstanceAs (Decidable (_ ∧ ∀ a ∈ as.items, _ ∧ _ ∧ _))

def record (pool : ConstantPool) (as : Attributes) : List Attribute :=
  as.items.map fun a => a.2.record pool a.1

end Attributes

/-- A field or a method. -/
structure MemberItem where
  flags : UInt16
  name : UInt16
  descriptor : UInt16
  attributes : Attributes

namespace MemberItem

def bytes (m : MemberItem) : List UInt8 :=
  Encoder.u16 m.flags ++ (Encoder.u16 m.name ++ (Encoder.u16 m.descriptor ++ m.attributes.bytes))

def Valid (pool : ConstantPool) (m : MemberItem) : Prop :=
  IsText pool m.name ∧ IsText pool m.descriptor ∧ m.attributes.Valid pool

instance (pool : ConstantPool) (m : MemberItem) : Decidable (m.Valid pool) :=
  inferInstanceAs (Decidable (_ ∧ _ ∧ _))

def record (pool : ConstantPool) (m : MemberItem) : Member where
  flags := m.flags
  name := found (pool.utf8 m.name)
  descriptor := found (pool.utf8 m.descriptor)
  attributes := m.attributes.record pool

end MemberItem

/-- A class as it is stored. -/
structure Class where
  minorVersion : UInt16
  majorVersion : UInt16
  constants : List Constant
  flags : UInt16
  name : UInt16
  superName : UInt16
  interfaces : List UInt16
  fields : List MemberItem
  methods : List MemberItem
  attributes : Attributes

namespace Class

def pool (c : Class) : ConstantPool :=
  .ofConstants c.constants

def bytes (c : Class) : List UInt8 :=
  Encoder.u32 magicNumber ++ (Encoder.u16 c.minorVersion ++ (Encoder.u16 c.majorVersion ++
    (Encoder.constantPool c.constants ++ (Encoder.u16 c.flags ++ (Encoder.u16 c.name ++
      (Encoder.u16 c.superName ++ (Encoder.table Encoder.u16 c.interfaces ++
        (Encoder.table MemberItem.bytes c.fields ++ (Encoder.table MemberItem.bytes c.methods ++
          c.attributes.bytes)))))))))

/-- The constants have indices of two bytes, and the rest is valid against them. -/
structure Valid (c : Class) : Prop where
  constants : ∀ k ∈ c.constants, k.Fits
  width : ConstantPool.width c.constants ≤ 65534
  name : IsClass c.pool c.name
  superName : c.superName = 0 ∨ IsClass c.pool c.superName
  interfaces : AreClasses c.pool c.interfaces
  fields : c.fields.length < 0x10000 ∧ ∀ m ∈ c.fields, m.Valid c.pool
  methods : c.methods.length < 0x10000 ∧ ∀ m ∈ c.methods, m.Valid c.pool
  attributes : c.attributes.Valid c.pool

def record (c : Class) : ClassFile where
  minorVersion := c.minorVersion
  majorVersion := c.majorVersion
  pool := c.pool
  flags := c.flags
  name := found (c.pool.className c.name)
  superName := foundOptional c.pool.className c.superName
  interfaces := c.interfaces.map fun i => found (c.pool.className i)
  fields := c.fields.map (MemberItem.record c.pool)
  methods := c.methods.map (MemberItem.record c.pool)
  attributes := c.attributes.record c.pool
  size := c.bytes.length

end Class

end ClassDeps.ClassFile.Stored
