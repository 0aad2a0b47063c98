import ClassDeps.ClassFile.Signature
import Mathlib.Data.List.Basic

namespace ClassDeps.ClassFile.Signature

/-- A piece of a signature: its text, and for every class type that ends in it the number of
characters up to that end and the name of the class. -/
structure Written where
  text : List Char
  ends : List (Nat × String)

namespace Written

def plain (text : List Char) : Written :=
  ⟨text, []⟩

instance : Append Written where
  append a b := ⟨a.text ++ b.text, a.ends ++ b.ends.map fun e => (a.text.length + e.1, e.2)⟩

/-- Marks the end of the text as that of a class type. -/
def closing (w : Written) (name : String) : Written :=
  { w with ends := w.ends ++ [(w.text.length, name)] }

/-- The names of the class types, in the order of their marks. -/
def names (w : Written) : List String :=
  w.ends.map (·.2)

@[simp] theorem text_plain (text : List Char) : (plain text).text = text := rfl

@[simp] theorem text_append (a b : Written) : (a ++ b).text = a.text ++ b.text := rfl

@[simp] theorem text_closing (w : Written) (name : String) : (w.closing name).text = w.text := rfl

@[simp] theorem names_plain (text : List Char) : (plain text).names = [] := rfl

@[simp] theorem names_append (a b : Written) : (a ++ b).names = a.names ++ b.names := by
  change (a.ends ++ b.ends.map fun e => (a.text.length + e.1, e.2)).map (·.2) = _
  rw [List.map_append, List.map_map]
  rfl

@[simp] theorem names_closing (w : Written) (name : String) :
    (w.closing name).names = w.names ++ [name] := by
  simp [names, closing]

/-- The marks are in the order of their places, each after at least one character. -/
structure Ordered (w : Written) : Prop where
  ascending : w.ends.Pairwise fun a b => a.1 < b.1
  within : ∀ e ∈ w.ends, 0 < e.1 ∧ e.1 ≤ w.text.length

theorem ordered_plain (text : List Char) : (plain text).Ordered where
  ascending := .nil
  within _ h := by cases h

theorem Ordered.append {a b : Written} (ha : a.Ordered) (hb : b.Ordered) : (a ++ b).Ordered where
  ascending := by
    refine List.pairwise_append.mpr ⟨ha.ascending, ?_, ?_⟩
    · rw [List.pairwise_map]
      exact hb.ascending.imp fun h => Nat.add_lt_add_left h _
    · intro e he f hf
      obtain ⟨g, hg, rfl⟩ := List.mem_map.mp hf
      have h₁ := ha.within e he
      have h₂ := hb.within g hg
      dsimp only
      omega
  within := by
    intro e he
    rw [text_append, List.length_append]
    rcases List.mem_append.mp he with he | he
    · have := ha.within e he
      omega
    · obtain ⟨g, hg, rfl⟩ := List.mem_map.mp he
      have := hb.within g hg
      dsimp only
      omega

/-- A type ends after all the types in it, since a character of its own comes last. -/
theorem Ordered.closing {w : Written} (h : w.Ordered) (c : Char) (name : String) :
    ((w ++ plain [c]).closing name).Ordered where
  ascending := by
    refine List.pairwise_append.mpr ⟨(h.append (ordered_plain [c])).ascending, by simp, ?_⟩
    intro e he f hf
    obtain rfl := List.mem_singleton.mp hf
    rcases List.mem_append.mp he with he | he
    · have := h.within e he
      simp only [text_append, text_plain, List.length_append, List.length_singleton]
      omega
    · cases he
  within := by
    intro e he
    rcases List.mem_append.mp he with he | he
    · exact (h.append (ordered_plain [c])).within e he
    · obtain rfl := List.mem_singleton.mp he
      simp

end Written

/-- The characters that separate names and so stand in none. -/
def reserved : List Char := ['.', ';', '[', '/', '<', '>', ':']

/-- A name without parts. -/
structure Identifier where
  text : List Char
  nonempty : text ≠ []
  plain : ∀ c ∈ text, c ∉ reserved

theorem plain_of_all {text : List Char} (h : text.all (!reserved.contains ·) = true) :
    ∀ c ∈ text, c ∉ reserved := by
  intro c hc hmem
  have hnot := List.all_eq_true.mp h c hc
  rw [List.contains_iff_mem.mpr hmem] at hnot
  cases hnot

inductive BaseType where
  | byte | char | double | float | int | long | short | boolean

def BaseType.letter : BaseType → Char
  | byte => 'B'
  | char => 'C'
  | double => 'D'
  | float => 'F'
  | int => 'I'
  | long => 'J'
  | short => 'S'
  | boolean => 'Z'

/-- How a wildcard is bounded: from above or from below. -/
inductive Wildcard where
  | upper
  | lower

def Wildcard.sign : Wildcard → Char
  | upper => '+'
  | lower => '-'

mutual

/-- A type that is not primitive. -/
inductive ReferenceType where
  | typeVariable (name : Identifier)
  | primitiveArray (element : BaseType)
  | array (element : ReferenceType)
  | object (type : ClassType)

/-- A class in a package, and then one class nested in the other. -/
inductive ClassType where
  | mk (package : List Identifier) (outer : SimpleType) (inner : List SimpleType)

/-- A class without what it is in, and the arguments for its parameters if there are any. -/
inductive SimpleType where
  | mk (name : Identifier) (arguments : List Argument)

inductive Argument where
  | any
  | exact (type : ReferenceType)
  | bounded (wildcard : Wildcard) (type : ReferenceType)

end

def SimpleType.name : SimpleType → Identifier
  | ⟨name, _⟩ => name

/-- The package with a slash after each of its parts. -/
def packageText (package : List Identifier) : List Char :=
  package.flatMap fun part => part.text ++ ['/']

/-- The names of nested classes, each after a dollar sign. -/
def nestedText (inner : List SimpleType) : List Char :=
  inner.flatMap fun type => '$' :: type.name.text

/-- The internal name of a class. -/
def ClassType.name : ClassType → String
  | ⟨package, outer, inner⟩ =>
    String.ofList (packageText package ++ outer.name.text ++ nestedText inner)

mutual

def ReferenceType.written : ReferenceType → Written
  | .typeVariable name => .plain ('T' :: name.text ++ [';'])
  | .primitiveArray element => .plain ['[', element.letter]
  | .array element => .plain ['['] ++ element.written
  | .object type => type.written

def ClassType.written : ClassType → Written
  | ⟨package, outer, inner⟩ =>
    (.plain ('L' :: packageText package) ++ outer.written ++ writtenInner inner ++
      .plain [';']).closing (ClassType.name ⟨package, outer, inner⟩)

def SimpleType.written : SimpleType → Written
  | ⟨name, arguments⟩ => .plain name.text ++ writtenBracket arguments

/-- Classes nested in the one before, each after a dot. -/
def writtenInner : List SimpleType → Written
  | [] => .plain []
  | type :: rest => .plain ['.'] ++ type.written ++ writtenInner rest

/-- Arguments in angle brackets, unless there are none. -/
def writtenBracket : List Argument → Written
  | [] => .plain []
  | argument :: rest =>
    .plain ['<'] ++ (argument.written ++ writtenArguments rest) ++ .plain ['>']

def writtenArguments : List Argument → Written
  | [] => .plain []
  | argument :: rest => argument.written ++ writtenArguments rest

def Argument.written : Argument → Written
  | .any => .plain ['*']
  | .exact type => type.written
  | .bounded wildcard type => .plain [wildcard.sign] ++ type.written

end

/-- A primitive type or any other. -/
inductive JavaType where
  | base (type : BaseType)
  | reference (type : ReferenceType)

def JavaType.written : JavaType → Written
  | base type => .plain [type.letter]
  | reference type => type.written

def Written.concat (pieces : List Written) : Written :=
  pieces.foldr (· ++ ·) (.plain [])

/-- A type parameter. Its bounds are a class and any number of interfaces. -/
structure TypeParameter where
  name : Identifier
  classBound : Option ReferenceType
  interfaceBounds : List ReferenceType

namespace TypeParameter

def writtenBound (type : ReferenceType) : Written :=
  .plain [':'] ++ type.written

def written (p : TypeParameter) : Written :=
  .plain p.name.text ++ (p.classBound.elim (.plain [':']) writtenBound ++
    .concat (p.interfaceBounds.map writtenBound))

/-- There is at least one bound. -/
def Bounded (p : TypeParameter) : Prop :=
  p.classBound.isSome ∨ p.interfaceBounds ≠ []

end TypeParameter

/-- Type parameters in angle brackets, unless there are none. -/
def writtenParameters : List TypeParameter → Written
  | [] => .plain []
  | parameters => .plain ['<'] ++ .concat (parameters.map TypeParameter.written) ++ .plain ['>']

/-- What a method may throw. -/
inductive Thrown where
  | classType (type : ClassType)
  | typeVariable (name : Identifier)

def Thrown.written : Thrown → Written
  | classType type => .plain ['^'] ++ type.written
  | typeVariable name => .plain ['^'] ++ (ReferenceType.typeVariable name).written

inductive GenericSignature where
  | ofClass (parameters : List TypeParameter) (super : ClassType) (interfaces : List ClassType)
  /-- The result is absent if the method returns nothing. -/
  | ofMethod (parameters : List TypeParameter) (arguments : List JavaType)
      (result : Option JavaType) (thrown : List Thrown)
  | ofField (type : ReferenceType)

namespace GenericSignature

def parameters : GenericSignature → List TypeParameter
  | ofClass parameters _ _ => parameters
  | ofMethod parameters _ _ _ => parameters
  | ofField _ => []

/-- What follows the type parameters. -/
def body : GenericSignature → Written
  | ofClass _ super interfaces => super.written ++ .concat (interfaces.map ClassType.written)
  | ofMethod _ arguments result thrown =>
    .plain ['('] ++ .concat (arguments.map JavaType.written) ++ .plain [')'] ++
      result.elim (.plain ['V']) JavaType.written ++ .concat (thrown.map Thrown.written)
  | ofField type => type.written

def written (s : GenericSignature) : Written :=
  writtenParameters s.parameters ++ s.body

end GenericSignature

open Written

mutual

theorem ReferenceType.ordered : (t : ReferenceType) → t.written.Ordered
  | .typeVariable _ => ordered_plain _
  | .primitiveArray _ => ordered_plain _
  | .array element => (ordered_plain _).append element.ordered
  | .object type => type.ordered

theorem ClassType.ordered : (t : ClassType) → t.written.Ordered
  | ⟨_, outer, inner⟩ =>
    (((ordered_plain _).append outer.ordered).append (ordered_writtenInner inner)).closing _ _

theorem SimpleType.ordered : (t : SimpleType) → t.written.Ordered
  | ⟨_, arguments⟩ => (ordered_plain _).append (ordered_writtenBracket arguments)

theorem ordered_writtenInner : (inner : List SimpleType) → (writtenInner inner).Ordered
  | [] => ordered_plain _
  | type :: rest => ((ordered_plain _).append type.ordered).append (ordered_writtenInner rest)

theorem ordered_writtenBracket : (arguments : List Argument) → (writtenBracket arguments).Ordered
  | [] => ordered_plain _
  | argument :: rest =>
    ((ordered_plain _).append (argument.ordered.append (ordered_writtenArguments rest))).append
      (ordered_plain _)

theorem ordered_writtenArguments :
    (arguments : List Argument) → (writtenArguments arguments).Ordered
  | [] => ordered_plain _
  | argument :: rest => argument.ordered.append (ordered_writtenArguments rest)

theorem Argument.ordered : (a : Argument) → a.written.Ordered
  | .any => ordered_plain _
  | .exact type => type.ordered
  | .bounded _ type => (ordered_plain _).append type.ordered

end

theorem Written.Ordered.concat {α : Type} {write : α → Written} {items : List α}
    (h : ∀ a ∈ items, (write a).Ordered) : (concat (items.map write)).Ordered := by
  induction items with
  | nil => exact ordered_plain _
  | cons a items ih =>
    obtain ⟨ha, hitems⟩ := List.forall_mem_cons.mp h
    exact ha.append (ih hitems)

theorem JavaType.ordered (t : JavaType) : t.written.Ordered := by
  cases t with
  | base b => exact ordered_plain _
  | reference t => exact t.ordered

theorem Thrown.ordered (t : Thrown) : t.written.Ordered := by
  cases t with
  | classType t => exact (ordered_plain _).append t.ordered
  | typeVariable name => exact (ordered_plain _).append (ReferenceType.typeVariable name).ordered

theorem TypeParameter.ordered (p : TypeParameter) : p.written.Ordered := by
  have hbound : ∀ t, (writtenBound t).Ordered := fun t => (ordered_plain _).append t.ordered
  have hclass : (p.classBound.elim (.plain [':']) writtenBound).Ordered := by
    cases p.classBound with
    | none => exact ordered_plain _
    | some t => exact hbound t
  exact (ordered_plain _).append (hclass.append (.concat fun t _ => hbound t))

theorem ordered_writtenParameters (ps : List TypeParameter) : (writtenParameters ps).Ordered := by
  cases ps with
  | nil => exact ordered_plain _
  | cons p ps =>
    exact ((ordered_plain _).append (.concat fun p _ => p.ordered)).append (ordered_plain _)

theorem GenericSignature.ordered_body (s : GenericSignature) : s.body.Ordered := by
  cases s with
  | ofClass _ super _ => exact super.ordered.append (.concat fun t _ => t.ordered)
  | ofMethod _ _ result _ =>
    have hresult : (result.elim (.plain ['V']) JavaType.written).Ordered := by
      cases result with
      | none => exact ordered_plain _
      | some t => exact t.ordered
    exact ((((ordered_plain _).append (.concat fun t _ => t.ordered)).append
      (ordered_plain _)).append hresult).append (.concat fun t _ => t.ordered)
  | ofField type => exact type.ordered

theorem GenericSignature.ordered (s : GenericSignature) : s.written.Ordered :=
  (ordered_writtenParameters s.parameters).append s.ordered_body

end ClassDeps.ClassFile.Signature
