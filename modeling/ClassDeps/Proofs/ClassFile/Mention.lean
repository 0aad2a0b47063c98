import ClassDeps.Model.Definition
import ClassDeps.Proofs.ClassFile.Layout
import ClassDeps.Proofs.ClassFile.Outline

namespace ClassDeps.ClassFile

/-- A class type of a text, given how the text is read. -/
def TypeIn (typeNames : String → Except Malformed (List String)) (text name : String) : Prop :=
  ∃ names, typeNames text = .ok names ∧ name ∈ names

/-- A class type of the text at an index. -/
def TypeAt (pool : ConstantPool) (typeNames : String → Except Malformed (List String))
    (i : UInt16) (name : String) : Prop :=
  ∃ text, pool.utf8 i = .ok text ∧ TypeIn typeNames text name

namespace Bytecode.Instruction

/-- The index of the constant that the instruction loads. -/
def loaded? : Instruction → Option UInt16
  | loadConstant index => some index.toUInt16
  | constant _ .loadable index _ _ => some index
  | _ => none

/-- A class type of the descriptor that an instruction reaches. -/
inductive Mentions (pool : ConstantPool) : Instruction → String → Prop
  | field {opcode index trailing fits target name} :
      pool.memberRef index = .ok target → TypeIn Descriptor.fieldTypeNames target.descriptor name →
      Mentions pool (constant opcode .field index trailing fits) name
  | method {opcode index trailing fits target name} :
      pool.memberRef index = .ok target →
      TypeIn Descriptor.methodTypeNames target.descriptor name →
      Mentions pool (constant opcode .method index trailing fits) name
  | callSite {opcode index trailing fits bootstrap nameAndType called descriptor name} :
      pool.get index = .ok (.invokeDynamic bootstrap nameAndType) →
      pool.nameAndType nameAndType = .ok (called, descriptor) →
      TypeIn Descriptor.methodTypeNames descriptor name →
      Mentions pool (constant opcode .callSite index trailing fits) name
  | loadMethodType {i index descriptor name} : loaded? i = some index →
      pool.get index = .ok (.methodType descriptor) →
      TypeAt pool Descriptor.methodTypeNames descriptor name → Mentions pool i name
  | loadDynamic {i index bootstrap nameAndType loaded descriptor name} : loaded? i = some index →
      pool.get index = .ok (.dynamic bootstrap nameAndType) →
      pool.nameAndType nameAndType = .ok (loaded, descriptor) →
      TypeIn Descriptor.fieldTypeNames descriptor name → Mentions pool i name

/-- The class that is an operand of an instruction: a type, the owner of a member, or a constant to
load. -/
inductive Cites (pool : ConstantPool) : Instruction → String → Prop
  | type {opcode index trailing fits name} : pool.className index = .ok name →
      Cites pool (constant opcode .type index trailing fits) name
  | field {opcode index trailing fits target} : pool.memberRef index = .ok target →
      Cites pool (constant opcode .field index trailing fits) target.owner
  | method {opcode index trailing fits target} : pool.memberRef index = .ok target →
      Cites pool (constant opcode .method index trailing fits) target.owner
  | loadClass {i index name} : loaded? i = some index → pool.className index = .ok name →
      Cites pool i name
  | loadHandle {i index kind reference target} : loaded? i = some index →
      pool.get index = .ok (.methodHandle kind reference) →
      pool.memberRef reference = .ok target → Cites pool i target.owner

end Bytecode.Instruction

namespace Stored

/-- A class that an element value mentions. An annotation has the first class type of its
descriptor for its type. -/
inductive ElementValue.Mentions (pool : ConstantPool) : ElementValue → String → Prop
  | enumType {type value name} : TypeAt pool Descriptor.fieldTypeNames type name →
      Mentions pool (enumConstant type value) name
  | classLiteral {descriptor name} : TypeAt pool Descriptor.fieldTypeNames descriptor name →
      Mentions pool (classLiteral descriptor) name
  | annotationType {type elements text name more} : pool.utf8 type = .ok text →
      Descriptor.fieldTypeNames text = .ok (name :: more) →
      Mentions pool (nested type elements) name
  | element {type elements e name} : e ∈ elements → Mentions pool e.2 name →
      Mentions pool (nested type elements) name
  | item {items v name} : v ∈ items → Mentions pool v name → Mentions pool (array items) name

/-- The type of an annotation and the classes in its values. -/
def AnnotationItem.Mentions (pool : ConstantPool) (a : AnnotationItem) (name : String) : Prop :=
  (ElementValue.nested a.type a.elements).Mentions pool name

inductive Content.Mentions (pool : ConstantPool) : Content → String → Prop
  | annotated {visible items a name} : a ∈ items → a.Mentions pool name →
      Mentions pool (annotations visible items) name
  | annotatedParameter {visible parameters items a name} : items ∈ parameters → a ∈ items →
      a.Mentions pool name → Mentions pool (parameterAnnotations visible parameters) name
  | signatureType {text name} : TypeAt pool Signature.referencedTypes text name →
      Mentions pool (signature text) name
  | enclosingType {owner method called descriptor name} :
      pool.nameAndType method = .ok (called, descriptor) →
      TypeIn Descriptor.methodTypeNames descriptor name →
      Mentions pool (enclosingMethod owner method) name
  | instruction {maxStack maxLocals body instructions i handlers attributes name} :
      Bytecode.Aligned 0 instructions → Bytecode.layout instructions = body → i ∈ instructions →
      i.Mentions pool name → Mentions pool (code maxStack maxLocals body handlers attributes) name
  | caught {maxStack maxLocals body handlers h attributes name} : h ∈ handlers →
      pool.className h.caught = .ok name →
      Mentions pool (code maxStack maxLocals body handlers attributes) name
  | exception {classes i name} : i ∈ classes → pool.className i = .ok name →
      Mentions pool (exceptions classes) name

/-- The classes of nesting tables and the class operands of instructions. -/
inductive Content.Cites (pool : ConstantPool) : Content → String → Prop
  | inner {items i name} : i ∈ items → pool.className i.inner = .ok name →
      Cites pool (innerClasses items) name
  | outer {items i name} : i ∈ items → pool.className i.outer = .ok name →
      Cites pool (innerClasses items) name
  | enclosingClass {owner method name} : pool.className owner = .ok name →
      Cites pool (enclosingMethod owner method) name
  | instruction {maxStack maxLocals body instructions i handlers attributes name} :
      Bytecode.Aligned 0 instructions → Bytecode.layout instructions = body → i ∈ instructions →
      i.Cites pool name → Cites pool (code maxStack maxLocals body handlers attributes) name

/-- The bytes of a content up to the attributes of code. -/
def Content.head : Content → List UInt8
  | code maxStack maxLocals instructions handlers _ =>
    Encoder.u16 maxStack ++ (Encoder.u16 maxLocals ++
      (Encoder.u32 (UInt32.ofNat instructions.length) ++ (instructions ++
        Encoder.table Handler.bytes handlers)))
  | c => c.bytes

end Stored

/-- The attribute has the name of the content, and its body starts with it. -/
structure AttributeSlice.Holds (pool : ConstantPool) (a : AttributeSlice) (c : Stored.Content) :
    Prop where
  named : c.Named pool a.name
  valid : c.Valid pool
  starts : c.head <+: a.body

def AttributeSlice.Mentions (pool : ConstantPool) (a : AttributeSlice) (name : String) : Prop :=
  ∃ c, a.Holds pool c ∧ c.Mentions pool name

def AttributeSlice.Cites (pool : ConstantPool) (a : AttributeSlice) (name : String) : Prop :=
  ∃ c, a.Holds pool c ∧ c.Cites pool name

/-- The names are those mentioned and the element classes of those cited. -/
def Collects (names : List String) (mentions cites : String → Prop) : Prop :=
  ∀ name, name ∈ names ↔
    mentions name ∨ ∃ text, cites text ∧ Descriptor.elementClass? text = some name

namespace Collects

variable {α β : Type} {names : List String} {mentions cites : String → Prop}

theorem mem_elementClasses {text name : String} :
    name ∈ Bytecode.elementClasses text ↔ Descriptor.elementClass? text = some name := by
  rw [Bytecode.elementClasses, Option.mem_toList]

/-- What items collect one by one, their results collect together. -/
theorem flatten {R : α → β → Prop} {classes : β → Except Malformed (List String)}
    {mentions cites : α → String → Prop} {xs : List α} {ys : List β} {lists : List (List String)}
    (hR : List.Forall₂ R xs ys) (hlists : ys.mapM classes = .ok lists)
    (h : ∀ x y names, R x y → classes y = .ok names → Collects names (mentions x) (cites x)) :
    Collects lists.flatten (fun name => ∃ x ∈ xs, mentions x name)
      fun text => ∃ x ∈ xs, cites x text := by
  induction hR generalizing lists with
  | nil =>
    cases hlists
    simp [Collects]
  | cons hxy _ ih =>
    rw [List.mapM_cons, bind_eq_ok_iff] at hlists
    obtain ⟨names, hnames, htail⟩ := hlists
    obtain ⟨rest, hrest, hcons⟩ := bind_eq_ok_iff.mp htail
    cases hcons
    intro name
    rw [List.flatten_cons, List.mem_append, h _ _ names hxy hnames name, ih hrest name]
    simp only [List.exists_mem_cons_iff, or_and_right, exists_or]
    exact or_or_or_comm ..

end Collects

section

variable {typeNames : String → Except Malformed (List String)} {text name : String}
  {names : List String}

theorem typeIn_iff (h : typeNames text = .ok names) :
    TypeIn typeNames text name ↔ name ∈ names := by
  simp only [TypeIn, h, Except.ok.injEq, exists_eq_left']

theorem typeAt_iff {pool : ConstantPool} {i : UInt16} (htext : pool.utf8 i = .ok text)
    (h : typeNames text = .ok names) : TypeAt pool typeNames i name ↔ name ∈ names := by
  simp only [TypeAt, htext, Except.ok.injEq, exists_eq_left', typeIn_iff h]

end

variable {pool : ConstantPool}

theorem exists_className_owner {i : UInt16} {target : MemberRef}
    (h : pool.memberRef i = .ok target) : ∃ j, pool.className j = .ok target.owner := by
  obtain ⟨k, -, h⟩ := bind_eq_ok_iff.mp h
  cases k with
  | member kind owner nameAndType =>
    obtain ⟨ownerName, howner, h⟩ := bind_eq_ok_iff.mp h
    obtain ⟨pair, -, h⟩ := bind_eq_ok_iff.mp h
    cases h
    exact ⟨owner, howner⟩
  | _ => cases h

namespace Bytecode.Instruction

variable {i : Instruction} {index : UInt16} {name : String} {names : List String}

/-- An instruction that loads a constant has no other operand in the pool. -/
theorem mentions_loaded_iff (hi : i.loaded? = some index) : i.Mentions pool name ↔
    (∃ descriptor, pool.get index = .ok (.methodType descriptor) ∧
      TypeAt pool Descriptor.methodTypeNames descriptor name) ∨
    ∃ bootstrap nameAndType loaded descriptor,
      pool.get index = .ok (.dynamic bootstrap nameAndType) ∧
      pool.nameAndType nameAndType = .ok (loaded, descriptor) ∧
      TypeIn Descriptor.fieldTypeNames descriptor name := by
  constructor
  · intro h
    cases h with
    | field | method | callSite => cases hi
    | loadMethodType hl hget htype =>
      obtain rfl := Option.some.inj (hl.symm.trans hi)
      exact .inl ⟨_, hget, htype⟩
    | loadDynamic hl hget hpair htype =>
      obtain rfl := Option.some.inj (hl.symm.trans hi)
      exact .inr ⟨_, _, _, _, hget, hpair, htype⟩
  · rintro (⟨descriptor, hget, htype⟩ | ⟨bootstrap, nameAndType, loaded, descriptor, hget, hpair,
      htype⟩)
    · exact .loadMethodType hi hget htype
    · exact .loadDynamic hi hget hpair htype

theorem cites_loaded_iff (hi : i.loaded? = some index) : i.Cites pool name ↔
    pool.className index = .ok name ∨
    ∃ kind reference target, pool.get index = .ok (.methodHandle kind reference) ∧
      pool.memberRef reference = .ok target ∧ target.owner = name := by
  constructor
  · intro h
    cases h with
    | type | field | method => cases hi
    | loadClass hl hname =>
      obtain rfl := Option.some.inj (hl.symm.trans hi)
      exact .inl hname
    | loadHandle hl hget htarget =>
      obtain rfl := Option.some.inj (hl.symm.trans hi)
      exact .inr ⟨_, _, _, hget, htarget, rfl⟩
  · rintro (hname | ⟨kind, reference, target, hget, htarget, rfl⟩)
    · exact .loadClass hi hname
    · exact .loadHandle hi hget htarget

theorem collects_loaded (hi : i.loaded? = some index)
    (h : loadableClasses pool index = .ok names) :
    Collects names (i.Mentions pool) (i.Cites pool) := by
  obtain ⟨k, hget, h⟩ := bind_eq_ok_iff.mp h
  intro name
  rw [mentions_loaded_iff hi]
  simp only [cites_loaded_iff hi]
  cases k with
  | classInfo j =>
    obtain ⟨text, htext, h⟩ := bind_eq_ok_iff.mp h
    cases h
    simp [Collects.mem_elementClasses, hget, htext]
  | methodType descriptor =>
    obtain ⟨text, htext, h⟩ := bind_eq_ok_iff.mp h
    simp [ConstantPool.className_eq_ok_iff, hget, typeAt_iff htext h]
  | methodHandle kind reference =>
    obtain ⟨target, htarget, h⟩ := bind_eq_ok_iff.mp h
    cases h
    simp [ConstantPool.className_eq_ok_iff, Collects.mem_elementClasses, hget, htarget]
  | dynamic bootstrap nameAndType =>
    obtain ⟨⟨loaded, descriptor⟩, hpair, h⟩ := bind_eq_ok_iff.mp h
    simp [ConstantPool.className_eq_ok_iff, hget, hpair, typeIn_iff h]
  | utf8 | integer | float | long | double | string | member | nameAndType | invokeDynamic
  | moduleInfo | packageInfo =>
    cases h
    simp [ConstantPool.className_eq_ok_iff, hget]

/-- An access to a member cites its owner and mentions the types of its descriptor. -/
theorem collects_member {typeNames : String → Except Malformed (List String)}
    {mentions cites : String → Prop}
    (hmentions : ∀ name, mentions name ↔
      ∃ target, pool.memberRef index = .ok target ∧ TypeIn typeNames target.descriptor name)
    (hcites : ∀ name, cites name ↔
      ∃ target, pool.memberRef index = .ok target ∧ target.owner = name)
    (h : (do
      let target ← pool.memberRef index
      return elementClasses target.owner ++ (← typeNames target.descriptor)) = .ok names) :
    Collects names mentions cites := by
  obtain ⟨target, htarget, h⟩ := bind_eq_ok_iff.mp h
  obtain ⟨types, htypes, h⟩ := bind_eq_ok_iff.mp h
  cases h
  intro name
  rw [hmentions, List.mem_append, Collects.mem_elementClasses]
  simp [hcites, htarget, typeIn_iff htypes, or_comm]

theorem collects (h : i.classes pool = .ok names) :
    Collects names (i.Mentions pool) (i.Cites pool) := by
  cases i with
  | immediate | tableSwitch | lookupSwitch | wide =>
    cases h
    intro name
    constructor
    · intro hname
      cases hname
    · rintro (hm | ⟨text, hc, -⟩)
      · cases hm with
        | loadMethodType hl | loadDynamic hl => cases hl
      · cases hc with
        | loadClass hl | loadHandle hl => cases hl
  | loadConstant index => exact collects_loaded rfl h
  | constant opcode kind index trailing fits =>
    cases kind with
    | loadable => exact collects_loaded rfl h
    | field =>
      refine collects_member (fun name => ⟨?_, ?_⟩) (fun name => ⟨?_, ?_⟩) h
      · intro hm
        cases hm with
        | field htarget htype => exact ⟨_, htarget, htype⟩
        | loadMethodType hl | loadDynamic hl => cases hl
      · rintro ⟨target, htarget, htype⟩
        exact .field htarget htype
      · intro hc
        cases hc with
        | field htarget => exact ⟨_, htarget, rfl⟩
        | loadClass hl | loadHandle hl => cases hl
      · rintro ⟨target, htarget, rfl⟩
        exact .field htarget
    | method =>
      refine collects_member (fun name => ⟨?_, ?_⟩) (fun name => ⟨?_, ?_⟩) h
      · intro hm
        cases hm with
        | method htarget htype => exact ⟨_, htarget, htype⟩
        | loadMethodType hl | loadDynamic hl => cases hl
      · rintro ⟨target, htarget, htype⟩
        exact .method htarget htype
      · intro hc
        cases hc with
        | method htarget => exact ⟨_, htarget, rfl⟩
        | loadClass hl | loadHandle hl => cases hl
      · rintro ⟨target, htarget, rfl⟩
        exact .method htarget
    | callSite =>
      obtain ⟨k, hget, h⟩ := bind_eq_ok_iff.mp h
      cases k with
      | invokeDynamic bootstrap nameAndType =>
        obtain ⟨⟨called, descriptor⟩, hpair, h⟩ := bind_eq_ok_iff.mp h
        intro name
        constructor
        · intro hname
          exact .inl (.callSite hget hpair ⟨names, h, hname⟩)
        · rintro (hm | ⟨text, hc, -⟩)
          · cases hm with
            | callSite hget' hpair' htype =>
              cases hget.symm.trans hget'
              cases hpair.symm.trans hpair'
              exact (typeIn_iff h).mp htype
            | loadMethodType hl | loadDynamic hl => cases hl
          · cases hc with
            | loadClass hl | loadHandle hl => cases hl
      | _ => cases h
    | type =>
      obtain ⟨text, htext, h⟩ := bind_eq_ok_iff.mp h
      cases h
      intro name
      rw [Collects.mem_elementClasses]
      constructor
      · intro hname
        exact .inr ⟨text, .type htext, hname⟩
      · rintro (hm | ⟨text', hc, hname⟩)
        · cases hm with
          | loadMethodType hl | loadDynamic hl => cases hl
        · cases hc with
          | type htext' =>
            cases htext.symm.trans htext'
            exact hname
          | loadClass hl | loadHandle hl => cases hl

/-- Operands cite classes through their constants. -/
theorem Cites.exists_className (h : i.Cites pool name) : ∃ j, pool.className j = .ok name := by
  cases h with
  | type hname | loadClass _ hname => exact ⟨_, hname⟩
  | field htarget | method htarget | loadHandle _ _ htarget => exact exists_className_owner htarget

end Bytecode.Instruction

namespace Stored

variable {name : String}

theorem found_eq {α : Type} [Inhabited α] {x : Except Malformed α} {a : α} (h : x = .ok a) :
    found x = a := by
  rw [h]
  rfl

theorem ElementValue.mem_classes_iff : (v : ElementValue) → v.Valid pool →
    (name ∈ v.classes pool ↔ v.Mentions pool name)
  | .constant tag value, _ => by
    rw [ElementValue.classes]
    constructor
    · intro h
      cases h
    · intro h
      cases h
  | .enumConstant type value, hvalid => by
    rw [ElementValue.Valid] at hvalid
    obtain ⟨text, htext, hnames⟩ := exists_descriptor hvalid
    rw [ElementValue.classes, ← typeAt_iff htext hnames]
    constructor
    · exact .enumType
    · intro h
      cases h with
      | enumType htype => exact htype
  | .classLiteral descriptor, hvalid => by
    rw [ElementValue.Valid] at hvalid
    obtain ⟨text, htext, hnames⟩ := exists_descriptor hvalid
    rw [ElementValue.classes, ← typeAt_iff htext hnames]
    constructor
    · exact .classLiteral
    · intro h
      cases h with
      | classLiteral htype => exact htype
  | .nested type elements, hvalid => by
    rw [ElementValue.Valid] at hvalid
    obtain ⟨⟨text, first, more, htext, hnames⟩, -, helements⟩ := hvalid
    rw [← ConstantPool.utf8_eq_ok_iff] at htext
    have helement : ∀ e ∈ elements, (name ∈ e.2.classes pool ↔ e.2.Mentions pool name) :=
      fun e he => mem_classes_iff e.2 (helements e he)
    rw [ElementValue.classes, found_eq (types_eq htext hnames), List.headD_cons, List.mem_cons,
      List.mem_flatMap]
    constructor
    · rintro (rfl | ⟨e, he, hname⟩)
      · exact .annotationType htext hnames
      · exact .element he ((helement e he).mp hname)
    · intro h
      cases h with
      | annotationType htext' hnames' =>
        cases htext.symm.trans htext'
        cases hnames.symm.trans hnames'
        exact .inl rfl
      | element he hmention => exact .inr ⟨_, he, (helement _ he).mpr hmention⟩
  | .array items, hvalid => by
    rw [ElementValue.Valid] at hvalid
    have hitem : ∀ v ∈ items, (name ∈ v.classes pool ↔ v.Mentions pool name) :=
      fun v hv => mem_classes_iff v (hvalid.2 v hv)
    rw [ElementValue.classes, List.mem_flatMap]
    constructor
    · rintro ⟨v, hv, hname⟩
      exact .item hv ((hitem v hv).mp hname)
    · intro h
      cases h with
      | item hv hmention => exact ⟨_, hv, (hitem _ hv).mpr hmention⟩
termination_by v => sizeOf v
decreasing_by
  · exact sizeOf_element_lt he
  · exact sizeOf_item_lt hv

theorem AnnotationItem.mem_record_iff {a : AnnotationItem} (h : a.Valid pool) :
    name ∈ (a.record pool).type :: (a.record pool).classes ↔ a.Mentions pool name := by
  rw [Mentions, ← ElementValue.mem_classes_iff _ h, ElementValue.classes]
  rfl

theorem mem_annotations_iff {items : List AnnotationItem} (h : ∀ a ∈ items, a.Valid pool) :
    name ∈ (items.map (AnnotationItem.record pool)).flatMap (fun a => a.type :: a.classes) ↔
      ∃ a ∈ items, a.Mentions pool name := by
  rw [List.flatMap_map, List.mem_flatMap]
  apply exists_congr
  intro a
  apply and_congr_right
  intro ha
  exact AnnotationItem.mem_record_iff (h a ha)

theorem collects_layout {instructions : List Bytecode.Instruction} {names : List String}
    (haligned : Bytecode.Aligned 0 instructions)
    (h : Bytecode.referencedClasses pool (Bytecode.layout instructions) = .ok names) :
    Collects names (fun name => ∃ i ∈ instructions, i.Mentions pool name)
      fun text => ∃ i ∈ instructions, i.Cites pool text := by
  rw [Bytecode.referencedClasses, Bytecode.walk_layout haligned] at h
  cases hlists : instructions.mapM (Bytecode.Instruction.classes pool) with
  | error e =>
    rw [hlists] at h
    cases h
  | ok lists =>
    rw [hlists] at h
    cases h
    apply Collects.flatten (List.forall₂_same.mpr fun i _ => rfl) hlists
    rintro i _ names rfl hnames
    exact Bytecode.Instruction.collects hnames

/-- The names of handlers and exceptions stand as they are written. -/
theorem mem_found_iff {indices : List UInt16} (h : ∀ i ∈ indices, IsClass pool i) :
    name ∈ indices.map (fun i => found (pool.className i)) ↔
      ∃ i ∈ indices, pool.className i = .ok name := by
  rw [List.mem_map]
  apply exists_congr
  intro i
  apply and_congr_right
  intro hi
  rw [eq_ok_found (isClass_iff.mp (h i hi)), Except.ok.injEq]
  rfl

/-- Nothing is at index zero, so leaving it out loses nothing. -/
theorem foundOptional_eq_some_iff {α : Type} [Inhabited α]
    {lookup : UInt16 → Except Malformed α} (hzero : ¬ (lookup 0).isOk) {i : UInt16} {a : α}
    (h : i = 0 ∨ (lookup i).isOk) : foundOptional lookup i = some a ↔ lookup i = .ok a := by
  rw [foundOptional]
  by_cases hi : i = 0
  · rw [if_pos hi]
    constructor
    · intro hnone
      cases hnone
    · intro hok
      rw [hi] at hok
      exact absurd (isOk_of_eq hok) hzero
  · rw [if_neg hi, Option.some.injEq]
    conv_rhs => rw [eq_ok_found (h.resolve_left hi), Except.ok.injEq]

theorem not_isOk_className_zero (pool : ConstantPool) : ¬ (pool.className 0).isOk := by
  intro h
  cases h

theorem not_isOk_nameAndType_zero (pool : ConstantPool) : ¬ (pool.nameAndType 0).isOk := by
  intro h
  cases h

theorem foundOptional_className_iff {i : UInt16} (h : i = 0 ∨ IsClass pool i) :
    foundOptional pool.className i = some name ↔ pool.className i = .ok name :=
  foundOptional_eq_some_iff (not_isOk_className_zero pool) (h.imp_right isClass_iff.mp)

theorem mem_innerClass_iff {c : InnerClassItem} (h : c.Valid pool) :
    name ∈ (c.record pool).inner :: (c.record pool).outer.toList ↔
      pool.className c.inner = .ok name ∨ pool.className c.outer = .ok name := by
  rw [List.mem_cons, Option.mem_toList, ← foundOptional_className_iff h.2.1,
    eq_ok_found (isClass_iff.mp h.1), Except.ok.injEq, eq_comm]
  rfl

theorem collects_enclosingMethod {owner method : UInt16} {names : List String}
    (howner : IsClass pool owner) (hmethod : method = 0 ∨ IsNameAndType pool method)
    (h : (Attribute.enclosingMethod (found (pool.className owner))
      (foundOptional pool.nameAndType method)).classes = .ok names) :
    Collects names (Content.Mentions pool (.enclosingMethod owner method))
      (Content.Cites pool (.enclosingMethod owner method)) := by
  have hfound := eq_ok_found (isClass_iff.mp howner)
  have hlookup : ∀ pair, foundOptional pool.nameAndType method = some pair ↔
      pool.nameAndType method = .ok pair := fun pair =>
    foundOptional_eq_some_iff (not_isOk_nameAndType_zero pool)
      (hmethod.imp_right isNameAndType_iff.mp)
  intro name
  cases hpair : foundOptional pool.nameAndType method with
  | none =>
    rw [hpair] at h
    cases h
    rw [Collects.mem_elementClasses]
    constructor
    · intro hname
      exact .inr ⟨_, .enclosingClass hfound, hname⟩
    · rintro (hm | ⟨text, hc, hname⟩)
      · cases hm with
        | enclosingType hpair' _ =>
          rw [(hlookup _).mpr hpair'] at hpair
          cases hpair
      · cases hc with
        | enclosingClass htext =>
          cases hfound.symm.trans htext
          exact hname
  | some pair =>
    rw [hpair] at h
    obtain ⟨types, htypes, h⟩ := bind_eq_ok_iff.mp h
    cases h
    rw [List.mem_append, Collects.mem_elementClasses]
    constructor
    · rintro (hname | hname)
      · exact .inr ⟨_, .enclosingClass hfound, hname⟩
      · exact .inl (.enclosingType ((hlookup pair).mp hpair) ⟨types, htypes, hname⟩)
    · rintro (hm | ⟨text, hc, hname⟩)
      · cases hm with
        | enclosingType hpair' htype =>
          cases ((hlookup _).mp hpair).symm.trans hpair'
          exact .inr ((typeIn_iff htypes).mp htype)
      · cases hc with
        | enclosingClass htext =>
          cases hfound.symm.trans htext
          exact .inl hname

theorem collects_code {maxStack maxLocals : UInt16} {body : List UInt8} {handlers : List Handler}
    {attributes : List (UInt16 × Content)} {names : List String}
    (hscan : Bytecode.referencedClasses pool body = .ok names)
    (hhandlers : ∀ h ∈ handlers, h.caught = 0 ∨ IsClass pool h.caught) :
    Collects (names ++ handlers.filterMap fun h => foundOptional pool.className h.caught)
      (Content.Mentions pool (.code maxStack maxLocals body handlers attributes))
      (Content.Cites pool (.code maxStack maxLocals body handlers attributes)) := by
  obtain ⟨instructions, haligned, rfl⟩ := Bytecode.exists_layout_of_walk hscan
  intro name
  rw [List.mem_append, collects_layout haligned hscan name, List.mem_filterMap]
  constructor
  · rintro ((⟨i, hi, hm⟩ | ⟨text, ⟨i, hi, hc⟩, hname⟩) | ⟨h, hh, hcaught⟩)
    · exact .inl (.instruction haligned rfl hi hm)
    · exact .inr ⟨text, .instruction haligned rfl hi hc, hname⟩
    · exact .inl (.caught hh ((foundOptional_className_iff (hhandlers h hh)).mp hcaught))
  · -- The bytes are the layout of one sequence of instructions only.
    rintro (hm | ⟨text, hc, hname⟩)
    · cases hm with
      | instruction haligned' hlayout hi hm =>
        obtain rfl := Bytecode.layout_injective haligned' haligned hlayout
        exact .inl (.inl ⟨_, hi, hm⟩)
      | caught hh hcaught =>
        exact .inr ⟨_, hh, (foundOptional_className_iff (hhandlers _ hh)).mpr hcaught⟩
    · cases hc with
      | instruction haligned' hlayout hi hc =>
        obtain rfl := Bytecode.layout_injective haligned' haligned hlayout
        exact .inl (.inr ⟨text, ⟨_, hi, hc⟩, hname⟩)

/-- What an attribute records collects what its content mentions and cites. -/
theorem Content.collects {c : Content} {i : UInt16} {names : List String} (hvalid : c.Valid pool)
    (h : (c.record pool i).classes = .ok names) :
    Collects names (c.Mentions pool) (c.Cites pool) := by
  intro name
  rw [Content.Valid.eq_def] at hvalid
  cases c with
  | annotations visible items =>
    cases h
    rw [mem_annotations_iff hvalid.2]
    constructor
    · rintro ⟨a, ha, hm⟩
      exact .inl (.annotated ha hm)
    · rintro (hm | ⟨text, hc, -⟩)
      · cases hm with
        | annotated ha hm => exact ⟨_, ha, hm⟩
      · cases hc
  | parameterAnnotations visible parameters =>
    cases h
    rw [mem_annotations_iff fun a ha => by
      obtain ⟨items, hitems, ha⟩ := List.mem_flatten.mp ha
      exact (hvalid.2 items hitems).2 a ha]
    constructor
    · rintro ⟨a, ha, hm⟩
      obtain ⟨items, hitems, ha⟩ := List.mem_flatten.mp ha
      exact .inl (.annotatedParameter hitems ha hm)
    · rintro (hm | ⟨text, hc, -⟩)
      · cases hm with
        | annotatedParameter hitems ha hm => exact ⟨_, List.mem_flatten_of_mem hitems ha, hm⟩
      · cases hc
  | signature text =>
    have htypes : Signature.referencedTypes (found (pool.utf8 text)) = .ok names := h
    rw [← typeAt_iff (eq_ok_found (isText_iff.mp hvalid)) htypes]
    constructor
    · intro htype
      exact .inl (.signatureType htype)
    · rintro (hm | ⟨text, hc, -⟩)
      · cases hm with
        | signatureType htype => exact htype
      · cases hc
  | innerClasses items =>
    cases h
    simp only [List.flatMap_map, List.mem_flatMap, Collects.mem_elementClasses]
    constructor
    · rintro ⟨c, hc, text, htext, hname⟩
      rcases (mem_innerClass_iff (hvalid.2 c hc)).mp htext with hinner | houter
      · exact .inr ⟨text, .inner hc hinner, hname⟩
      · exact .inr ⟨text, .outer hc houter, hname⟩
    · rintro (hm | ⟨text, hc, hname⟩)
      · cases hm
      · cases hc with
        | inner hi hinner =>
          exact ⟨_, hi, text, (mem_innerClass_iff (hvalid.2 _ hi)).mpr (.inl hinner), hname⟩
        | outer hi houter =>
          exact ⟨_, hi, text, (mem_innerClass_iff (hvalid.2 _ hi)).mpr (.inr houter), hname⟩
  | enclosingMethod owner method => exact collects_enclosingMethod hvalid.1 hvalid.2 h name
  | code maxStack maxLocals body handlers attributes =>
    cases h
    exact collects_code (eq_ok_found hvalid.1.2) hvalid.2.1.2 name
  | exceptions classes =>
    cases h
    rw [mem_found_iff hvalid.2]
    constructor
    · rintro ⟨i, hi, hname⟩
      exact .inl (.exception hi hname)
    · rintro (hm | ⟨text, hc, -⟩)
      · cases hm with
        | exception hi hname => exact ⟨_, hi, hname⟩
      · cases hc
  | other body =>
    cases h
    constructor
    · intro hname
      cases hname
    · rintro (hm | ⟨text, hc, -⟩)
      · cases hm
      · cases hc

theorem Content.Cites.exists_className {c : Content} (h : c.Cites pool name) :
    ∃ i, pool.className i = .ok name := by
  cases h with
  | inner _ hname | outer _ hname | enclosingClass hname => exact ⟨_, hname⟩
  | instruction _ _ _ hcites => exact hcites.exists_className

end Stored

namespace AttributeSlice

variable {a : AttributeSlice} {read : Attribute}

open Stored

theorem exists_code {code : Code} {body left : List UInt8}
    (h : Decoder.codeWith pool (pure []) body = .ok (code, left)) :
    ∃ c : Content, c.name? = some "Code" ∧ c.Valid pool ∧ c.head <+: body := by
  obtain ⟨maxStack, afterStack, hstack, h⟩ := Decoder.bind_eq_ok.mp h
  obtain ⟨maxLocals, afterLocals, hlocals, h⟩ := Decoder.bind_eq_ok.mp h
  obtain ⟨length, afterLength, hlength, h⟩ := Decoder.bind_eq_ok.mp h
  obtain ⟨instructions, afterCode, hinstructions, h⟩ := Decoder.bind_eq_ok.mp h
  obtain ⟨classes, hclasses, h⟩ := Decoder.lift_bind_eq_ok.mp h
  obtain ⟨handlers, -, ⟨hcount, hcaught⟩, htable⟩ := accepts_handler.table_valid.exists_front h
  obtain ⟨hlen, rfl⟩ := Decoder.run_eq_ok.mp hinstructions
  have hlt := length.toNat_lt
  have hstored : UInt32.ofNat instructions.length = length := by rw [hlen, UInt32.ofNat_toNat]
  refine ⟨.code maxStack maxLocals instructions handlers [], rfl, ?_, ?_⟩
  · rw [Content.Valid]
    exact ⟨⟨by omega, isOk_of_eq hclasses⟩, ⟨hcount, hcaught⟩, by simp⟩
  · rw [Decoder.u16_eq_ok.mp hstack, Decoder.u16_eq_ok.mp hlocals, Decoder.u32_eq_ok.mp hlength,
      ← hstored]
    simp only [Content.head, List.prefix_append_right_inj]
    exact htable

/-- A body of known name that is read starts with content of that name. -/
theorem exists_content {name : String} {length : UInt32} {body left : List UInt8}
    (hname : name ∈ Content.knownNames)
    (h : Decoder.attributeBody pool (pure []) name length body = .ok (read, left)) :
    ∃ c : Content, c.name? = some name ∧ c.Valid pool ∧ c.head <+: body := by
  have hplain : ∀ c : Content, c.name? = some name → c.head = c.bytes → c.Valid pool →
      c.bytes <+: body → ∃ c : Content, c.name? = some name ∧ c.Valid pool ∧ c.head <+: body :=
    fun c hown hhead hvalid hbytes => ⟨c, hown, hvalid, by rwa [hhead]⟩
  simp only [Content.knownNames, List.mem_cons, List.not_mem_nil, or_false] at hname
  rcases hname with rfl | rfl | rfl | rfl | rfl | rfl | rfl | rfl | rfl
  · obtain ⟨items, -, hvalid, hitems⟩ := accepts_annotations.exists_front h
    exact hplain (.annotations true items) rfl rfl (by rwa [Content.Valid]) (by rwa [Content.bytes])
  · obtain ⟨items, -, hvalid, hitems⟩ := accepts_annotations.exists_front h
    exact hplain (.annotations false items) rfl rfl (by rwa [Content.Valid])
      (by rwa [Content.bytes])
  · obtain ⟨parameters, -, hvalid, hitems⟩ := accepts_parameterAnnotations.exists_front h
    exact hplain (.parameterAnnotations true parameters) rfl rfl (by rwa [Content.Valid])
      (by rwa [Content.bytes])
  · obtain ⟨parameters, -, hvalid, hitems⟩ := accepts_parameterAnnotations.exists_front h
    exact hplain (.parameterAnnotations false parameters) rfl rfl (by rwa [Content.Valid])
      (by rwa [Content.bytes])
  · obtain ⟨text, mid, htext, h⟩ := Decoder.bind_eq_ok.mp h
    obtain ⟨value, hvalue, -⟩ := Decoder.lift_bind_eq_ok.mp h
    apply hplain (.signature text) rfl rfl
    · rw [Content.Valid]
      exact isText_iff.mpr (isOk_of_eq hvalue)
    · rw [Content.bytes, Decoder.u16_eq_ok.mp htext]
      exact List.prefix_append ..
  · obtain ⟨items, -, hvalid, hitems⟩ := accepts_innerClass.table_valid.exists_front h
    exact hplain (.innerClasses items) rfl rfl (by rwa [Content.Valid]) (by rwa [Content.bytes])
  · obtain ⟨owner, mid, howner, h⟩ := Decoder.bind_eq_ok.mp h
    obtain ⟨ownerName, hownerName, h⟩ := Decoder.lift_bind_eq_ok.mp h
    obtain ⟨method, -, hvalid, hmethod⟩ :=
      (accepts_optional_valid pool.nameAndType).exists_front h
    apply hplain (.enclosingMethod owner method) rfl rfl
    · rw [Content.Valid]
      exact ⟨isClass_iff.mpr (isOk_of_eq hownerName), hvalid.imp_right isNameAndType_iff.mpr⟩
    · rw [Content.bytes, Decoder.u16_eq_ok.mp howner]
      exact (List.prefix_append_right_inj _).mpr hmethod
  · obtain ⟨code, last, hcode, -⟩ := Decoder.bind_eq_ok.mp h
    exact exists_code hcode
  · have hclass : Accepts (Decoder.u16 >>= fun i => liftM (pool.className i)) Encoder.u16
        fun i _ => IsClass pool i :=
      (accepts_lookup pool.className).mono fun i name hi => isClass_iff.mpr (isOk_of_eq hi)
    obtain ⟨classes, -, hvalid, hclasses⟩ := hclass.table_valid.exists_front h
    exact hplain (.exceptions classes) rfl rfl (by rwa [Content.Valid]) (by rwa [Content.bytes])

theorem decodes_codeHead {maxStack maxLocals : UInt16} {instructions : List UInt8}
    {handlers : List Handler} {attributes : List (UInt16 × Content)}
    (h : (Content.code maxStack maxLocals instructions handlers attributes).Valid pool)
    (i : UInt16) (length : UInt32) :
    Decodes (Decoder.attributeBody pool (pure []) "Code" length)
      (Content.code maxStack maxLocals instructions handlers attributes).head
      ((Content.code maxStack maxLocals instructions handlers attributes).record pool i) := by
  rw [Content.Valid] at h
  obtain ⟨⟨hlength, hscan⟩, ⟨hcount, hcaught⟩, -⟩ := h
  have hlen : (UInt32.ofNat instructions.length).toNat = instructions.length := by
    rw [UInt32.toNat_ofNat']
    omega
  have htable := Decodes.table hcount fun h hh => decodes_handler (hcaught h hh)
  have hcode : Decodes (Decoder.codeWith pool (pure []))
      (Content.code maxStack maxLocals instructions handlers attributes).head
      { length := UInt32.ofNat instructions.length
        classes := found (Bytecode.referencedClasses pool instructions) ++
          (handlers.map fun h => foundOptional pool.className h.caught).filterMap id } := by
    apply (Decodes.u16 maxStack).bind
    apply (Decodes.u16 maxLocals).bind
    apply (Decodes.u32 _).bind
    rw [hlen]
    apply (Decodes.run instructions).bind
    apply Decodes.lift_bind (eq_ok_found hscan)
    exact htable.map _
  rw [List.filterMap_map] at hcode
  exact hcode.map Attribute.code

/-- Whatever comes after its head, content is read as what it records. -/
theorem decodes_head {c : Content} {i : UInt16} {name : String} (hnamed : c.Named pool i)
    (hvalid : c.Valid pool) (hname : pool.utf8 i = .ok name) (hown : c.name? = some name)
    (length : UInt32) : ∃ front, front <+: c.head ∧
      Decodes (Decoder.attributeBody pool (pure []) name length) front (c.record pool i) := by
  by_cases hcode : name = "Code"
  · subst hcode
    cases c with
    | code => exact ⟨_, List.prefix_rfl, decodes_codeHead hvalid i length⟩
    | annotations visible | parameterAnnotations visible =>
      cases visible <;> simp [Content.name?] at hown
    | _ => simp [Content.name?] at hown
  · have hhead : c.head = c.bytes := by
      cases c with
      | code => exact absurd (Option.some.inj hown).symm hcode
      | _ => rfl
    have hknown : name ∈ Content.knownNames := by
      cases c with
      | annotations visible | parameterAnnotations visible =>
        obtain rfl := Option.some.inj hown
        cases visible <;> decide
      | other => cases hown
      | _ =>
        obtain rfl := Option.some.inj hown
        decide
    obtain ⟨front, hfront, hread⟩ :=
      decodes_attributeBody hnamed hvalid (decodes_attributesWithin c.bytes.length)
    rw [found_eq hname, attributeBody_congr hknown hcode _ (pure []) _ length] at hread
    exact ⟨front, by rwa [hhead], hread⟩

/-- All contents that a body holds collect the same classes. -/
theorem Reads.classes_eq {c : Content} (hread : a.Reads pool read) (hc : a.Holds pool c) :
    read.classes = (c.record pool a.name).classes := by
  obtain ⟨name, left, hname, hbody⟩ := hread
  generalize UInt32.ofNat a.body.length = length at hbody
  have hnamed := hc.named.2
  rw [found_eq hname] at hnamed
  rcases hnamed with hown | ⟨hnone, hunknown⟩
  · obtain ⟨front, hfront, hhead⟩ := decodes_head hc.named hc.valid hname hown length
    obtain ⟨rest, hrest⟩ := hfront.trans hc.starts
    rw [← hrest] at hbody
    rw [(hhead.eq_of_ok hbody).1]
  · rw [attributeBody_of_unknown hunknown] at hbody
    obtain ⟨rfl, -⟩ := Decoder.pure_eq_ok.mp hbody
    cases c with
    | other => rfl
    | _ => cases hnone

theorem Reads.exists_holds (hread : a.Reads pool read) : ∃ c, a.Holds pool c := by
  obtain ⟨name, left, hname, hbody⟩ := hread
  have htext : IsText pool a.name := isText_iff.mpr (isOk_of_eq hname)
  by_cases hknown : name ∈ Content.knownNames
  · obtain ⟨c, hown, hvalid, hhead⟩ := exists_content hknown hbody
    exact ⟨c, ⟨htext, .inl (by rw [hown, found_eq hname])⟩, hvalid, hhead⟩
  · refine ⟨.other a.body, ⟨htext, .inr ⟨rfl, by rwa [found_eq hname]⟩⟩, ?_, ?_⟩
    · simp only [Content.Valid]
    · have hbytes : (Content.other a.body).bytes = a.body := by rw [Content.bytes]
      exact ⟨[], (List.append_nil _).trans hbytes⟩

/-- The classes collected from an attribute are those that it mentions and the element classes of
those that it cites. -/
theorem Reads.collects {names : List String} (hread : a.Reads pool read)
    (h : read.classes = .ok names) : Collects names (a.Mentions pool) (a.Cites pool) := by
  have hheld : ∀ c, a.Holds pool c → Collects names (c.Mentions pool) (c.Cites pool) := by
    intro c hc
    rw [hread.classes_eq hc] at h
    exact Content.collects hc.valid h
  intro name
  constructor
  · intro hname
    obtain ⟨c, hc⟩ := hread.exists_holds
    rcases (hheld c hc name).mp hname with hm | ⟨text, hcites, htext⟩
    · exact .inl ⟨c, hc, hm⟩
    · exact .inr ⟨text, ⟨c, hc, hcites⟩, htext⟩
  · rintro (⟨c, hc, hm⟩ | ⟨text, ⟨c, hc, hcites⟩, htext⟩)
    · exact (hheld c hc name).mpr (.inl hm)
    · exact (hheld c hc name).mpr (.inr ⟨text, hcites, htext⟩)

end AttributeSlice

end ClassDeps.ClassFile
