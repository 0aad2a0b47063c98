import ClassDeps.Proofs.ClassFile.Uses
import Mathlib.Data.List.TakeWhile

namespace ClassDeps.ClassFile

namespace Descriptor

variable {text name : String}

/-- The name starts as that of an array type. -/
def IsBracketed (name : String) : Prop :=
  name.toList.head? = some '['

instance : DecidablePred IsBracketed :=
  fun _ => inferInstanceAs (Decidable (_ = _))

/-- The text is an array type with elements of the class `name`, in one dimension or more. -/
def IsArrayOf (text name : String) : Prop :=
  ∃ n, text.toList = List.replicate (n + 1) '[' ++ 'L' :: (name.toList ++ [';'])

/-- What the name of a class constant comes down to. An array of primitives comes to nothing. -/
def ReducesTo (text name : String) : Prop :=
  ¬ IsBracketed text ∧ name = text ∨ IsArrayOf text name

theorem isBracketed_dotted : IsBracketed (dotted name) ↔ IsBracketed name := by
  rw [IsBracketed, IsBracketed, dotted, String.toList_ofList, List.head?_map]
  cases name.toList.head? with
  | none => simp
  | some c =>
    rw [Option.map_some, Option.some.injEq, Option.some.injEq]
    split
    · rename_i hslash
      simp [hslash]
    · rfl

theorem IsArrayOf.isBracketed (h : IsArrayOf text name) : IsBracketed text := by
  obtain ⟨n, hn⟩ := h
  rw [IsBracketed, hn]
  rfl

theorem dropWhile_brackets (n : Nat) {c : Char} (hc : c ≠ '[') (cs : List Char) :
    (List.replicate n '[' ++ c :: cs).dropWhile (fun c => decide (c = '[')) = c :: cs := by
  rw [List.dropWhile_append_of_pos (by simp), List.dropWhile_cons_of_neg (by simpa using hc)]

theorem elementClass?_of_isArrayOf (h : IsArrayOf text name) : elementClass? text = some name := by
  obtain ⟨n, hn⟩ := h
  have hbrackets := dropWhile_brackets n (c := 'L') (by decide) (name.toList ++ [';'])
  rw [elementClass?, hn, List.replicate_succ, List.cons_append]
  simp only [hbrackets, List.getLast?_concat, if_true, List.dropLast_concat, String.ofList_toList]

theorem isArrayOf_of_elementClass? (hbracket : IsBracketed text)
    (h : elementClass? text = some name) : IsArrayOf text name := by
  obtain ⟨cs, hcs⟩ := List.head?_eq_some_iff.mp hbracket
  rw [elementClass?, hcs] at h
  simp only at h
  split at h
  · rename_i element hdrop
    split at h
    · rename_i hlast
      cases h
      have htake : cs.takeWhile (fun c => decide (c = '[')) =
          List.replicate (cs.takeWhile fun c => decide (c = '[')).length '[' :=
        List.eq_replicate_of_mem fun c hc => by simpa using List.mem_takeWhile_imp hc
      refine ⟨(cs.takeWhile fun c => decide (c = '[')).length, ?_⟩
      rw [hcs, List.replicate_succ, ← htake, String.toList_ofList, List.cons_append,
        List.dropLast_append_getLast? _ hlast, ← hdrop, List.takeWhile_append_dropWhile]
    · cases h
  · cases h

theorem elementClass?_eq_some_iff : elementClass? text = some name ↔ ReducesTo text name := by
  by_cases hbracket : IsBracketed text
  · constructor
    · intro h
      exact .inr (isArrayOf_of_elementClass? hbracket h)
    · rintro (⟨hplain, -⟩ | harray)
      · exact absurd hbracket hplain
      · exact elementClass?_of_isArrayOf harray
  · have hself : elementClass? text = some text := by
      rw [elementClass?]
      split
      · rename_i cs hcs
        rw [IsBracketed, hcs] at hbracket
        exact absurd rfl hbracket
      · rfl
    rw [hself, Option.some.injEq]
    constructor
    · rintro rfl
      exact .inl ⟨hbracket, rfl⟩
    · rintro (⟨-, rfl⟩ | harray)
      · rfl
      · exact absurd harray.isBracketed hbracket

end Descriptor

namespace Stored.Content

variable {pool : ConstantPool} {name : String}

/-- A class type of a signature, of an annotation, or of a descriptor that is reached. -/
inductive Types (pool : ConstantPool) : Content → String → Prop
  | annotated {visible items a name} : a ∈ items → a.Mentions pool name →
      Types pool (annotations visible items) name
  | annotatedParameter {visible parameters items a name} : items ∈ parameters → a ∈ items →
      a.Mentions pool name → Types pool (parameterAnnotations visible parameters) name
  | signature {text name} : TypeAt pool Signature.referencedTypes text name →
      Types pool (signature text) name
  | enclosing {owner method called descriptor name} :
      pool.nameAndType method = .ok (called, descriptor) →
      TypeIn Descriptor.methodTypeNames descriptor name →
      Types pool (enclosingMethod owner method) name
  | instruction {maxStack maxLocals body instructions i handlers attributes name} :
      Bytecode.Aligned 0 instructions → Bytecode.layout instructions = body → i ∈ instructions →
      i.Mentions pool name → Types pool (code maxStack maxLocals body handlers attributes) name

/-- A class that a handler catches or that a table of exceptions lists. -/
inductive Throws (pool : ConstantPool) : Content → String → Prop
  | caught {maxStack maxLocals body handlers h attributes name} : h ∈ handlers →
      pool.className h.caught = .ok name →
      Throws pool (code maxStack maxLocals body handlers attributes) name
  | exception {classes i name} : i ∈ classes → pool.className i = .ok name →
      Throws pool (exceptions classes) name

theorem mentions_iff {c : Content} :
    c.Mentions pool name ↔ c.Types pool name ∨ c.Throws pool name := by
  constructor
  · intro h
    cases h with
    | annotated ha hm => exact .inl (.annotated ha hm)
    | annotatedParameter hitems ha hm => exact .inl (.annotatedParameter hitems ha hm)
    | signatureType htype => exact .inl (.signature htype)
    | enclosingType hpair htype => exact .inl (.enclosing hpair htype)
    | instruction haligned hlayout hi hm => exact .inl (.instruction haligned hlayout hi hm)
    | caught hh hname => exact .inr (.caught hh hname)
    | exception hi hname => exact .inr (.exception hi hname)
  · rintro (htypes | hthrows)
    · cases htypes with
      | annotated ha hm => exact .annotated ha hm
      | annotatedParameter hitems ha hm => exact .annotatedParameter hitems ha hm
      | signature htype => exact .signatureType htype
      | enclosing hpair htype => exact .enclosingType hpair htype
      | instruction haligned hlayout hi hm => exact .instruction haligned hlayout hi hm
    · cases hthrows with
      | caught hh hname => exact .caught hh hname
      | exception hi hname => exact .exception hi hname

theorem Throws.exists_className {c : Content} (h : c.Throws pool name) :
    ∃ i, pool.className i = .ok name := by
  cases h with
  | caught _ hname | exception _ hname => exact ⟨_, hname⟩

end Stored.Content

def AttributeSlice.Types (pool : ConstantPool) (a : AttributeSlice) (name : String) : Prop :=
  ∃ c, a.Holds pool c ∧ c.Types pool name

def AttributeSlice.Throws (pool : ConstantPool) (a : AttributeSlice) (name : String) : Prop :=
  ∃ c, a.Holds pool c ∧ c.Throws pool name

theorem AttributeSlice.mentions_iff {pool : ConstantPool} {a : AttributeSlice} {name : String} :
    a.Mentions pool name ↔ a.Types pool name ∨ a.Throws pool name := by
  simp only [Mentions, Types, Throws, Stored.Content.mentions_iff, and_or_left, exists_or]

namespace Outline

/-- A class type of the descriptor of a member, of the array type in a class constant, or of an
attribute. -/
inductive Types (o : Outline) : String → Prop
  | field {m name} : m ∈ o.fields.items →
      TypeAt o.pool Descriptor.fieldTypeNames m.descriptor name → Types o name
  | method {m name} : m ∈ o.methods.items →
      TypeAt o.pool Descriptor.methodTypeNames m.descriptor name → Types o name
  | array {i text name} : o.pool.className i = .ok text → Descriptor.IsArrayOf text name →
      Types o name
  | body {a name} : o.HasAttribute a → a.Types o.pool name → Types o name

def Throws (o : Outline) (text : String) : Prop :=
  ∃ a, o.HasAttribute a ∧ a.Throws o.pool text

/-- The paths to a class constant: the pool itself, the superclass, the interfaces, the instructions
and the tables of nesting, and what is caught or thrown. -/
inductive Reaches (o : Outline) : String → Prop
  | constant {i text} : o.pool.className i = .ok text → Reaches o text
  | cited {text} : o.Cites text → Reaches o text
  | thrown {text} : o.Throws text → Reaches o text

variable {o : Outline} {name text : String}

theorem Reaches.exists_className (h : o.Reaches text) : ∃ i, o.pool.className i = .ok text := by
  cases h with
  | constant hname => exact ⟨_, hname⟩
  | cited hcites => exact hcites.exists_className
  | thrown hthrows =>
    obtain ⟨a, -, c, -, hc⟩ := hthrows
    exact hc.exists_className

/-- What a class mentions is reduced, but for the array types that it throws. -/
theorem mentions_iff : o.Mentions name ↔ o.Types name ∨
    (∃ text, o.Reaches text ∧ Descriptor.ReducesTo text name) ∨
      o.Throws name ∧ Descriptor.IsBracketed name := by
  constructor
  · intro h
    cases h with
    | constant htext hname =>
      exact .inr (.inl ⟨_, .constant htext, Descriptor.elementClass?_eq_some_iff.mp hname⟩)
    | field hm htype => exact .inl (.field hm htype)
    | method hm htype => exact .inl (.method hm htype)
    | body ha hmention =>
      rcases AttributeSlice.mentions_iff.mp hmention with htypes | hthrows
      · exact .inl (.body ha htypes)
      · by_cases hbracket : Descriptor.IsBracketed name
        · exact .inr (.inr ⟨⟨_, ha, hthrows⟩, hbracket⟩)
        · exact .inr (.inl ⟨name, .thrown ⟨_, ha, hthrows⟩, .inl ⟨hbracket, rfl⟩⟩)
  · rintro (htypes | ⟨text, hreaches, hreduces⟩ | ⟨⟨a, ha, hthrows⟩, -⟩)
    · cases htypes with
      | field hm htype => exact .field hm htype
      | method hm htype => exact .method hm htype
      | array htext harray => exact .constant htext (Descriptor.elementClass?_of_isArrayOf harray)
      | body ha htypes => exact .body ha (AttributeSlice.mentions_iff.mpr (.inl htypes))
    · obtain ⟨i, hi⟩ := hreaches.exists_className
      exact .constant hi (Descriptor.elementClass?_eq_some_iff.mpr hreduces)
    · exact .body ha (AttributeSlice.mentions_iff.mpr (.inr hthrows))

/-- If no class type starts with a bracket, nothing that is reduced does. -/
theorem not_isBracketed_of_reaches (htypes : ∀ name, o.Types name → ¬ Descriptor.IsBracketed name)
    (hreaches : o.Reaches text) (hreduces : Descriptor.ReducesTo text name) :
    ¬ Descriptor.IsBracketed name := by
  rcases hreduces with ⟨hplain, rfl⟩ | harray
  · exact hplain
  · obtain ⟨i, hi⟩ := hreaches.exists_className
    exact htypes name (.array hi harray)

end Outline

theorem Outline.Reads.mem_uses_iff {o : Outline} {c : ClassFile} {d : ClassDefinition}
    (hread : o.Reads c) (h : c.definition = .ok d) (name : String) : name ∈ d.uses ↔
      name ≠ d.name ∧ ∃ internal, Descriptor.dotted internal = name ∧ o.Mentions internal := by
  obtain ⟨mentioned, hmentioned, hd⟩ := bind_eq_ok_iff.mp h
  cases hd
  rw [Std.ExtTreeSet.mem_erase, Std.ExtTreeSet.mem_ofList, List.contains_iff_mem, List.mem_map]
  simp only [hread.mem_mentioned_iff hmentioned, ne_eq, Std.LawfulEqCmp.compare_eq_iff_eq]
  rw [eq_comm]
  simp only [and_comm]

/-- The uses of a class are its class types, what the class constants reduce to on every path to
them, and the array types that it throws as they are written. So if no class type starts with a
bracket, a use does exactly if an array type is caught or declared to be thrown. -/
theorem uses_bracketed_iff_throws {data : List UInt8} {d : ClassDefinition}
    (h : ClassDefinition.ofBytes data = .ok d) :
    ∃ o : Outline, (o.StoredIn data ∧ ∀ o' : Outline, o'.StoredIn data → o' = o) ∧
      (∀ name, name ∈ d.uses ↔ name ≠ d.name ∧ ∃ internal, Descriptor.dotted internal = name ∧
        (o.Types internal ∨ (∃ text, o.Reaches text ∧ Descriptor.ReducesTo text internal) ∨
          o.Throws internal ∧ Descriptor.IsBracketed internal)) ∧
      ((∀ name, o.Types name → ¬ Descriptor.IsBracketed name) →
        ((∃ name ∈ d.uses, Descriptor.IsBracketed name) ↔
          ∃ text, o.Throws text ∧ Descriptor.IsBracketed text ∧
            Descriptor.dotted text ≠ d.name)) := by
  obtain ⟨c, hdecode, hdefinition⟩ := bind_eq_ok_iff.mp h
  obtain ⟨o, hstored, hread⟩ := exists_outline_of_decode hdecode
  have huses := hread.mem_uses_iff hdefinition
  simp only [Outline.mentions_iff] at huses
  refine ⟨o, ⟨hstored, fun o' ho' => ho'.unique hstored⟩, huses, ?_⟩
  intro htypes
  constructor
  · rintro ⟨name, hname, hbracket⟩
    obtain ⟨hne, internal, rfl, hcause⟩ := (huses name).mp hname
    rw [Descriptor.isBracketed_dotted] at hbracket
    rcases hcause with htype | ⟨text, hreaches, hreduces⟩ | ⟨hthrows, -⟩
    · exact absurd hbracket (htypes internal htype)
    · exact absurd hbracket (Outline.not_isBracketed_of_reaches htypes hreaches hreduces)
    · exact ⟨internal, hthrows, hbracket, hne⟩
  · rintro ⟨text, hthrows, hbracket, hne⟩
    exact ⟨Descriptor.dotted text, (huses _).mpr ⟨hne, text, rfl, .inr (.inr ⟨hthrows, hbracket⟩)⟩,
      Descriptor.isBracketed_dotted.mpr hbracket⟩

/-- A class with a method that is declared to throw an array. -/
def thrower : Stored.Class where
  minorVersion := 0
  majorVersion := 52
  constants := [.utf8 "a/A", .classInfo 1, .utf8 "[La/B;", .classInfo 3, .utf8 "run", .utf8 "()V",
    .utf8 "Exceptions"]
  flags := 0x421
  name := 2
  superName := 0
  interfaces := []
  fields := []
  methods := [{ flags := 0x401, name := 5, descriptor := 6, attributes := ⟨[(7, .exceptions [4])]⟩ }]
  attributes := ⟨[]⟩

def throwerOutline : Outline where
  minorVersion := 0
  majorVersion := 52
  pool := thrower.pool
  flags := 0x421
  name := 2
  superName := 0
  interfaces := ⟨[], by decide⟩
  fields := ⟨[], by decide⟩
  methods := ⟨[{
    flags := 0x401, name := 5, descriptor := 6
    attributes := ⟨[⟨7, [0, 1, 0, 4], by decide⟩], by decide⟩ }], by decide⟩
  attributes := ⟨[], by decide⟩

theorem throwerOutline_storedIn : throwerOutline.StoredIn thrower.bytes := by
  have hpool : Decodes Decoder.constantPool (Encoder.constantPool thrower.constants)
      thrower.pool := Decodes.constantPool (by decide +kernel) (by decide)
  refine ⟨Encoder.constantPool thrower.constants ++ (throwerOutline.bytes ++ []), [], ?_, hpool _⟩
  decide +kernel

/-- A table of exceptions has no descriptors. -/
theorem AttributeSlice.not_types_of_exceptions {pool : ConstantPool} {a : AttributeSlice}
    {name : String} (hname : pool.utf8 a.name = .ok "Exceptions") : ¬ a.Types pool name := by
  rintro ⟨c, hc, htypes⟩
  have hnamed := hc.named.2
  rw [Stored.found_eq hname] at hnamed
  cases htypes with
  | @annotated visible => cases visible <;> simp [Stored.Content.name?] at hnamed
  | @annotatedParameter visible => cases visible <;> simp [Stored.Content.name?] at hnamed
  | signature | enclosing | instruction => simp [Stored.Content.name?] at hnamed

theorem throwerOutline_types {name : String} (h : throwerOutline.Types name) :
    ¬ Descriptor.IsBracketed name := by
  cases h with
  | field hm => cases hm
  | method hm htype =>
    obtain rfl := List.mem_singleton.mp hm
    have hdescriptor : throwerOutline.pool.utf8 6 = .ok "()V" := by decide +kernel
    have hnames : Descriptor.methodTypeNames "()V" = .ok [] := by decide +kernel
    cases (typeAt_iff hdescriptor hnames).mp htype
  | array htext harray =>
    have hclasses : throwerOutline.pool.classes = .ok ["a/A", "a/B"] := by decide +kernel
    have hplain : ∀ name ∈ ["a/A", "a/B"], ¬ Descriptor.IsBracketed name := by decide
    exact hplain name ((ConstantPool.mem_classes_iff hclasses).mpr
      ⟨_, _, htext, Descriptor.elementClass?_of_isArrayOf harray⟩)
  | body ha htypes =>
    rcases ha with ha | ⟨m, hm | hm, ha⟩
    · cases ha
    · cases hm
    · obtain rfl := List.mem_singleton.mp hm
      obtain rfl := List.mem_singleton.mp ha
      exact absurd htypes (AttributeSlice.not_types_of_exceptions (by decide))

theorem thrower_definition : ∃ d, ClassDefinition.ofBytes thrower.bytes = .ok d ∧
    ∃ name ∈ d.uses, Descriptor.IsBracketed name := by
  have huses : (ClassDefinition.ofBytes thrower.bytes).map (·.uses.toList) =
      .ok ["[La.B;", "a.B"] := by
    decide +kernel
  obtain ⟨d, hd, hlist⟩ := map_eq_ok_iff.mp huses
  refine ⟨d, hd, "[La.B;", ?_, by decide⟩
  rw [← Std.ExtTreeSet.mem_toList, hlist]
  exact List.mem_cons_self

theorem uses_bracketed_iff_throws_thrower : ∃ d, ClassDefinition.ofBytes thrower.bytes = .ok d ∧
    (∀ name, throwerOutline.Types name → ¬ Descriptor.IsBracketed name) ∧
    (∃ name ∈ d.uses, Descriptor.IsBracketed name) ∧
    ∃ text, throwerOutline.Throws text ∧ Descriptor.IsBracketed text ∧
      Descriptor.dotted text ≠ d.name := by
  obtain ⟨d, hd, hbracketed⟩ := thrower_definition
  obtain ⟨o, ⟨-, hunique⟩, -, hiff⟩ := uses_bracketed_iff_throws hd
  obtain rfl := hunique throwerOutline throwerOutline_storedIn
  have htypes : ∀ name, throwerOutline.Types name → ¬ Descriptor.IsBracketed name :=
    fun _ => throwerOutline_types
  exact ⟨d, hd, htypes, hbracketed, (hiff htypes).mp hbracketed⟩

/-- No class type of the class starts with a bracket, and yet a use does. -/
theorem uses_bracketed_without_types : ∃ (d : ClassDefinition) (o : Outline),
    ClassDefinition.ofBytes thrower.bytes = .ok d ∧ o.StoredIn thrower.bytes ∧
    (∀ name, o.Types name → ¬ Descriptor.IsBracketed name) ∧
    ∃ name ∈ d.uses, Descriptor.IsBracketed name := by
  obtain ⟨d, hd, hbracketed⟩ := thrower_definition
  exact ⟨d, throwerOutline, hd, throwerOutline_storedIn, fun _ => throwerOutline_types, hbracketed⟩

end ClassDeps.ClassFile
