import ClassDeps.Model.Import
import ClassDeps.Proofs.ClassFile.Mention

namespace ClassDeps.ClassFile

namespace Outline

/-- The attributes of the class itself, of its fields and of its methods. -/
def HasAttribute (o : Outline) (a : AttributeSlice) : Prop :=
  a ∈ o.attributes.items ∨
    ∃ m, (m ∈ o.fields.items ∨ m ∈ o.methods.items) ∧ a ∈ m.attributes.items

/-- A class that a class constant stands for, or a class type of the descriptor of a member, or one
that an attribute mentions. -/
inductive Mentions (o : Outline) : String → Prop
  | constant {i text name} : o.pool.className i = .ok text →
      Descriptor.elementClass? text = some name → Mentions o name
  | field {m name} : m ∈ o.fields.items →
      TypeAt o.pool Descriptor.fieldTypeNames m.descriptor name → Mentions o name
  | method {m name} : m ∈ o.methods.items →
      TypeAt o.pool Descriptor.methodTypeNames m.descriptor name → Mentions o name
  | body {a name} : o.HasAttribute a → a.Mentions o.pool name → Mentions o name

/-- The superclass, an interface, or a class that an attribute cites. -/
inductive Cites (o : Outline) : String → Prop
  | superclass {name} : o.pool.className o.superName = .ok name → Cites o name
  | interface {i name} : i ∈ o.interfaces.items → o.pool.className i = .ok name → Cites o name
  | body {a name} : o.HasAttribute a → a.Cites o.pool name → Cites o name

theorem Cites.exists_className {o : Outline} {name : String} (h : o.Cites name) :
    ∃ i, o.pool.className i = .ok name := by
  cases h with
  | superclass hname | interface _ hname => exact ⟨_, hname⟩
  | body _ hcites =>
    obtain ⟨c, -, hc⟩ := hcites
    exact hc.exists_className

end Outline

/-- The classes of the pool are the element classes of all its class constants. -/
theorem ConstantPool.mem_classes_iff {pool : ConstantPool} {names : List String} {name : String}
    (h : pool.classes = .ok names) : name ∈ names ↔
      ∃ i text, pool.className i = .ok text ∧ Descriptor.elementClass? text = some name := by
  obtain ⟨lists, hlists, h⟩ := bind_eq_ok_iff.mp h
  cases h
  rw [List.mem_flatten]
  constructor
  · rintro ⟨list, hlist, hname⟩
    obtain ⟨⟨i, k⟩, -, hk⟩ := (mem_of_mapM_eq_ok hlists).mp hlist
    cases k with
    | classInfo j =>
      obtain ⟨text, htext, hk⟩ := bind_eq_ok_iff.mp hk
      cases hk
      exact ⟨i, text, htext, Collects.mem_elementClasses.mp hname⟩
    | _ =>
      cases hk
      cases hname
  · rintro ⟨i, text, htext, hname⟩
    obtain ⟨j, hget, -⟩ := className_eq_ok_iff.mp htext
    refine ⟨_, (mem_of_mapM_eq_ok hlists).mpr ⟨(i, .classInfo j), mem_entries hget, ?_⟩,
      Collects.mem_elementClasses.mpr hname⟩
    exact bind_eq_ok_iff.mpr ⟨text, htext, rfl⟩

variable {pool : ConstantPool} {names : List String}

theorem collects_attributeClasses {slices : List AttributeSlice} {attributes : List Attribute}
    (hread : List.Forall₂ (AttributeSlice.Reads pool) slices attributes)
    (h : attributeClasses attributes = .ok names) :
    Collects names (fun name => ∃ a ∈ slices, a.Mentions pool name)
      fun text => ∃ a ∈ slices, a.Cites pool text := by
  obtain ⟨lists, hlists, h⟩ := bind_eq_ok_iff.mp h
  cases h
  exact Collects.flatten hread hlists fun a read names hread hnames => hread.collects hnames

theorem collects_member {typeNames : String → Except Malformed (List String)} {m : MemberOutline}
    {member : Member} (hread : m.Reads pool member) (h : member.classes typeNames = .ok names) :
    Collects names
      (fun name => TypeAt pool typeNames m.descriptor name ∨
        ∃ a ∈ m.attributes.items, a.Mentions pool name)
      fun text => ∃ a ∈ m.attributes.items, a.Cites pool text := by
  obtain ⟨own, hown, h⟩ := bind_eq_ok_iff.mp h
  obtain ⟨rest, hrest, h⟩ := bind_eq_ok_iff.mp h
  cases h
  intro name
  simp only [List.mem_append, collects_attributeClasses hread.attributes hrest name,
    typeAt_iff hread.descriptor hown, or_assoc]

theorem collects_members {typeNames : String → Except Malformed (List String)}
    {ms : List MemberOutline} {members : List Member} {lists : List (List String)}
    (hread : List.Forall₂ (MemberOutline.Reads pool) ms members)
    (h : members.mapM (Member.classes typeNames) = .ok lists) :
    Collects lists.flatten
      (fun name => ∃ m ∈ ms, TypeAt pool typeNames m.descriptor name ∨
        ∃ a ∈ m.attributes.items, a.Mentions pool name)
      fun text => ∃ m ∈ ms, ∃ a ∈ m.attributes.items, a.Cites pool text :=
  Collects.flatten hread h fun _ _ _ hm hnames => collects_member hm hnames

theorem exists_of_forall₂ {α β : Type} {R : α → β → Prop} {xs : List α} {ys : List β} {y : β}
    (h : List.Forall₂ R xs ys) (hy : y ∈ ys) : ∃ x ∈ xs, R x y := by
  induction h with
  | nil => cases hy
  | cons hxy _ ih =>
    rcases List.mem_cons.mp hy with rfl | hy
    · exact ⟨_, List.mem_cons_self, hxy⟩
    · obtain ⟨x, hx, hR⟩ := ih hy
      exact ⟨x, List.mem_cons_of_mem _ hx, hR⟩

namespace Outline.Reads

variable {o : Outline} {c : ClassFile} {name : String}

theorem cites_of_mem_hierarchy (hread : o.Reads c) {text : String}
    (h : text ∈ c.superName.toList ++ c.interfaces) : o.Cites text := by
  rcases List.mem_append.mp h with hsuper | hinterface
  · rcases hread.superName with ⟨-, hnone⟩ | ⟨name, hname, hsome⟩
    · rw [hnone] at hsuper
      cases hsuper
    · rw [hsome, Option.toList_some, List.mem_singleton] at hsuper
      subst hsuper
      exact .superclass hname
  · obtain ⟨i, hi, hname⟩ := exists_of_forall₂ hread.interfaces hinterface
    exact .interface hi hname

/-- Every class that is cited has a class constant, so citing it adds nothing. -/
theorem mentions_of_cites {text : String} (hcites : o.Cites text)
    (hname : Descriptor.elementClass? text = some name) : o.Mentions name := by
  obtain ⟨i, hi⟩ := hcites.exists_className
  exact .constant hi hname

theorem mem_mentioned_iff (hread : o.Reads c) (h : c.mentioned = .ok names) :
    name ∈ names ↔ o.Mentions name := by
  obtain ⟨constants, hconstants, h⟩ := bind_eq_ok_iff.mp h
  obtain ⟨fields, hfields, h⟩ := bind_eq_ok_iff.mp h
  obtain ⟨methods, hmethods, h⟩ := bind_eq_ok_iff.mp h
  obtain ⟨own, hown, h⟩ := bind_eq_ok_iff.mp h
  cases h
  rw [hread.pool] at hconstants
  have hpool : name ∈ constants ↔ _ := ConstantPool.mem_classes_iff hconstants
  have hfields := collects_members hread.fields hfields name
  have hmethods := collects_members hread.methods hmethods name
  have hown := collects_attributeClasses hread.attributes hown name
  simp only [List.mem_append, hpool, hfields, hmethods, hown, List.mem_flatMap,
    Collects.mem_elementClasses]
  constructor
  · rintro ((((⟨i, text, htext, hname⟩ | ⟨text, htext, hname⟩) | hfield) | hmethod) | hbody)
    · exact .constant htext hname
    · exact mentions_of_cites (hread.cites_of_mem_hierarchy (List.mem_append.mpr htext)) hname
    · rcases hfield with ⟨m, hm, htype | ⟨a, ha, hmention⟩⟩ | ⟨text, ⟨m, hm, a, ha, hcites⟩, hname⟩
      · exact .field hm htype
      · exact .body (.inr ⟨m, .inl hm, ha⟩) hmention
      · exact mentions_of_cites (.body (.inr ⟨m, .inl hm, ha⟩) hcites) hname
    · rcases hmethod with ⟨m, hm, htype | ⟨a, ha, hmention⟩⟩ |
        ⟨text, ⟨m, hm, a, ha, hcites⟩, hname⟩
      · exact .method hm htype
      · exact .body (.inr ⟨m, .inr hm, ha⟩) hmention
      · exact mentions_of_cites (.body (.inr ⟨m, .inr hm, ha⟩) hcites) hname
    · rcases hbody with ⟨a, ha, hmention⟩ | ⟨text, ⟨a, ha, hcites⟩, hname⟩
      · exact .body (.inl ha) hmention
      · exact mentions_of_cites (.body (.inl ha) hcites) hname
  · intro hmention
    cases hmention with
    | constant htext hname => exact .inl (.inl (.inl (.inl ⟨_, _, htext, hname⟩)))
    | field hm htype => exact .inl (.inl (.inr (.inl ⟨_, hm, .inl htype⟩)))
    | method hm htype => exact .inl (.inr (.inl ⟨_, hm, .inl htype⟩))
    | body ha hmention =>
      rcases ha with ha | ⟨m, hm | hm, ha⟩
      · exact .inr (.inl ⟨_, ha, hmention⟩)
      · exact .inl (.inl (.inr (.inl ⟨m, hm, .inr ⟨_, ha, hmention⟩⟩)))
      · exact .inl (.inr (.inl ⟨m, hm, .inr ⟨_, ha, hmention⟩⟩))

end Outline.Reads

/-- The uses of a class that is decoded and read in full are exactly the dotted forms of what its
only outline mentions, less its own name; and the classes of the pool already cover the superclass,
the interfaces, the classes of nesting tables and the class operands of instructions. -/
theorem mem_uses_iff_mentions {data : List UInt8} {d : ClassDefinition}
    (h : ClassDefinition.ofBytes data = .ok d) :
    ∃ o : Outline, (o.StoredIn data ∧ ∀ o' : Outline, o'.StoredIn data → o' = o) ∧
      (∃ own, o.pool.className o.name = .ok own ∧ d.name = Descriptor.dotted own) ∧
      (∀ name, name ∈ d.uses ↔
        name ≠ d.name ∧ ∃ internal, o.Mentions internal ∧ Descriptor.dotted internal = name) ∧
      ∃ constants, o.pool.classes = .ok constants ∧ ∀ text name, o.Cites text →
        Descriptor.elementClass? text = some name → name ∈ constants := by
  obtain ⟨c, hdecode, hdefinition⟩ := bind_eq_ok_iff.mp h
  obtain ⟨mentioned, hmentioned, hd⟩ := bind_eq_ok_iff.mp hdefinition
  obtain ⟨constants, hconstants, -⟩ := bind_eq_ok_iff.mp hmentioned
  obtain ⟨o, hstored, hread⟩ := exists_outline_of_decode hdecode
  cases hd
  rw [hread.pool] at hconstants
  refine ⟨o, ⟨hstored, fun o' ho' => ho'.unique hstored⟩, ⟨c.name, hread.name, rfl⟩, ?_,
    constants, hconstants, ?_⟩
  · intro name
    rw [Std.ExtTreeSet.mem_erase, Std.ExtTreeSet.mem_ofList, List.contains_iff_mem, List.mem_map]
    simp only [hread.mem_mentioned_iff hmentioned, ne_eq, Std.LawfulEqCmp.compare_eq_iff_eq]
    rw [eq_comm]
  · intro text name hcites hname
    obtain ⟨i, hi⟩ := hcites.exists_className
    exact (ConstantPool.mem_classes_iff hconstants).mpr ⟨i, text, hi, hname⟩

/-- A class that reaches others through an array constant, an instruction, a loaded method type, a
handler, a signature and an annotation. -/
def widget : Stored.Class where
  minorVersion := 0
  majorVersion := 61
  constants := [.utf8 "a/Widget", .classInfo 1, .utf8 "a/Base", .classInfo 3, .utf8 "[[La/Cell;",
    .classInfo 5, .utf8 "[I", .classInfo 7, .utf8 "Code", .utf8 "run", .utf8 "(La/In;)La/Out;",
    .nameAndType 10 11, .member .method 4 12, .utf8 "(La/Type;)V", .methodType 14,
    .utf8 "Signature", .utf8 "Ljava/util/List<La/Item;>;", .utf8 "[La/Part;", .utf8 "()V",
    .utf8 "RuntimeVisibleAnnotations", .utf8 "La/Mark;"]
  flags := 0x21
  name := 2
  superName := 4
  interfaces := []
  fields := [{ flags := 2, name := 10, descriptor := 18, attributes := ⟨[(16, .signature 17)]⟩ }]
  methods := [{
    flags := 1, name := 10, descriptor := 19
    attributes := ⟨[(9, .code 1 1 [0xb6, 0, 13, 0x12, 15, 0xb1] [⟨0, 3, 3, 4⟩] [])]⟩ }]
  attributes := ⟨[(20, .annotations true [⟨21, [(10, .classLiteral 18)]⟩])]⟩

theorem mem_uses_iff_mentions_widget :
    ∃ (d : ClassDefinition) (o : Outline), ClassDefinition.ofBytes widget.bytes = .ok d ∧
      d.uses.toList = ["a.Base", "a.Cell", "a.In", "a.Item", "a.Mark", "a.Out", "a.Part", "a.Type",
        "java.util.List"] ∧
      o.StoredIn widget.bytes ∧ ∀ name, name ∈ d.uses ↔
        name ≠ d.name ∧ ∃ internal, o.Mentions internal ∧ Descriptor.dotted internal = name := by
  have hvalid : widget.Valid := {
    constants := by decide
    width := by decide
    name := by decide +kernel
    superName := by decide +kernel
    interfaces := by decide +kernel
    fields := by decide +kernel
    methods := by decide +kernel
    attributes := by decide +kernel }
  have hdecode : decode widget.bytes = .ok widget.record := by
    rw [decode, (Stored.decodes_classFile hvalid).eq_ok]
  have huses : widget.record.definition.toOption.map (·.uses.toList) = some ["a.Base", "a.Cell",
      "a.In", "a.Item", "a.Mark", "a.Out", "a.Part", "a.Type", "java.util.List"] := by
    decide +kernel
  cases hdefinition : widget.record.definition with
  | error e =>
    rw [hdefinition] at huses
    cases huses
  | ok d =>
    rw [hdefinition] at huses
    have hd : ClassDefinition.ofBytes widget.bytes = .ok d :=
      bind_eq_ok_iff.mpr ⟨_, hdecode, hdefinition⟩
    obtain ⟨o, hstored, -, hmentions, -⟩ := mem_uses_iff_mentions hd
    exact ⟨d, o, hd, Option.some.inj huses, hstored.1, hmentions⟩

end ClassDeps.ClassFile
