import ClassDeps.Proofs.ClassFile.Stored
import ClassDeps.Proofs.Traverse

namespace ClassDeps.ClassFile.Stored

variable {α : Type} [Inhabited α] {pool : ConstantPool}

theorem decodes_lookup {lookup : UInt16 → Except Malformed α} {i : UInt16} (h : (lookup i).isOk) :
    Decodes (Decoder.u16 >>= fun i => liftM (lookup i)) (Encoder.u16 i) (found (lookup i)) :=
  (Decodes.u16 i).bind_nil (.lift (eq_ok_found h))

theorem decodes_optional {lookup : UInt16 → Except Malformed α} {i : UInt16}
    (h : i = 0 ∨ (lookup i).isOk) :
    Decodes (Decoder.optional lookup) (Encoder.u16 i) (foundOptional lookup i) := by
  apply (Decodes.u16 i).bind_nil
  rw [foundOptional]
  by_cases hi : i = 0
  · rw [if_pos hi, if_pos hi]
    exact .pure none
  · rw [if_neg hi, if_neg hi]
    exact .lift_bind (eq_ok_found (h.resolve_left hi)) (.pure _)

theorem bytes_nested (type : UInt16) (elements : List (UInt16 × ElementValue)) :
    (ElementValue.nested type elements).bytes =
      [ElementValue.tagByte '@'] ++ (AnnotationItem.mk type elements).bytes := by
  rw [ElementValue.bytes]
  rfl

theorem bytes_array (items : List ElementValue) : (ElementValue.array items).bytes =
    [ElementValue.tagByte '['] ++ Encoder.table ElementValue.bytes items := by
  rw [ElementValue.bytes]
  rfl

theorem length_bytes_pos (v : ElementValue) : 0 < v.bytes.length := by
  cases v <;> simp [ElementValue.bytes]

theorem length_element_le {a : AnnotationItem} {e : UInt16 × ElementValue} (h : e ∈ a.elements) :
    e.2.bytes.length ≤ a.bytes.length := by
  have hle := Encoder.length_item_le_table
    (fun e : UInt16 × ElementValue => Encoder.u16 e.1 ++ e.2.bytes) h
  rw [List.length_append] at hle
  rw [AnnotationItem.bytes, List.length_append]
  omega

theorem exists_descriptor {i : UInt16} (h : IsDescriptor pool i) :
    ∃ text, pool.utf8 i = .ok text ∧
      Descriptor.fieldTypeNames text = .ok (found (types pool i)) :=
  bind_eq_ok_iff.mp (eq_ok_found (isDescriptor_iff.mp h))

/-- An annotation of at most `depth` bytes, given that values of at most `depth` bytes are read
back. -/
theorem decodes_annotationWith {value : Decoder (List String)} {depth : Nat} {a : AnnotationItem}
    (h : a.Valid pool) (hlen : a.bytes.length ≤ depth)
    (hvalue : ∀ v : ElementValue, v.Valid pool → v.bytes.length ≤ depth →
      Decodes value v.bytes (v.classes pool)) :
    Decodes (Decoder.annotationWith pool value) a.bytes (a.record pool) := by
  obtain ⟨htype, hcount, helements⟩ := AnnotationItem.valid_iff.mp h
  obtain ⟨htypes, hne⟩ := isClassDescriptor_iff.mp htype
  obtain ⟨text, htext, hnames⟩ := exists_descriptor (isDescriptor_iff.mpr htypes)
  obtain ⟨name, more, hfound⟩ := List.exists_cons_of_ne_nil hne
  have htable : Decodes (Decoder.table (Decoder.u16 >>= fun _ => value))
      (Encoder.table (fun e => Encoder.u16 e.1 ++ e.2.bytes) a.elements)
      (a.elements.map fun e => e.2.classes pool) := by
    apply Decodes.table hcount
    intro e he
    have hle := length_element_le he
    exact (Decodes.u16 e.1).bind (hvalue e.2 (helements e he) (by omega))
  have hrecord : a.record pool =
      { type := name, classes := (a.elements.map fun e => e.2.classes pool).flatten } := by
    rw [AnnotationItem.record, hfound, List.flatMap_def]
    rfl
  rw [hfound] at hnames
  rw [hrecord]
  exact (Decodes.u16 a.type).bind (.lift_bind htext (.lift_bind hnames (htable.map _)))

theorem any_constantTags {tag : Char} (h : tag ∈ ElementValue.constantTags) :
    "BCDFIJSZs".toList.any (·.toNat = (ElementValue.tagByte tag).toNat) := by
  have hall : ElementValue.constantTags.all fun tag =>
      "BCDFIJSZs".toList.any (·.toNat = (ElementValue.tagByte tag).toNat) := by
    decide
  exact List.all_eq_true.mp hall tag h

theorem decodes_elementValue (depth : Nat) : ∀ v : ElementValue, v.Valid pool →
    v.bytes.length ≤ depth →
    Decodes (Decoder.elementValue pool depth) v.bytes (v.classes pool) := by
  induction depth with
  | zero =>
    intro v _ hlen
    have := length_bytes_pos v
    omega
  | succ depth ih =>
    intro v hvalid hlen
    cases v with
    | constant tag value =>
      rw [ElementValue.Valid] at hvalid
      rw [ElementValue.bytes, ElementValue.classes, Decoder.elementValue]
      apply (Decodes.u8 _).bind
      rw [if_pos (any_constantTags hvalid)]
      exact (Decodes.u16 value).map _
    | enumConstant type name =>
      rw [ElementValue.Valid] at hvalid
      obtain ⟨text, htext, hnames⟩ := exists_descriptor hvalid
      rw [ElementValue.bytes, ElementValue.classes, Decoder.elementValue]
      apply (Decodes.u8 _).bind
      rw [if_neg (by decide), if_pos (by decide)]
      apply (Decodes.u16 type).bind
      exact .lift_bind htext (.lift_bind hnames ((Decodes.u16 name).map _))
    | classLiteral descriptor =>
      rw [ElementValue.Valid] at hvalid
      obtain ⟨text, htext, hnames⟩ := exists_descriptor hvalid
      rw [ElementValue.bytes, ElementValue.classes, Decoder.elementValue]
      apply (Decodes.u8 _).bind
      rw [if_neg (by decide), if_neg (by decide), if_pos (by decide)]
      exact (Decodes.u16 descriptor).bind_nil (.lift_bind htext (.lift hnames))
    | nested type elements =>
      rw [bytes_nested] at hlen ⊢
      rw [List.length_append, List.length_singleton] at hlen
      have hitem : Decodes (Decoder.annotationWith pool (Decoder.elementValue pool depth))
          (AnnotationItem.mk type elements).bytes
          ((AnnotationItem.mk type elements).record pool) :=
        decodes_annotationWith hvalid (by omega) ih
      rw [ElementValue.classes, Decoder.elementValue]
      apply (Decodes.u8 _).bind
      rw [if_neg (by decide), if_neg (by decide), if_neg (by decide), if_pos (by decide)]
      exact hitem.map _
    | array items =>
      rw [ElementValue.Valid] at hvalid
      obtain ⟨hcount, hitems⟩ := hvalid
      rw [bytes_array] at hlen ⊢
      rw [List.length_append, List.length_singleton] at hlen
      have hvalues : Decodes (Decoder.table (Decoder.elementValue pool depth))
          (Encoder.table ElementValue.bytes items) (items.map (ElementValue.classes pool)) := by
        apply Decodes.table hcount
        intro v hv
        have hle := Encoder.length_item_le_table ElementValue.bytes hv
        exact ih v (hitems v hv) (by omega)
      rw [ElementValue.classes, Decoder.elementValue, List.flatMap_def]
      apply (Decodes.u8 _).bind
      rw [if_neg (by decide), if_neg (by decide), if_neg (by decide), if_neg (by decide),
        if_pos (by decide)]
      exact hvalues.map _

theorem decodes_annotationEntry {a : AnnotationItem} (h : a.Valid pool) :
    Decodes (Decoder.annotationEntry pool) a.bytes (a.record pool) := by
  intro rest
  -- The bound on the nesting is the length of the whole input.
  have hlen : a.bytes.length ≤ (a.bytes ++ rest).length := by
    rw [List.length_append]
    omega
  exact decodes_annotationWith h hlen (decodes_elementValue _) rest

theorem decodes_annotations {items : List AnnotationItem} (hcount : items.length < 0x10000)
    (h : ∀ a ∈ items, a.Valid pool) :
    Decodes (Decoder.annotations pool) (Encoder.table AnnotationItem.bytes items)
      (items.map (AnnotationItem.record pool)) :=
  .table hcount fun a ha => decodes_annotationEntry (h a ha)

theorem decodes_parameterAnnotations {parameters : List (List AnnotationItem)}
    (hcount : parameters.length < 0x100)
    (h : ∀ items ∈ parameters, items.length < 0x10000 ∧ ∀ a ∈ items, a.Valid pool) :
    Decodes (Decoder.parameterAnnotations pool)
      ([UInt8.ofNat parameters.length] ++ parameters.flatMap (Encoder.table AnnotationItem.bytes))
      (parameters.flatten.map (AnnotationItem.record pool)) := by
  have hlen : (UInt8.ofNat parameters.length).toNat = parameters.length := by
    rw [UInt8.toNat_ofNat']
    omega
  have htimes := Decodes.times parameters fun items hitems =>
    decodes_annotations (h items hitems).1 (h items hitems).2
  rw [List.map_flatten]
  apply (Decodes.u8 _).bind
  rw [hlen]
  exact htimes.map _

theorem decodes_innerClass {i : InnerClassItem} (h : i.Valid pool) :
    Decodes (Decoder.innerClass pool) i.bytes (i.record pool) := by
  obtain ⟨hinner, houter, hname⟩ := h
  apply (Decodes.u16 i.inner).bind
  apply Decodes.lift_bind (eq_ok_found (isClass_iff.mp hinner))
  apply (decodes_optional (houter.imp_right isClass_iff.mp)).bind
  apply (decodes_optional (hname.imp_right isText_iff.mp)).bind
  exact (Decodes.u16 i.flags).map _

theorem decodes_handler {h : Handler} (hcaught : h.caught = 0 ∨ IsClass pool h.caught) :
    Decodes (Decoder.handler pool) h.bytes (foundOptional pool.className h.caught) := by
  have hrange := Decodes.run
    (Encoder.u16 h.start ++ (Encoder.u16 h.stop ++ Encoder.u16 h.target))
  exact hrange.bind (decodes_optional (hcaught.imp_right isClass_iff.mp))

theorem bytes_code (maxStack maxLocals : UInt16) (instructions : List UInt8)
    (handlers : List Handler) (attributes : List (UInt16 × Content)) :
    (Content.code maxStack maxLocals instructions handlers attributes).bytes =
      Encoder.u16 maxStack ++ (Encoder.u16 maxLocals ++
        (Encoder.u32 (UInt32.ofNat instructions.length) ++ (instructions ++
          (Encoder.table Handler.bytes handlers ++ (Attributes.mk attributes).bytes)))) := by
  rw [Content.bytes]
  rfl

theorem decodes_code {nested : Decoder (List Attribute)} {as : List Attribute}
    (maxStack maxLocals : UInt16) {instructions : List UInt8} {handlers : List Handler}
    {attributes : List (UInt16 × Content)}
    (hinstructions : instructions.length < 0x100000000 ∧
      (Bytecode.referencedClasses pool instructions).isOk)
    (hhandlers : handlers.length < 0x10000 ∧
      ∀ h ∈ handlers, h.caught = 0 ∨ IsClass pool h.caught)
    (hnested : Decodes nested (Attributes.mk attributes).bytes as) :
    Decodes (Decoder.codeWith pool nested)
      (Content.code maxStack maxLocals instructions handlers attributes).bytes
      { length := UInt32.ofNat instructions.length
        classes := found (Bytecode.referencedClasses pool instructions) ++
          handlers.filterMap fun h => foundOptional pool.className h.caught } := by
  have hlen : (UInt32.ofNat instructions.length).toNat = instructions.length := by
    rw [UInt32.toNat_ofNat']
    omega
  have htable := Decodes.table hhandlers.1 fun h hh => decodes_handler (hhandlers.2 h hh)
  have hcaught : handlers.filterMap (fun h => foundOptional pool.className h.caught) =
      (handlers.map fun h => foundOptional pool.className h.caught).filterMap id := by
    rw [List.filterMap_map]
    rfl
  rw [bytes_code, hcaught]
  apply (Decodes.u16 maxStack).bind
  apply (Decodes.u16 maxLocals).bind
  apply (Decodes.u32 _).bind
  rw [hlen]
  apply (Decodes.run instructions).bind
  apply Decodes.lift_bind (eq_ok_found hinstructions.2)
  apply htable.bind
  exact hnested.map _

theorem attributeBody_of_unknown {nested : Decoder (List Attribute)} {name : String}
    {length : UInt32} (h : name ∉ Content.knownNames) :
    Decoder.attributeBody pool nested name length = pure (.other name length) := by
  unfold Decoder.attributeBody
  split
  case h_10 => rfl
  all_goals exact absurd (by decide) h

/-- The content of an attribute, given that attributes nested in it are read back. Unknown content
is not looked at. -/
theorem decodes_attributeBody {nested : Decoder (List Attribute)} {i : UInt16} {c : Content}
    (hnamed : c.Named pool i) (hvalid : c.Valid pool)
    (hnested : ∀ as : Attributes, as.Valid pool → as.bytes.length ≤ c.bytes.length →
      Decodes nested as.bytes (as.record pool)) :
    ∃ read, read <+: c.bytes ∧ Decodes (Decoder.attributeBody pool nested (found (pool.utf8 i))
      (UInt32.ofNat c.bytes.length)) read (c.record pool i) := by
  have hname : ∀ name, c.name? = some name → found (pool.utf8 i) = name := by
    intro name h
    rcases hnamed.2 with hown | ⟨hnone, -⟩
    · exact Option.some.inj (hown.symm.trans h)
    · rw [hnone] at h
      cases h
  cases c with
  | annotations visible items =>
    rw [Content.Valid] at hvalid
    have hread := decodes_annotations hvalid.1 hvalid.2
    rw [Content.bytes]
    refine ⟨_, List.prefix_rfl, ?_⟩
    cases visible
    all_goals
      rw [hname _ rfl]
      exact hread.map _
  | parameterAnnotations visible parameters =>
    rw [Content.Valid] at hvalid
    have hread := decodes_parameterAnnotations hvalid.1 hvalid.2
    rw [Content.bytes]
    refine ⟨_, List.prefix_rfl, ?_⟩
    cases visible
    all_goals
      rw [hname _ rfl]
      exact hread.map _
  | signature text =>
    rw [Content.Valid] at hvalid
    have hread := decodes_lookup (isText_iff.mp hvalid)
    rw [Content.bytes, hname _ rfl]
    exact ⟨_, List.prefix_rfl, hread.map _⟩
  | innerClasses items =>
    rw [Content.Valid] at hvalid
    have hread := Decodes.table hvalid.1 fun i hi => decodes_innerClass (hvalid.2 i hi)
    rw [Content.bytes, hname _ rfl]
    exact ⟨_, List.prefix_rfl, hread.map _⟩
  | enclosingMethod owner method =>
    rw [Content.Valid] at hvalid
    have howner := eq_ok_found (isClass_iff.mp hvalid.1)
    have hmethod := decodes_optional (hvalid.2.imp_right isNameAndType_iff.mp)
    rw [Content.bytes, hname _ rfl]
    exact ⟨_, List.prefix_rfl, (Decodes.u16 owner).bind (.lift_bind howner (hmethod.map _))⟩
  | code maxStack maxLocals instructions handlers attributes =>
    rw [Content.Valid] at hvalid
    have hle : (Attributes.mk attributes).bytes.length ≤
        (Content.code maxStack maxLocals instructions handlers attributes).bytes.length := by
      rw [bytes_code]
      simp only [List.length_append]
      omega
    have hread := decodes_code maxStack maxLocals hvalid.1 hvalid.2.1
      (hnested ⟨attributes⟩ hvalid.2.2 hle)
    rw [hname _ rfl]
    exact ⟨_, List.prefix_rfl, hread.map _⟩
  | exceptions classes =>
    rw [Content.Valid] at hvalid
    have hread := Decodes.table hvalid.1 fun i hi =>
      decodes_lookup (isClass_iff.mp (hvalid.2 i hi))
    rw [Content.bytes, hname _ rfl]
    exact ⟨_, List.prefix_rfl, hread.map _⟩
  | other body =>
    have hunknown : found (pool.utf8 i) ∉ Content.knownNames := by
      rcases hnamed.2 with hown | ⟨-, hunknown⟩
      · cases hown
      · exact hunknown
    rw [attributeBody_of_unknown hunknown, Content.bytes]
    exact ⟨[], List.nil_prefix, .pure _⟩

theorem decodes_attribute {nested : Decoder (List Attribute)} {a : UInt16 × Content}
    (hnamed : a.2.Named pool a.1) (hlength : a.2.bytes.length < 0x100000000)
    (hvalid : a.2.Valid pool)
    (hnested : ∀ as : Attributes, as.Valid pool → as.bytes.length ≤ a.2.bytes.length →
      Decodes nested as.bytes (as.record pool)) :
    Decodes (Decoder.attributeWith pool nested) (Attributes.itemBytes a) (a.2.record pool a.1) := by
  have hlen : (UInt32.ofNat a.2.bytes.length).toNat = a.2.bytes.length := by
    rw [UInt32.toNat_ofNat']
    omega
  obtain ⟨read, hprefix, hread⟩ := decodes_attributeBody hnamed hvalid hnested
  apply (Decodes.u16 a.1).bind
  apply Decodes.lift_bind (eq_ok_found (isText_iff.mp hnamed.1))
  apply (Decodes.u32 _).bind
  rw [hlen]
  exact (Decodes.run a.2.bytes).bind_nil (hread.inside hprefix)

theorem decodes_attributesWithin (depth : Nat) : ∀ as : Attributes, as.Valid pool →
    as.bytes.length ≤ depth →
    Decodes (Decoder.attributesWithin pool depth) as.bytes (as.record pool) := by
  induction depth with
  | zero =>
    intro as _ hlen
    rw [Attributes.bytes, Encoder.length_table] at hlen
    omega
  | succ depth ih =>
    intro as hvalid hlen
    rw [Decoder.attributesWithin]
    apply Decodes.table hvalid.1
    intro a ha
    obtain ⟨hnamed, hlength, hcontent⟩ := hvalid.2 a ha
    apply decodes_attribute hnamed hlength hcontent
    -- What is nested in an attribute lies in a slice of it, so the smaller bound is enough.
    intro nested hnested hle
    have hitem := Encoder.length_item_le_table Attributes.itemBytes ha
    rw [Attributes.itemBytes, List.length_append, List.length_append, Encoder.length_u16,
      Encoder.length_u32] at hitem
    rw [Attributes.bytes] at hlen
    exact ih nested hnested (by omega)

theorem decodes_attributes {as : Attributes} (h : as.Valid pool) :
    Decodes (Decoder.attributes pool) as.bytes (as.record pool) := by
  intro rest
  have hlen : as.bytes.length ≤ (as.bytes ++ rest).length := by
    rw [List.length_append]
    omega
  exact decodes_attributesWithin _ as h hlen rest

theorem decodes_member {m : MemberItem} (h : m.Valid pool) :
    Decodes (Decoder.member pool) m.bytes (m.record pool) := by
  obtain ⟨hname, hdescriptor, hattributes⟩ := h
  apply (Decodes.u16 m.flags).bind
  apply (Decodes.u16 m.name).bind
  apply Decodes.lift_bind (eq_ok_found (isText_iff.mp hname))
  apply (Decodes.u16 m.descriptor).bind
  apply Decodes.lift_bind (eq_ok_found (isText_iff.mp hdescriptor))
  exact (decodes_attributes hattributes).map _

theorem decodes_classFile {c : Class} (h : c.Valid) :
    Decodes (Decoder.classFile c.bytes.length) c.bytes c.record := by
  have hinterfaces := Decodes.table h.interfaces.1 fun i hi =>
    decodes_lookup (isClass_iff.mp (h.interfaces.2 i hi))
  have hfields := Decodes.table h.fields.1 fun m hm => decodes_member (h.fields.2 m hm)
  have hmethods := Decodes.table h.methods.1 fun m hm => decodes_member (h.methods.2 m hm)
  apply (Decodes.u32 magicNumber).bind
  rw [if_neg (by decide)]
  apply (Decodes.u16 c.minorVersion).bind
  apply (Decodes.u16 c.majorVersion).bind
  apply (Decodes.constantPool h.constants h.width).bind
  apply (Decodes.u16 c.flags).bind
  apply (Decodes.u16 c.name).bind
  apply Decodes.lift_bind (eq_ok_found (isClass_iff.mp h.name))
  apply (decodes_optional (h.superName.imp_right isClass_iff.mp)).bind
  apply hinterfaces.bind
  apply hfields.bind
  apply hmethods.bind
  exact (decodes_attributes h.attributes).map _

/-- Decoding undoes storing: the bytes of every valid class are accepted and give the class that it
records, with every constant at its index. -/
theorem decode_stored (c : Class) (h : c.Valid) :
    decode c.bytes = .ok c.record ∧
      ∀ front k back, c.constants = front ++ k :: back →
        c.record.pool.get (UInt16.ofNat (ConstantPool.width front + 1)) = .ok k := by
  constructor
  · rw [decode, (decodes_classFile h).eq_ok]
  · intro front k back hconstants
    have hwidth := h.width
    show (ConstantPool.ofConstants c.constants).get _ = _
    rw [hconstants] at hwidth ⊢
    exact ConstantPool.get_ofConstants hwidth

/-- A class whose third constant takes two slots, with code that nests an unknown attribute and
annotations nested in an array. -/
def nestedClass : Class where
  minorVersion := 3
  majorVersion := 61
  constants := [.utf8 "a/B", .classInfo 1, .long (-7), .utf8 "a/C", .classInfo 5, .utf8 "Code",
    .utf8 "RuntimeVisibleAnnotations", .utf8 "[La/N;", .utf8 "run", .utf8 "()V",
    .utf8 "LineNumberTable", .utf8 "EnclosingMethod", .nameAndType 10 11,
    .utf8 "RuntimeInvisibleParameterAnnotations", .utf8 "Exceptions", .utf8 "µ𝄞"]
  flags := 0x21
  name := 2
  superName := 6
  interfaces := [6]
  fields := [{ flags := 2, name := 17, descriptor := 9, attributes := ⟨[]⟩ }]
  methods := [{
    flags := 1, name := 10, descriptor := 11
    attributes := ⟨[
      (7, .code 2 1 [0xbb, 0, 6, 0xb1] [⟨0, 3, 3, 2⟩, ⟨0, 3, 3, 0⟩] [(12, .other [0, 9])]),
      (15, .parameterAnnotations false [[], [⟨9, []⟩]]),
      (16, .exceptions [6, 2])]⟩ }]
  attributes := ⟨[
    (8, .annotations true [⟨9, [(10, .array [.constant 'I' 3, .classLiteral 11,
      .nested 9 [(10, .enumConstant 9 10)]])]⟩]),
    (13, .enclosingMethod 6 14)]⟩

theorem decode_stored_nested :
    nestedClass.Valid ∧ decode nestedClass.bytes = .ok nestedClass.record ∧
    nestedClass.record.fields.map (·.name) = ["µ𝄞"] ∧
    nestedClass.record.methods.map (·.attributes) =
      [[.code { length := 4, classes := ["a/C", "a/B"] },
        .annotations false [{ type := "a/N", classes := [] }],
        .exceptions ["a/C", "a/B"]]] ∧
    nestedClass.record.attributes =
      [.annotations true [{ type := "a/N", classes := ["a/N", "a/N"] }],
       .enclosingMethod "a/C" (some ("run", "()V"))] := by
  have hvalid : nestedClass.Valid := {
    constants := by decide
    width := by decide
    name := by decide
    superName := by decide +kernel
    interfaces := by decide +kernel
    fields := by decide +kernel
    methods := by decide +kernel
    attributes := by decide +kernel }
  exact ⟨hvalid, (decode_stored nestedClass hvalid).1, by decide +kernel, by decide +kernel,
    by decide +kernel⟩

end ClassDeps.ClassFile.Stored
