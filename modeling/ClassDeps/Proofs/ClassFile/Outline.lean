import ClassDeps.Proofs.ClassFile.Reading

namespace ClassDeps.ClassFile

variable {α γ : Type}

/-- Items whose number fits in two bytes. -/
structure Counted (γ : Type) where
  items : List γ
  fits : items.length < 0x10000

def Counted.bytes (item : γ → List UInt8) (t : Counted γ) : List UInt8 :=
  Encoder.table item t.items

/-- An attribute by the index of its name and its body. -/
structure AttributeSlice where
  name : UInt16
  body : List UInt8
  fits : body.length < 0x100000000

def AttributeSlice.bytes (a : AttributeSlice) : List UInt8 :=
  Encoder.u16 a.name ++ (Encoder.u32 (UInt32.ofNat a.body.length) ++ a.body)

/-- A field or a method. -/
structure MemberOutline where
  flags : UInt16
  name : UInt16
  descriptor : UInt16
  attributes : Counted AttributeSlice

def MemberOutline.bytes (m : MemberOutline) : List UInt8 :=
  Encoder.u16 m.flags ++ (Encoder.u16 m.name ++ (Encoder.u16 m.descriptor ++
    m.attributes.bytes AttributeSlice.bytes))

structure Outline where
  minorVersion : UInt16
  majorVersion : UInt16
  pool : ConstantPool
  flags : UInt16
  name : UInt16
  superName : UInt16
  interfaces : Counted UInt16
  fields : Counted MemberOutline
  methods : Counted MemberOutline
  attributes : Counted AttributeSlice

namespace Outline

/-- What comes after the constant pool. -/
def bytes (o : Outline) : List UInt8 :=
  Encoder.u16 o.flags ++ (Encoder.u16 o.name ++ (Encoder.u16 o.superName ++
    (o.interfaces.bytes Encoder.u16 ++ (o.fields.bytes MemberOutline.bytes ++
      (o.methods.bytes MemberOutline.bytes ++ o.attributes.bytes AttributeSlice.bytes)))))

/-- The class with this outline is what `data` starts with. -/
def StoredIn (o : Outline) (data : List UInt8) : Prop :=
  ∃ tail rest, data = Encoder.u32 magicNumber ++ (Encoder.u16 o.minorVersion ++
      (Encoder.u16 o.majorVersion ++ tail)) ∧
    Decoder.constantPool tail = .ok (o.pool, o.bytes ++ rest)

end Outline

/-- Stored items show where they end: the same bytes in front are the same item. -/
def Delimited (item : γ → List UInt8) : Prop :=
  ∀ ⦃c d r s⦄, item c ++ r = item d ++ s → c = d ∧ r = s

namespace Delimited

variable {item : γ → List UInt8}

theorem u16 : Delimited Encoder.u16 := by
  intro x y r s h
  obtain ⟨hxy, hrest⟩ := List.append_inj h rfl
  exact ⟨Encoder.u16_injective hxy, hrest⟩

theorem u32 : Delimited Encoder.u32 := by
  intro x y r s h
  obtain ⟨hxy, hrest⟩ := List.append_inj h rfl
  exact ⟨Encoder.u32_injective hxy, hrest⟩

theorem flatMap (h : Delimited item) : ∀ {cs ds : List γ} {r s : List UInt8},
    cs.length = ds.length → cs.flatMap item ++ r = ds.flatMap item ++ s → cs = ds ∧ r = s
  | [], [], _, _, _, heq => ⟨rfl, heq⟩
  | c :: cs, d :: ds, r, s, hlen, heq => by
    rw [List.flatMap_cons, List.flatMap_cons, List.append_assoc, List.append_assoc] at heq
    obtain ⟨rfl, htail⟩ := h heq
    obtain ⟨rfl, hrest⟩ := h.flatMap (Nat.succ.inj hlen) htail
    exact ⟨rfl, hrest⟩

theorem counted (h : Delimited item) : Delimited (Counted.bytes item) := by
  rintro ⟨cs, hcs⟩ ⟨ds, hds⟩ r s heq
  simp only [Counted.bytes, Encoder.table, List.append_assoc] at heq
  obtain ⟨hcount, hitems⟩ := Delimited.u16 heq
  have hlen : cs.length = ds.length := by
    have hnat := congrArg UInt16.toNat hcount
    rw [UInt16.toNat_ofNat', UInt16.toNat_ofNat'] at hnat
    omega
  obtain ⟨rfl, hrest⟩ := h.flatMap hlen hitems
  exact ⟨rfl, hrest⟩

theorem attributeSlice : Delimited AttributeSlice.bytes := by
  rintro ⟨name, body, hbody⟩ ⟨name', body', hbody'⟩ r s heq
  simp only [AttributeSlice.bytes, List.append_assoc] at heq
  obtain ⟨rfl, hsized⟩ := Delimited.u16 heq
  obtain ⟨hcount, hbodies⟩ := Delimited.u32 hsized
  have hlen : body.length = body'.length := by
    have hnat := congrArg UInt32.toNat hcount
    rw [UInt32.toNat_ofNat', UInt32.toNat_ofNat'] at hnat
    omega
  obtain ⟨rfl, hrest⟩ := List.append_inj hbodies hlen
  exact ⟨rfl, hrest⟩

theorem memberOutline : Delimited MemberOutline.bytes := by
  rintro ⟨flags, name, descriptor, attributes⟩ ⟨flags', name', descriptor', attributes'⟩ r s heq
  simp only [MemberOutline.bytes, List.append_assoc] at heq
  obtain ⟨rfl, hnames⟩ := Delimited.u16 heq
  obtain ⟨rfl, hdescriptors⟩ := Delimited.u16 hnames
  obtain ⟨rfl, hattributes⟩ := Delimited.u16 hdescriptors
  obtain ⟨rfl, hrest⟩ := attributeSlice.counted hattributes
  exact ⟨rfl, hrest⟩

end Delimited

theorem Outline.StoredIn.unique {o o' : Outline} {data : List UInt8} (h : o.StoredIn data)
    (h' : o'.StoredIn data) : o = o' := by
  obtain ⟨tail, rest, hdata, hpool⟩ := h
  obtain ⟨tail', rest', hdata', hpool'⟩ := h'
  obtain ⟨-, heq⟩ := Delimited.u32 (hdata.symm.trans hdata')
  obtain ⟨hminor, heq⟩ := Delimited.u16 heq
  obtain ⟨hmajor, rfl⟩ := Delimited.u16 heq
  -- The pool is read by the decoder itself, so both outlines have the one it gives.
  rw [hpool, Except.ok.injEq, Prod.mk.injEq] at hpool'
  obtain ⟨hpools, heq⟩ := hpool'
  simp only [Outline.bytes, List.append_assoc] at heq
  obtain ⟨hflags, heq⟩ := Delimited.u16 heq
  obtain ⟨hname, heq⟩ := Delimited.u16 heq
  obtain ⟨hsuper, heq⟩ := Delimited.u16 heq
  obtain ⟨hinterfaces, heq⟩ := Delimited.u16.counted heq
  obtain ⟨hfields, heq⟩ := Delimited.memberOutline.counted heq
  obtain ⟨hmethods, heq⟩ := Delimited.memberOutline.counted heq
  obtain ⟨hattributes, -⟩ := Delimited.attributeSlice.counted heq
  cases o
  cases o'
  simp only [Outline.mk.injEq]
  exact ⟨hminor, hmajor, hpools, hflags, hname, hsuper, hinterfaces, hfields, hmethods,
    hattributes⟩

/-- The body is read as `read`, the attributes of code left out. -/
def AttributeSlice.Reads (pool : ConstantPool) (a : AttributeSlice) (read : Attribute) : Prop :=
  ∃ name left, pool.utf8 a.name = .ok name ∧
    Decoder.attributeBody pool (pure []) name (UInt32.ofNat a.body.length) a.body =
      .ok (read, left)

structure MemberOutline.Reads (pool : ConstantPool) (m : MemberOutline) (member : Member) :
    Prop where
  descriptor : pool.utf8 m.descriptor = .ok member.descriptor
  attributes : List.Forall₂ (AttributeSlice.Reads pool) m.attributes.items member.attributes

structure Outline.Reads (o : Outline) (c : ClassFile) : Prop where
  pool : c.pool = o.pool
  name : o.pool.className o.name = .ok c.name
  superName : o.superName = 0 ∧ c.superName = none ∨
    ∃ name, o.pool.className o.superName = .ok name ∧ c.superName = some name
  interfaces : List.Forall₂ (fun i name => o.pool.className i = .ok name) o.interfaces.items
    c.interfaces
  fields : List.Forall₂ (MemberOutline.Reads o.pool) o.fields.items c.fields
  methods : List.Forall₂ (MemberOutline.Reads o.pool) o.methods.items c.methods
  attributes : List.Forall₂ (AttributeSlice.Reads o.pool) o.attributes.items c.attributes

theorem Accepts.counted {p : Decoder α} {item : γ → List UInt8} {R : γ → α → Prop}
    (h : Accepts p item R) : Accepts (Decoder.table p) (Counted.bytes item)
      fun t as => List.Forall₂ R t.items as := by
  intro input as rest hok
  obtain ⟨cs, ⟨hlen, hcs⟩, hinput⟩ := h.table input as rest hok
  exact ⟨⟨cs, hlen⟩, hcs, hinput⟩

variable {pool : ConstantPool}

/-- The attributes of code come last in it and are dropped. -/
theorem codeWith_ok {nested : Decoder (List Attribute)} {input rest : List UInt8} {body : Code}
    (h : Decoder.codeWith pool nested input = .ok (body, rest)) :
    ∃ left, Decoder.codeWith pool (pure []) input = .ok (body, left) := by
  obtain ⟨maxStack, afterStack, hstack, h⟩ := Decoder.bind_eq_ok.mp h
  obtain ⟨maxLocals, afterLocals, hlocals, h⟩ := Decoder.bind_eq_ok.mp h
  obtain ⟨length, afterLength, hlength, h⟩ := Decoder.bind_eq_ok.mp h
  obtain ⟨code, afterCode, hcode, h⟩ := Decoder.bind_eq_ok.mp h
  obtain ⟨classes, hclasses, h⟩ := Decoder.lift_bind_eq_ok.mp h
  obtain ⟨caught, left, hcaught, h⟩ := Decoder.bind_eq_ok.mp h
  obtain ⟨attributes, last, hattributes, h⟩ := Decoder.bind_eq_ok.mp h
  obtain ⟨rfl, rfl⟩ := Decoder.pure_eq_ok.mp h
  refine ⟨left, ?_⟩
  refine Decoder.bind_eq_ok.mpr ⟨maxStack, afterStack, hstack, ?_⟩
  refine Decoder.bind_eq_ok.mpr ⟨maxLocals, afterLocals, hlocals, ?_⟩
  refine Decoder.bind_eq_ok.mpr ⟨length, afterLength, hlength, ?_⟩
  refine Decoder.bind_eq_ok.mpr ⟨code, afterCode, hcode, ?_⟩
  refine Decoder.lift_bind_eq_ok.mpr ⟨classes, hclasses, ?_⟩
  exact Decoder.bind_eq_ok.mpr ⟨caught, left, hcaught, rfl⟩

/-- Only code has attributes of its own, and only unknown content is told by its length. -/
theorem attributeBody_congr {name : String} (hname : name ∈ Stored.Content.knownNames)
    (hcode : name ≠ "Code") (nested nested' : Decoder (List Attribute)) (length length' : UInt32) :
    Decoder.attributeBody pool nested name length =
      Decoder.attributeBody pool nested' name length' := by
  simp only [Stored.Content.knownNames, List.mem_cons, List.not_mem_nil, or_false] at hname
  rcases hname with rfl | rfl | rfl | rfl | rfl | rfl | rfl | rfl | rfl
  case inr.inr.inr.inr.inr.inr.inr.inl => exact absurd rfl hcode
  all_goals rfl

theorem attributeBody_ok {nested : Decoder (List Attribute)} {name : String} {length : UInt32}
    {input rest : List UInt8} {read : Attribute}
    (h : Decoder.attributeBody pool nested name length input = .ok (read, rest)) :
    ∃ left, Decoder.attributeBody pool (pure []) name length input = .ok (read, left) := by
  by_cases hname : name ∈ Stored.Content.knownNames
  · by_cases hcode : name = "Code"
    · subst hcode
      obtain ⟨body, last, hbody, h⟩ := Decoder.bind_eq_ok.mp h
      obtain ⟨rfl, rfl⟩ := Decoder.pure_eq_ok.mp h
      obtain ⟨left, hleft⟩ := codeWith_ok hbody
      exact ⟨left, Decoder.bind_eq_ok.mpr ⟨body, left, hleft, rfl⟩⟩
    · rw [attributeBody_congr hname hcode nested (pure []) length length] at h
      exact ⟨rest, h⟩
  · rw [Stored.attributeBody_of_unknown hname] at h ⊢
    exact ⟨rest, h⟩

theorem accepts_attributeWith (nested : Decoder (List Attribute)) :
    Accepts (Decoder.attributeWith pool nested) AttributeSlice.bytes
      (AttributeSlice.Reads pool) := by
  intro input read rest hok
  obtain ⟨name, afterName, hname, hok⟩ := Decoder.bind_eq_ok.mp hok
  obtain ⟨text, htext, hok⟩ := Decoder.lift_bind_eq_ok.mp hok
  obtain ⟨length, afterLength, hlength, hok⟩ := Decoder.bind_eq_ok.mp hok
  obtain ⟨body, last, hbody, hok⟩ := Decoder.bind_eq_ok.mp hok
  obtain ⟨⟨left, hread⟩, rfl⟩ := Decoder.inside_eq_ok.mp hok
  obtain ⟨hlen, rfl⟩ := Decoder.run_eq_ok.mp hbody
  have hlt := length.toNat_lt
  have hstored : UInt32.ofNat body.length = length := by rw [hlen, UInt32.ofNat_toNat]
  obtain ⟨left', hread'⟩ := attributeBody_ok hread
  rw [← hstored] at hread'
  refine ⟨⟨name, body, by omega⟩, ⟨text, left', htext, hread'⟩, ?_⟩
  rw [Decoder.u16_eq_ok.mp hname, Decoder.u32_eq_ok.mp hlength]
  simp only [AttributeSlice.bytes, hstored, List.append_assoc]

theorem accepts_attributes : Accepts (Decoder.attributes pool)
    (Counted.bytes AttributeSlice.bytes)
    fun t as => List.Forall₂ (AttributeSlice.Reads pool) t.items as := by
  intro input as rest hok
  have hwithin : Decoder.attributesWithin pool input.length input = .ok (as, rest) := hok
  -- The bound on the nesting is the length of the input, which the empty input does not reach.
  cases hlen : input.length with
  | zero =>
    rw [hlen] at hwithin
    cases hwithin
  | succ depth =>
    rw [hlen] at hwithin
    exact (accepts_attributeWith _).counted input as rest hwithin

theorem accepts_member : Accepts (Decoder.member pool) MemberOutline.bytes
    (MemberOutline.Reads pool) := by
  intro input member rest hok
  obtain ⟨flags, afterFlags, hflags, hok⟩ := Decoder.bind_eq_ok.mp hok
  obtain ⟨name, afterName, hname, hok⟩ := Decoder.bind_eq_ok.mp hok
  obtain ⟨nameText, -, hok⟩ := Decoder.lift_bind_eq_ok.mp hok
  obtain ⟨descriptor, afterDescriptor, hdescriptor, hok⟩ := Decoder.bind_eq_ok.mp hok
  obtain ⟨text, htext, hok⟩ := Decoder.lift_bind_eq_ok.mp hok
  obtain ⟨as, last, has, hok⟩ := Decoder.bind_eq_ok.mp hok
  obtain ⟨rfl, rfl⟩ := Decoder.pure_eq_ok.mp hok
  obtain ⟨attributes, hattributes, rfl⟩ := accepts_attributes afterDescriptor as rest has
  refine ⟨⟨flags, name, descriptor, attributes⟩, ⟨htext, hattributes⟩, ?_⟩
  rw [Decoder.u16_eq_ok.mp hflags, Decoder.u16_eq_ok.mp hname, Decoder.u16_eq_ok.mp hdescriptor]
  simp only [MemberOutline.bytes, List.append_assoc]

theorem decode_eq_ok_iff {data : List UInt8} {c : ClassFile} :
    decode data = .ok c ↔ ∃ rest, Decoder.classFile data.length data = .ok (c, rest) := by
  unfold decode
  split
  case h_1 c' rest hok =>
    rw [hok]
    simp [eq_comm]
  case h_2 e herror =>
    rw [herror]
    simp

theorem exists_outline_of_decode {data : List UInt8} {c : ClassFile} (h : decode data = .ok c) :
    ∃ o : Outline, o.StoredIn data ∧ o.Reads c := by
  obtain ⟨rest, hok⟩ := decode_eq_ok_iff.mp h
  obtain ⟨magic, afterMagic, hmagic, hok⟩ := Decoder.bind_eq_ok.mp hok
  split at hok
  · cases hok
  rename_i hne
  obtain rfl : magic = magicNumber := not_not.mp hne
  obtain ⟨minor, afterMinor, hminor, hok⟩ := Decoder.bind_eq_ok.mp hok
  obtain ⟨major, afterMajor, hmajor, hok⟩ := Decoder.bind_eq_ok.mp hok
  obtain ⟨pool, afterPool, hpool, hok⟩ := Decoder.bind_eq_ok.mp hok
  obtain ⟨flags, afterFlags, hflags, hok⟩ := Decoder.bind_eq_ok.mp hok
  obtain ⟨name, afterName, hname, hok⟩ := Decoder.bind_eq_ok.mp hok
  obtain ⟨nameText, hnameText, hok⟩ := Decoder.lift_bind_eq_ok.mp hok
  obtain ⟨superName, afterSuper, hsuper, hok⟩ := Decoder.bind_eq_ok.mp hok
  obtain ⟨interfaceNames, afterInterfaces, hinterfaces, hok⟩ := Decoder.bind_eq_ok.mp hok
  obtain ⟨fieldItems, afterFields, hfields, hok⟩ := Decoder.bind_eq_ok.mp hok
  obtain ⟨methodItems, afterMethods, hmethods, hok⟩ := Decoder.bind_eq_ok.mp hok
  obtain ⟨attributeItems, last, hattributes, hok⟩ := Decoder.bind_eq_ok.mp hok
  obtain ⟨rfl, rfl⟩ := Decoder.pure_eq_ok.mp hok
  obtain ⟨superIndex, hsuperRead, rfl⟩ := Stored.accepts_optional _ _ _ _ hsuper
  obtain ⟨interfaces, hinterfacesRead, rfl⟩ :=
    (Stored.accepts_lookup _).counted _ _ _ hinterfaces
  obtain ⟨fields, hfieldsRead, rfl⟩ := accepts_member.counted _ _ _ hfields
  obtain ⟨methods, hmethodsRead, rfl⟩ := accepts_member.counted _ _ _ hmethods
  obtain ⟨attributes, hattributesRead, rfl⟩ := accepts_attributes _ _ _ hattributes
  refine ⟨⟨minor, major, pool, flags, name, superIndex, interfaces, fields, methods, attributes⟩,
    ⟨afterMajor, rest, ?_, ?_⟩, ?_⟩
  · rw [Decoder.u32_eq_ok.mp hmagic, Decoder.u16_eq_ok.mp hminor, Decoder.u16_eq_ok.mp hmajor]
  · rw [hpool, Decoder.u16_eq_ok.mp hflags, Decoder.u16_eq_ok.mp hname]
    simp only [Outline.bytes, List.append_assoc]
  · exact ⟨rfl, hnameText, hsuperRead, hinterfacesRead, hfieldsRead, hmethodsRead,
      hattributesRead⟩

end ClassDeps.ClassFile
