import ClassDeps.Proofs.ClassFile.Extent
import Mathlib.Logic.Function.Iterate

namespace ClassDeps.ClassFile

variable {α β γ : Type} {p : Decoder α} {q : α → Decoder β} {m n : Nat} {pool : ConstantPool}

/-- What `p` reads is the front of its input, and at least `n` bytes. -/
def Takes (n : Nat) (p : Decoder α) : Prop :=
  ∀ ⦃input a rest⦄, p input = .ok (a, rest) → ∃ front, input = front ++ rest ∧ n ≤ front.length

theorem Accepts.takes {item : γ → List UInt8} {R : γ → α → Prop} (h : Accepts p item R)
    (hn : ∀ c, n ≤ (item c).length) : Takes n p := by
  intro input a rest hok
  obtain ⟨c, -, rfl⟩ := h input a rest hok
  exact ⟨item c, rfl, hn c⟩

theorem SelfDelimiting.takes (h : SelfDelimiting p) : Takes 0 p := by
  intro input a rest hok
  obtain ⟨front, rfl, -⟩ := h hok
  exact ⟨front, rfl, Nat.zero_le _⟩

namespace Takes

theorem length_add_le (h : Takes n p) {input rest : List UInt8} {a : α}
    (hok : p input = .ok (a, rest)) : n + rest.length ≤ input.length := by
  obtain ⟨front, rfl, hn⟩ := h hok
  rw [List.length_append]
  omega

theorem length_le (h : Takes n p) {input rest : List UInt8} {a : α}
    (hok : p input = .ok (a, rest)) : rest.length ≤ input.length := by
  have hle := h.length_add_le hok
  omega

theorem mono (h : Takes n p) (hmn : m ≤ n) : Takes m p := by
  intro input a rest hok
  obtain ⟨front, rfl, hn⟩ := h hok
  exact ⟨front, rfl, Nat.le_trans hmn hn⟩

theorem bind (hp : Takes m p) (hq : ∀ a, Takes n (q a)) : Takes (m + n) (p >>= q) := by
  intro input b rest hok
  obtain ⟨a, mid, ha, hb⟩ := Decoder.bind_eq_ok.mp hok
  obtain ⟨front, rfl, hfront⟩ := hp ha
  obtain ⟨back, rfl, hback⟩ := hq a hb
  refine ⟨front ++ back, by rw [List.append_assoc], ?_⟩
  rw [List.length_append]
  omega

theorem u16 : Takes 2 Decoder.u16 := by
  intro input x rest hok
  exact ⟨Encoder.u16 x, Decoder.u16_eq_ok.mp hok, Nat.le_refl 2⟩

theorem u32 : Takes 4 Decoder.u32 := by
  intro input x rest hok
  exact ⟨Encoder.u32 x, Decoder.u32_eq_ok.mp hok, Nat.le_refl 4⟩

open Stored

theorem elementValue (depth : Nat) : Takes 3 (Decoder.elementValue pool depth) := by
  apply (accepts_elementValue depth).takes
  intro v
  cases v <;> simp [ElementValue.bytes]

theorem annotationWith (depth : Nat) :
    Takes 4 (Decoder.annotationWith pool (Decoder.elementValue pool depth)) := by
  apply (accepts_annotationWith (accepts_elementValue depth)).takes
  intro a
  simp [AnnotationItem.bytes]
  omega

theorem annotationEntry : Takes 4 (Decoder.annotationEntry pool) := by
  intro input a rest hok
  exact annotationWith input.length hok

theorem annotations : Takes 2 (Decoder.annotations pool) := by
  apply accepts_annotations.takes
  intro items
  simp

theorem parameterAnnotations : Takes 1 (Decoder.parameterAnnotations pool) := by
  apply accepts_parameterAnnotations.takes
  intro parameters
  simp

theorem attributes : Takes 2 (Decoder.attributes pool) := by
  apply accepts_attributes.takes
  intro items
  simp [Counted.bytes]

/-- The numbers in front of the code and the count of handlers are ten bytes. -/
theorem codeWith {nested : Decoder (List Attribute)} (h : Takes n nested) :
    Takes (n + 10) (Decoder.codeWith pool nested) := by
  have hhandlers : Takes 2 (Decoder.table (Decoder.handler pool)) :=
    u16.bind fun count => (SelfDelimiting.handler.times count.toNat).takes
  have hcode := u16.bind fun _maxStack => u16.bind fun _maxLocals => u32.bind fun length =>
    (SelfDelimiting.run length.toNat).takes.bind fun code =>
    (SelfDelimiting.lift (Bytecode.referencedClasses pool code)).takes.bind fun classes =>
    hhandlers.bind fun caught => h.bind fun _attributes =>
    (SelfDelimiting.pure (⟨length, classes ++ caught.filterMap id⟩ : Code)).takes
  exact hcode.mono (by omega)

end Takes

/-- The readers that call one another. -/
structure Readers where
  elementValue : Decoder (List String)
  annotationEntry : Decoder Annotation
  annotations : Decoder (List Annotation)
  parameterAnnotations : Decoder (List Annotation)
  code : Decoder Code
  attributes : Decoder (List Attribute)

namespace Decoder

/-- An element value, given how those inside it are read. -/
def elementValueWith (pool : ConstantPool) (entry : Decoder Annotation)
    (value : Decoder (List String)) : Decoder (List String) := do
  let tag ← u8
  if "BCDFIJSZs".toList.any (·.toNat = tag.toNat) then
    let _constant ← u16
    return []
  else if tag.toNat = 'e'.toNat then
    let names ← Descriptor.fieldTypeNames (← pool.utf8 (← u16))
    let _constant ← u16
    return names
  else if tag.toNat = 'c'.toNat then
    Descriptor.fieldTypeNames (← pool.utf8 (← u16))
  else if tag.toNat = '@'.toNat then
    let nested ← entry
    return nested.type :: nested.classes
  else if tag.toNat = '['.toNat then
    return (← table value).flatten
  else throw (.elementValue tag)

theorem elementValue_succ (pool : ConstantPool) (depth : Nat) :
    elementValue pool (depth + 1) = elementValueWith pool
      (annotationWith pool (elementValue pool depth)) (elementValue pool depth) := rfl

def parameterAnnotationsWith (annotations : Decoder (List Annotation)) :
    Decoder (List Annotation) := do
  let parameters ← u8
  return (← times parameters.toNat annotations).flatten

/-- The content of an attribute. Content that no reader of the family is called for is read as ever,
and has no attributes of its own. -/
def attributeBodyFrom (pool : ConstantPool) (r : Readers) (name : String) (length : UInt32) :
    Decoder Attribute := do
  match name with
  | "RuntimeVisibleAnnotations" => return .annotations true (← r.annotations)
  | "RuntimeInvisibleAnnotations" => return .annotations false (← r.annotations)
  | "RuntimeVisibleParameterAnnotations" => return .annotations true (← r.parameterAnnotations)
  | "RuntimeInvisibleParameterAnnotations" => return .annotations false (← r.parameterAnnotations)
  | "Code" => return .code (← r.code)
  | _ => attributeBody pool (pure []) name length

/-- A name, a length and a slice of that length, given how the slice is read. -/
def attributeOf (pool : ConstantPool) (content : String → UInt32 → Decoder Attribute) :
    Decoder Attribute := do
  let name ← pool.utf8 (← u16)
  let length ← u32
  let body ← run length.toNat
  inside body (content name length)

theorem attributeWith_eq (pool : ConstantPool) (nested : Decoder (List Attribute)) :
    attributeWith pool nested = attributeOf pool (attributeBody pool nested) := rfl

end Decoder

namespace Readers

/-- One call of each reader, in which the calls to others go to `r`. -/
def above (pool : ConstantPool) (r : Readers) : Readers where
  elementValue := Decoder.elementValueWith pool r.annotationEntry r.elementValue
  annotationEntry := Decoder.annotationWith pool r.elementValue
  annotations := Decoder.table r.annotationEntry
  parameterAnnotations := Decoder.parameterAnnotationsWith r.annotations
  code := Decoder.codeWith pool r.attributes
  attributes := Decoder.table (Decoder.attributeOf pool (Decoder.attributeBodyFrom pool r))

/-- The readers as they are, each with a bound on the nesting that comes from its input. -/
def ofPool (pool : ConstantPool) : Readers where
  elementValue := fun input => Decoder.elementValue pool input.length input
  annotationEntry := Decoder.annotationEntry pool
  annotations := Decoder.annotations pool
  parameterAnnotations := Decoder.parameterAnnotations pool
  code := Decoder.codeWith pool (Decoder.attributes pool)
  attributes := Decoder.attributes pool

/-- The readers do the same on inputs of fewer than `k` bytes. -/
structure AgreeBelow (k : Nat) (r s : Readers) : Prop where
  elementValue : ∀ x : List UInt8, x.length < k → r.elementValue x = s.elementValue x
  annotationEntry : ∀ x : List UInt8, x.length < k → r.annotationEntry x = s.annotationEntry x
  annotations : ∀ x : List UInt8, x.length < k → r.annotations x = s.annotations x
  parameterAnnotations : ∀ x : List UInt8, x.length < k →
    r.parameterAnnotations x = s.parameterAnnotations x
  code : ∀ x : List UInt8, x.length < k → r.code x = s.code x
  attributes : ∀ x : List UInt8, x.length < k → r.attributes x = s.attributes x

end Readers

namespace Decoder

variable {k : Nat} {input : List UInt8} {q' : α → Decoder β}

/-- What comes after `p` has fewer bytes to read. -/
theorem bind_congr_takes (hp : Takes n p) (h : input.length ≤ k + n)
    (hq : ∀ a (rest : List UInt8), rest.length ≤ k → q a rest = q' a rest) :
    (p >>= q) input = (p >>= q') input := by
  apply bind_congr_ok rfl
  intro a rest ha
  have hle := hp.length_add_le ha
  exact hq a rest (by omega)

theorem lift_bind_congr {x : Except Malformed α}
    (hq : ∀ a, q a input = q' a input) :
    ((liftM x : Decoder α) >>= q) input = ((liftM x : Decoder α) >>= q') input := by
  apply bind_congr_ok rfl
  intro a rest ha
  obtain ⟨-, rfl⟩ := lift_eq_ok.mp ha
  exact hq a

theorem annotationWith_congr {value value' : Decoder (List String)} (ht : Takes m value)
    (hvalue : ∀ x : List UInt8, x.length < k → value x = value' x) (h : input.length ≤ k) :
    annotationWith pool value input = annotationWith pool value' input := by
  refine bind_congr_takes (k := k) Takes.u16 (by omega) fun i afterType hafter => ?_
  refine lift_bind_congr fun text => ?_
  refine lift_bind_congr fun names => ?_
  split
  · rfl
  refine bind_congr_ok (table_congr (k := k) (Takes.u16.bind fun _ => ht).length_le ?_ ?_)
    fun _ _ _ => rfl
  · intro x hx
    apply bind_congr_ok rfl
    intro name rest hname
    have hle := Takes.u16.length_add_le hname
    exact hvalue rest (by omega)
  · omega

theorem elementValueWith_congr {entry entry' : Decoder Annotation}
    {value value' : Decoder (List String)} (ht : Takes m value)
    (hentry : ∀ x : List UInt8, x.length < k → entry x = entry' x)
    (hvalue : ∀ x : List UInt8, x.length < k → value x = value' x) (h : input.length ≤ k) :
    elementValueWith pool entry value input =
      elementValueWith pool entry' value' input := by
  apply bind_congr_ok rfl
  intro tag rest htag
  have hrest := congrArg List.length (u8_eq_ok.mp htag)
  rw [List.length_append, List.length_singleton] at hrest
  split
  · rfl
  split
  · rfl
  split
  · rfl
  split
  · exact bind_congr_ok (hentry rest (by omega)) fun _ _ _ => rfl
  split
  · exact bind_congr_ok (table_congr ht.length_le hvalue (by omega)) fun _ _ _ => rfl
  · rfl

/-- A bound as large as the input is as good as any larger one. -/
theorem elementValue_congr {depth depth' : Nat} (h : input.length ≤ depth)
    (h' : input.length ≤ depth') :
    elementValue pool depth input = elementValue pool depth' input := by
  induction depth generalizing input depth' with
  | zero =>
    obtain rfl := List.length_eq_zero_iff.mp (Nat.le_zero.mp h)
    cases depth' with
    | zero => rfl
    | succ depth' => rfl
  | succ depth ih =>
    cases depth' with
    | zero =>
      obtain rfl := List.length_eq_zero_iff.mp (Nat.le_zero.mp h')
      rfl
    | succ depth' =>
      have hvalue : ∀ x : List UInt8, x.length < min depth depth' + 1 →
          elementValue pool depth x = elementValue pool depth' x := by
        intro x hx
        exact ih (by omega) (by omega)
      rw [elementValue_succ, elementValue_succ]
      refine elementValueWith_congr (.elementValue depth) ?_ hvalue (by omega)
      intro x hx
      exact annotationWith_congr (.elementValue depth) hvalue (by omega)

theorem parameterAnnotationsWith_congr {annotations annotations' : Decoder (List Annotation)}
    (ht : Takes m annotations)
    (hannotations : ∀ x : List UInt8, x.length < k → annotations x = annotations' x)
    (h : input.length ≤ k) :
    parameterAnnotationsWith annotations input = parameterAnnotationsWith annotations' input := by
  apply bind_congr_ok rfl
  intro parameters rest hparameters
  have hrest := congrArg List.length (u8_eq_ok.mp hparameters)
  rw [List.length_append, List.length_singleton] at hrest
  exact bind_congr_ok (times_congr ht.length_le hannotations _ (by omega)) fun _ _ _ => rfl

theorem attributeBodyFrom_congr {r s : Readers} (hrs : r.AgreeBelow k s) (name : String)
    (length : UInt32) (h : input.length < k) :
    attributeBodyFrom pool r name length input = attributeBodyFrom pool s name length input := by
  unfold attributeBodyFrom
  split
  · exact bind_congr_ok (hrs.annotations input h) fun _ _ _ => rfl
  · exact bind_congr_ok (hrs.annotations input h) fun _ _ _ => rfl
  · exact bind_congr_ok (hrs.parameterAnnotations input h) fun _ _ _ => rfl
  · exact bind_congr_ok (hrs.parameterAnnotations input h) fun _ _ _ => rfl
  · exact bind_congr_ok (hrs.code input h) fun _ _ _ => rfl
  · rfl

/-- The body is a slice behind six bytes. -/
theorem attributeOf_congr {r s : Readers} (hrs : r.AgreeBelow k s) (h : input.length ≤ k) :
    attributeOf pool (attributeBodyFrom pool r) input =
      attributeOf pool (attributeBodyFrom pool s) input := by
  refine bind_congr_takes (k := k - 2) Takes.u16 (by omega) fun i afterName hname => ?_
  refine lift_bind_congr fun name => ?_
  apply bind_congr_ok rfl
  intro length afterLength hlength
  apply bind_congr_ok rfl
  intro body rest hbody
  have hafter := Takes.u32.length_add_le hlength
  have hslice := congrArg List.length (run_eq_ok.mp hbody).2
  rw [List.length_append] at hslice
  simp only [inside, attributeBodyFrom_congr hrs name length (by omega : body.length < k)]

/-- Name, length and body, whatever the body is. -/
theorem attributeOf_ok {content : String → UInt32 → Decoder Attribute} {a : Attribute}
    {rest : List UInt8} (h : attributeOf pool content input = .ok (a, rest)) :
    ∃ i length body, body.length = UInt32.toNat length ∧
      input = Encoder.u16 i ++ (Encoder.u32 length ++ (body ++ rest)) := by
  obtain ⟨i, afterName, hi, h⟩ := bind_eq_ok.mp h
  obtain ⟨name, -, h⟩ := lift_bind_eq_ok.mp h
  obtain ⟨length, afterLength, hlength, h⟩ := bind_eq_ok.mp h
  obtain ⟨body, afterBody, hbody, h⟩ := bind_eq_ok.mp h
  obtain ⟨-, rfl⟩ := inside_eq_ok.mp h
  obtain ⟨hlen, rfl⟩ := run_eq_ok.mp hbody
  refine ⟨i, length, body, hlen, ?_⟩
  rw [u16_eq_ok.mp hi, u32_eq_ok.mp hlength]

theorem takes_attributeOf {content : String → UInt32 → Decoder Attribute} :
    Takes 6 (attributeOf pool content) := by
  intro input a rest hok
  obtain ⟨i, length, body, -, rfl⟩ := attributeOf_ok hok
  refine ⟨Encoder.u16 i ++ (Encoder.u32 length ++ body), by simp only [List.append_assoc], ?_⟩
  simp only [List.length_append, Encoder.length_u16, Encoder.length_u32]
  omega

theorem attributeBodyFrom_ofPool (pool : ConstantPool) (name : String) (length : UInt32) :
    attributeBodyFrom pool (.ofPool pool) name length =
      attributeBody pool (attributes pool) name length := by
  unfold attributeBodyFrom
  split
  case h_6 hcode =>
    by_cases hknown : name ∈ Stored.Content.knownNames
    · exact attributeBody_congr hknown hcode _ _ length length
    · rw [Stored.attributeBody_of_unknown hknown, Stored.attributeBody_of_unknown hknown]
  all_goals rfl

end Decoder

namespace Readers

open Decoder

/-- Each reader takes what it reads from the front of its input, and never nothing. -/
structure Progress (r : Readers) : Prop where
  elementValue : Takes 3 r.elementValue
  annotationEntry : Takes 4 r.annotationEntry
  annotations : Takes 2 r.annotations
  parameterAnnotations : Takes 1 r.parameterAnnotations
  code : Takes 12 r.code
  attributes : Takes 2 r.attributes

theorem progress_ofPool (pool : ConstantPool) : (ofPool pool).Progress where
  elementValue := fun input _ _ hok => Takes.elementValue input.length hok
  annotationEntry := .annotationEntry
  annotations := .annotations
  parameterAnnotations := .parameterAnnotations
  code := Takes.attributes.codeWith
  attributes := .attributes

theorem annotationEntry_eq {x : List UInt8} {depth : Nat} (h : x.length ≤ depth) :
    Decoder.annotationEntry pool x = annotationWith pool (Decoder.elementValue pool depth) x := by
  apply annotationWith_congr (k := x.length + 1) (.elementValue x.length)
  · intro y hy
    exact elementValue_congr (by omega) (by omega)
  · omega

theorem elementValueWith_ofPool (pool : ConstantPool) :
    elementValueWith pool (Decoder.annotationEntry pool) (ofPool pool).elementValue =
      (ofPool pool).elementValue := by
  funext input
  cases input with
  | nil => rfl
  | cons b bs =>
    change _ = Decoder.elementValue pool (bs.length + 1) (b :: bs)
    rw [elementValue_succ]
    apply elementValueWith_congr (k := bs.length + 1) (progress_ofPool pool).elementValue
    · intro x hx
      exact annotationEntry_eq (by omega)
    · intro x hx
      exact elementValue_congr (by omega) (by omega)
    · exact Nat.le_refl _

theorem annotationWith_ofPool (pool : ConstantPool) :
    annotationWith pool (ofPool pool).elementValue = Decoder.annotationEntry pool := by
  funext input
  apply annotationWith_congr (k := input.length + 1) (progress_ofPool pool).elementValue
  · intro x hx
    exact elementValue_congr (by omega) (by omega)
  · omega

theorem table_attributeOf_ofPool (pool : ConstantPool) :
    table (attributeOf pool (attributeBodyFrom pool (ofPool pool))) = Decoder.attributes pool := by
  have hcontent : attributeBodyFrom pool (ofPool pool) =
      attributeBody pool (Decoder.attributes pool) := by
    funext name length
    exact attributeBodyFrom_ofPool pool name length
  funext input
  rw [hcontent, ← attributeWith_eq]
  cases input with
  | nil => rfl
  | cons b bs =>
    change _ = attributesWithin pool (bs.length + 1) (b :: bs)
    rw [attributesWithin]
    apply table_congr (k := bs.length + 2) (SelfDelimiting.attributeWith _).length_le
    · intro x hx
      apply attributeWith_congr (k := bs.length) _ (by omega)
      intro y hy
      exact attributesWithin_congr (by omega) hy
    · rw [List.length_cons]
      omega

/-- The readers call themselves. -/
theorem above_ofPool (pool : ConstantPool) : (ofPool pool).above pool = ofPool pool := by
  rw [above, ofPool, mk.injEq]
  exact ⟨elementValueWith_ofPool pool, annotationWith_ofPool pool, rfl, rfl, rfl,
    table_attributeOf_ofPool pool⟩

/-- A call is followed by calls on shorter inputs only. -/
theorem AgreeBelow.above {k : Nat} {r : Readers} (h : (ofPool pool).AgreeBelow k r) :
    (ofPool pool).AgreeBelow (k + 1) (r.above pool) := by
  have hprogress := progress_ofPool pool
  rw [← above_ofPool]
  refine ⟨?_, ?_, ?_, ?_, ?_, ?_⟩
  · intro x hx
    exact elementValueWith_congr hprogress.elementValue h.annotationEntry h.elementValue (by omega)
  · intro x hx
    exact annotationWith_congr hprogress.elementValue h.elementValue (by omega)
  · intro x hx
    exact table_congr hprogress.annotationEntry.length_le h.annotationEntry (by omega)
  · intro x hx
    exact parameterAnnotationsWith_congr hprogress.annotations h.annotations (by omega)
  · intro x hx
    exact codeWith_congr_suffix fun left _ hleft => h.attributes left (by omega)
  · intro x hx
    apply table_congr takes_attributeOf.length_le _ (by omega : x.length ≤ k + 1)
    intro y hy
    exact attributeOf_congr h (by omega)

theorem agreeBelow_iterate (floor : Readers) (d : Nat) :
    (ofPool pool).AgreeBelow d ((above pool)^[d] floor) := by
  induction d with
  | zero =>
    exact ⟨fun _ h => (nomatch h), fun _ h => (nomatch h), fun _ h => (nomatch h),
      fun _ h => (nomatch h), fun _ h => (nomatch h), fun _ h => (nomatch h)⟩
  | succ d ih =>
    rw [Function.iterate_succ_apply']
    exact ih.above

end Readers

namespace Decoder

def memberWith (pool : ConstantPool) (attributes : Decoder (List Attribute)) :
    Decoder Member := do
  let flags ← u16
  let name ← pool.utf8 (← u16)
  let descriptor ← pool.utf8 (← u16)
  return { flags, name, descriptor, attributes := ← attributes }

/-- A class in an input of `size` bytes, given how attributes are read under a pool. -/
def classFileWith (readers : ConstantPool → Readers) (size : Nat) : Decoder ClassFile := do
  let magic ← u32
  if magic ≠ magicNumber then throw (.magic magic)
  let minorVersion ← u16
  let majorVersion ← u16
  let pool ← constantPool
  let flags ← u16
  let name ← pool.className (← u16)
  let superName ← optional pool.className
  let interfaces ← table do pool.className (← u16)
  let fields ← table (memberWith pool (readers pool).attributes)
  let methods ← table (memberWith pool (readers pool).attributes)
  let attributes ← (readers pool).attributes
  return { minorVersion, majorVersion, pool, flags, name, superName, interfaces, fields, methods,
           attributes, size }

end Decoder

/-- Decodes a class as `decode` does, given the readers of attributes. -/
def decodeWith (readers : ConstantPool → Readers) (data : List UInt8) :
    Except Malformed ClassFile :=
  match Decoder.classFileWith readers data.length data with
  | .ok (c, _) => .ok c
  | .error e => .error e

namespace Decoder

variable {k size : Nat} {input : List UInt8} {readers : ConstantPool → Readers}

theorem memberWith_congr {attributes : Decoder (List Attribute)}
    (h : ∀ x : List UInt8, x.length < k → Decoder.attributes pool x = attributes x)
    (hlen : input.length < k) : member pool input = memberWith pool attributes input := by
  refine bind_congr_takes (k := input.length) Takes.u16 (by omega) fun flags x hx => ?_
  refine bind_congr_takes (k := input.length) Takes.u16 (by omega) fun i x hx => ?_
  refine lift_bind_congr fun name => ?_
  refine bind_congr_takes (k := input.length) Takes.u16 (by omega) fun i x hx => ?_
  refine lift_bind_congr fun descriptor => ?_
  exact bind_congr_ok (h x (by omega)) fun _ _ _ => rfl

/-- No attribute comes before the magic number. -/
theorem classFileWith_congr (h : ∀ pool, (Readers.ofPool pool).AgreeBelow k (readers pool))
    (hlen : input.length ≤ k) : classFile size input = classFileWith readers size input := by
  apply bind_congr_ok rfl
  intro magic tail hmagic
  have htail := Takes.u32.length_add_le hmagic
  have hk : tail.length < k := by omega
  split
  · exact bind_congr_ok rfl fun _ _ hok => nomatch hok
  refine bind_congr_takes (k := tail.length) Takes.u16 (by omega) fun minorVersion x hx => ?_
  refine bind_congr_takes (k := tail.length) Takes.u16 (by omega) fun majorVersion x hx => ?_
  refine bind_congr_takes (k := tail.length) SelfDelimiting.constantPool.takes hx
    fun pool x hx => ?_
  refine bind_congr_takes (k := tail.length) Takes.u16 (by omega) fun flags x hx => ?_
  refine bind_congr_takes (k := tail.length) Takes.u16 (by omega) fun i x hx => ?_
  refine lift_bind_congr fun name => ?_
  refine bind_congr_takes (k := tail.length) (SelfDelimiting.optional _).takes hx
    fun superName x hx => ?_
  refine bind_congr_takes (k := tail.length) (SelfDelimiting.lookup _).table.takes hx
    fun interfaces x hx => ?_
  have hmembers : ∀ y : List UInt8, y.length < k →
      member pool y = memberWith pool (readers pool).attributes y :=
    fun y hy => memberWith_congr (h pool).attributes hy
  apply bind_congr_ok (table_congr SelfDelimiting.member.length_le hmembers (by omega))
  intro fields y hfields
  have hy := SelfDelimiting.member.table.length_le hfields
  apply bind_congr_ok (table_congr SelfDelimiting.member.length_le hmembers (by omega))
  intro methods z hmethods
  have hz := SelfDelimiting.member.table.length_le hmethods
  exact bind_congr_ok ((h pool).attributes z (by omega)) fun _ _ _ => rfl

end Decoder

theorem decodeWith_congr {readers : ConstantPool → Readers} {k : Nat} {data : List UInt8}
    (h : ∀ pool, (Readers.ofPool pool).AgreeBelow k (readers pool)) (hlen : data.length ≤ k) :
    decodeWith readers data = decode data := by
  rw [decodeWith, ← Decoder.classFileWith_congr h hlen]
  rfl

/-- Under every pool, a reader takes the bytes that it should from the front of its input: an
attribute exactly its name, its length and as many bytes as that says, and the attributes of code
are read from what is left after ten bytes or more. The readers are those that call themselves, and
they do so on shorter inputs only: with calls nested as deep as there are bytes, a class is decoded
as it is, whatever deeper calls would do. -/
theorem decodeWith_iterate_above :
    (∀ pool, (Readers.ofPool pool).Progress ∧
      (∀ nested input a rest, Decoder.attributeWith pool nested input = .ok (a, rest) →
        ∃ i length body, body.length = UInt32.toNat length ∧
          input = Encoder.u16 i ++ (Encoder.u32 length ++ (body ++ rest))) ∧
      (∀ nested nested' input,
        (∀ left, left <:+ input → left.length + 10 ≤ input.length → nested left = nested' left) →
        Decoder.codeWith pool nested input = Decoder.codeWith pool nested' input) ∧
      (Readers.ofPool pool).above pool = Readers.ofPool pool) ∧
    ∀ (floor : ConstantPool → Readers) (d : Nat) (data : List UInt8), data.length ≤ d →
      decodeWith (fun pool => (Readers.above pool)^[d] (floor pool)) data = decode data := by
  refine ⟨?_, ?_⟩
  · intro pool
    refine ⟨Readers.progress_ofPool pool, ?_, ?_, Readers.above_ofPool pool⟩
    · intro nested input a rest hok
      rw [Decoder.attributeWith_eq] at hok
      exact Decoder.attributeOf_ok hok
    · intro nested nested' input h
      exact Decoder.codeWith_congr_suffix h
  · intro floor d data hlen
    exact decodeWith_congr (fun pool => Readers.agreeBelow_iterate (floor pool) d) hlen

/-- A class with an annotation whose element is an array of one annotation, which mentions a class:
seven calls, one in the other. -/
def annotatedClass : List UInt8 :=
  [0xca, 0xfe, 0xba, 0xbe, 0, 0, 0, 52, 0, 5, 1, 0, 1, 65, 7, 0, 1, 1, 0, 25,
    82, 117, 110, 116, 105, 109, 101, 86, 105, 115, 105, 98, 108, 101,
    65, 110, 110, 111, 116, 97, 116, 105, 111, 110, 115, 1, 0, 3, 76, 66, 59,
    0, 0x21, 0, 2, 0, 0, 0, 0, 0, 0, 0, 0, 0, 1, 0, 3, 0, 0, 0, 21,
    0, 1, 0, 4, 0, 1, 0, 1, 91, 0, 1, 64, 0, 4, 0, 1, 0, 1, 99, 0, 4]

/-- Readers that refuse every call. -/
def refusing : Readers where
  elementValue := throw (.magic 0)
  annotationEntry := throw (.magic 0)
  annotations := throw (.magic 0)
  parameterAnnotations := throw (.magic 0)
  code := throw (.magic 0)
  attributes := throw (.magic 0)

def plainPool : ConstantPool where
  slots := #[some (.utf8 "A")]

theorem decodeWith_iterate_above_annotated :
    annotatedClass.length ≤ 92 ∧
    (decodeWith (fun pool => (Readers.above pool)^[92] refusing) annotatedClass).map
      (·.attributes) = .ok [.annotations true [⟨"B", ["B", "B"]⟩]] ∧
    decodeWith (fun pool => (Readers.above pool)^[6] refusing) annotatedClass =
      .error (.magic 0) ∧
    Decoder.attributeWith plainPool refusing.attributes [0, 1, 0, 0, 0, 2, 8, 9, 7] =
      .ok (.other "A" 2, [7]) ∧
    ∃ i length body, body.length = UInt32.toNat length ∧
      [0, 1, 0, 0, 0, 2, 8, 9, 7] = Encoder.u16 i ++ (Encoder.u32 length ++ (body ++ [7])) := by
  have hlen : annotatedClass.length ≤ 92 := by decide
  have hread : Decoder.attributeWith plainPool refusing.attributes [0, 1, 0, 0, 0, 2, 8, 9, 7] =
      .ok (.other "A" 2, [7]) := by
    decide +kernel
  obtain ⟨hpool, hdecode⟩ := decodeWith_iterate_above
  refine ⟨hlen, ?_, by decide +kernel, hread, (hpool plainPool).2.1 _ _ _ _ hread⟩
  rw [hdecode (fun _ => refusing) 92 annotatedClass hlen]
  decide +kernel

end ClassDeps.ClassFile
