import ClassDeps.Proofs.ClassFile.RoundTrip
import Mathlib.Data.List.Forall2

namespace ClassDeps.ClassFile

variable {α β γ : Type} {p : Decoder α} {input rest : List UInt8}

theorem Decodes.eq_of_ok {xs : List UInt8} {a b : α} (h : Decodes p xs a)
    (hok : p (xs ++ input) = .ok (b, rest)) : b = a ∧ rest = input := by
  rw [h input] at hok
  cases hok
  exact ⟨rfl, rfl⟩

namespace Decoder

theorem bind_eq_ok {q : α → Decoder β} {b : β} : (p >>= q) input = .ok (b, rest) ↔
    ∃ a mid, p input = .ok (a, mid) ∧ q a mid = .ok (b, rest) := by
  have hrun : (p >>= q) input = (p input >>= fun s => q s.1 s.2) := rfl
  rw [hrun, bind_eq_ok_iff]
  simp only [Prod.exists]

theorem pure_eq_ok {a b : α} :
    (Pure.pure a : Decoder α) input = .ok (b, rest) ↔ b = a ∧ rest = input := by
  have hrun : (Pure.pure a : Decoder α) input = .ok (a, input) := rfl
  rw [hrun, Except.ok.injEq, Prod.mk.injEq]
  exact and_congr eq_comm eq_comm

theorem lift_eq_ok {x : Except Malformed α} {a : α} :
    (liftM x : Decoder α) input = .ok (a, rest) ↔ x = .ok a ∧ rest = input := by
  cases x with
  | error e =>
    have hrun : (liftM (Except.error e) : Decoder α) input = .error e := rfl
    simp [hrun]
  | ok b =>
    have hrun : (liftM (Except.ok b : Except Malformed α) : Decoder α) input =
      .ok (b, input) := rfl
    simp [hrun, eq_comm]

/-- A lookup takes no bytes. -/
theorem lift_bind_eq_ok {x : Except Malformed α} {q : α → Decoder β} {b : β} :
    ((liftM x : Decoder α) >>= q) input = .ok (b, rest) ↔
      ∃ a, x = .ok a ∧ q a input = .ok (b, rest) := by
  rw [bind_eq_ok]
  constructor
  · rintro ⟨a, mid, hlift, hq⟩
    obtain ⟨hx, rfl⟩ := lift_eq_ok.mp hlift
    exact ⟨a, hx, hq⟩
  · rintro ⟨a, hx, hq⟩
    exact ⟨a, input, lift_eq_ok.mpr ⟨hx, rfl⟩, hq⟩

theorem u8_eq_ok {x : UInt8} : u8 input = .ok (x, rest) ↔ input = [x] ++ rest := by
  cases input with
  | nil => simp [u8]
  | cons b input => simp [u8]

theorem u16_eq_ok {x : UInt16} : u16 input = .ok (x, rest) ↔ input = Encoder.u16 x ++ rest := by
  constructor
  · intro h
    obtain ⟨high, mid, hhigh, hmid⟩ := bind_eq_ok.mp h
    obtain ⟨low, tail, hlow, htail⟩ := bind_eq_ok.mp hmid
    obtain ⟨-, rfl⟩ := pure_eq_ok.mp htail
    -- The two bytes are those of some number, and reading that number back gives it.
    have hlen : [high, low].length = 2 := rfl
    obtain ⟨y, hy⟩ := Encoder.exists_u16_eq hlen
    obtain rfl : input = Encoder.u16 y ++ rest := by
      rw [u8_eq_ok.mp hhigh, u8_eq_ok.mp hlow, hy]
      rfl
    rw [((Decodes.u16 y).eq_of_ok h).1]
  · rintro rfl
    exact Decodes.u16 x rest

theorem u32_eq_ok {x : UInt32} : u32 input = .ok (x, rest) ↔ input = Encoder.u32 x ++ rest := by
  constructor
  · intro h
    obtain ⟨high, mid, hhigh, hmid⟩ := bind_eq_ok.mp h
    obtain ⟨low, tail, hlow, htail⟩ := bind_eq_ok.mp hmid
    obtain ⟨-, rfl⟩ := pure_eq_ok.mp htail
    have hlen : (Encoder.u16 high ++ Encoder.u16 low).length = 4 := rfl
    obtain ⟨y, hy⟩ := Encoder.exists_u32_eq hlen
    obtain rfl : input = Encoder.u32 y ++ rest := by
      rw [u16_eq_ok.mp hhigh, u16_eq_ok.mp hlow, hy, List.append_assoc]
    rw [((Decodes.u32 y).eq_of_ok h).1]
  · rintro rfl
    exact Decodes.u32 x rest

theorem run_eq_ok {n : Nat} {bytes : List UInt8} :
    run n input = .ok (bytes, rest) ↔ bytes.length = n ∧ input = bytes ++ rest := by
  constructor
  · intro h
    simp only [run, List.splitAt_eq] at h
    split at h
    · rename_i hlen
      cases h
      exact ⟨hlen, (List.take_append_drop n input).symm⟩
    · cases h
  · rintro ⟨rfl, rfl⟩
    exact Decodes.run bytes rest

theorem inside_eq_ok {slice : List UInt8} {a : α} : inside slice p input = .ok (a, rest) ↔
    (∃ left, p slice = .ok (a, left)) ∧ rest = input := by
  rw [inside]
  cases hp : p slice with
  | error e => simp
  | ok s => simp [Prod.ext_iff, eq_comm]

end Decoder

/-- Whatever `p` reads is an item, stored as `item` says, that `R` relates to the result. -/
def Accepts (p : Decoder α) (item : γ → List UInt8) (R : γ → α → Prop) : Prop :=
  ∀ input a rest, p input = .ok (a, rest) → ∃ c, R c a ∧ input = item c ++ rest

namespace Accepts

variable {item : γ → List UInt8} {R : γ → α → Prop} {valid : γ → Prop}

theorem mono {R' : γ → α → Prop} (h : Accepts p item R) (hR : ∀ c a, R c a → R' c a) :
    Accepts p item R' := by
  intro input a rest hok
  obtain ⟨c, hc, hinput⟩ := h input a rest hok
  exact ⟨c, hR c a hc, hinput⟩

theorem times (h : Accepts p item R) (n : Nat) : Accepts (Decoder.times n p)
    (fun cs : List γ => cs.flatMap item) fun cs as => cs.length = n ∧ List.Forall₂ R cs as := by
  induction n with
  | zero =>
    intro input as rest hok
    obtain ⟨rfl, rfl⟩ := Decoder.pure_eq_ok.mp hok
    exact ⟨[], ⟨rfl, .nil⟩, rfl⟩
  | succ n ih =>
    intro input as rest hok
    rw [Decoder.times, List.replicate_succ, List.mapM_cons] at hok
    obtain ⟨a, mid, ha, hok⟩ := Decoder.bind_eq_ok.mp hok
    obtain ⟨tail, last, htail, hok⟩ := Decoder.bind_eq_ok.mp hok
    obtain ⟨rfl, rfl⟩ := Decoder.pure_eq_ok.mp hok
    obtain ⟨c, hc, rfl⟩ := h input a mid ha
    obtain ⟨cs, ⟨hlen, hcs⟩, rfl⟩ := ih mid tail rest htail
    refine ⟨c :: cs, ⟨by rw [List.length_cons, hlen], .cons hc hcs⟩, ?_⟩
    simp only [List.flatMap_cons, List.append_assoc]

theorem table (h : Accepts p item R) : Accepts (Decoder.table p) (Encoder.table item)
    fun cs as => cs.length < 0x10000 ∧ List.Forall₂ R cs as := by
  intro input as rest hok
  obtain ⟨count, mid, hcount, hok⟩ := Decoder.bind_eq_ok.mp hok
  obtain ⟨cs, ⟨hlen, hcs⟩, rfl⟩ := h.times count.toNat mid as rest hok
  have hlt := count.toNat_lt
  have hstored : UInt16.ofNat cs.length = count := by rw [hlen, UInt16.ofNat_toNat]
  refine ⟨cs, ⟨by omega, hcs⟩, ?_⟩
  rw [Decoder.u16_eq_ok.mp hcount, Encoder.table, hstored, List.append_assoc]

theorem forall_valid {cs : List γ} {as : List α}
    (h : List.Forall₂ (fun c _ => valid c) cs as) : ∀ c ∈ cs, valid c := by
  induction h with
  | nil => simp
  | cons hc _ ih =>
    rw [List.forall_mem_cons]
    exact ⟨hc, ih⟩

theorem table_valid (h : Accepts p item fun c _ => valid c) :
    Accepts (Decoder.table p) (Encoder.table item)
      fun cs _ => cs.length < 0x10000 ∧ ∀ c ∈ cs, valid c :=
  h.table.mono fun _ _ hcs => ⟨hcs.1, forall_valid hcs.2⟩

/-- A result computed from what was read, and bytes left over. -/
theorem exists_front {f : α → β} {b : β} (h : Accepts p item R)
    (hok : (p >>= fun a => pure (f a)) input = .ok (b, rest)) :
    ∃ c a, R c a ∧ item c <+: input := by
  obtain ⟨a, mid, ha, -⟩ := Decoder.bind_eq_ok.mp hok
  obtain ⟨c, hc, rfl⟩ := h input a mid ha
  exact ⟨c, a, hc, List.prefix_append ..⟩

end Accepts

namespace Stored

variable {pool : ConstantPool}

theorem isOk_of_eq {x : Except Malformed α} {a : α} (h : x = .ok a) : x.isOk := by
  rw [h]
  rfl

theorem accepts_lookup (lookup : UInt16 → Except Malformed α) :
    Accepts (Decoder.u16 >>= fun i => liftM (lookup i)) Encoder.u16
      fun i a => lookup i = .ok a := by
  intro input a rest hok
  obtain ⟨i, mid, hi, hok⟩ := Decoder.bind_eq_ok.mp hok
  obtain ⟨ha, rfl⟩ := Decoder.lift_eq_ok.mp hok
  exact ⟨i, ha, Decoder.u16_eq_ok.mp hi⟩

theorem accepts_optional (lookup : UInt16 → Except Malformed α) :
    Accepts (Decoder.optional lookup) Encoder.u16
      fun i a => i = 0 ∧ a = none ∨ ∃ b, lookup i = .ok b ∧ a = some b := by
  intro input a rest hok
  obtain ⟨i, mid, hi, hok⟩ := Decoder.bind_eq_ok.mp hok
  by_cases hzero : i = 0
  · rw [if_pos hzero] at hok
    obtain ⟨rfl, rfl⟩ := Decoder.pure_eq_ok.mp hok
    exact ⟨i, .inl ⟨hzero, rfl⟩, Decoder.u16_eq_ok.mp hi⟩
  · rw [if_neg hzero] at hok
    obtain ⟨b, hb, hok⟩ := Decoder.lift_bind_eq_ok.mp hok
    obtain ⟨rfl, rfl⟩ := Decoder.pure_eq_ok.mp hok
    exact ⟨i, .inr ⟨b, hb, rfl⟩, Decoder.u16_eq_ok.mp hi⟩

theorem accepts_optional_valid (lookup : UInt16 → Except Malformed α) :
    Accepts (Decoder.optional lookup) Encoder.u16 fun i _ => i = 0 ∨ (lookup i).isOk := by
  apply (accepts_optional lookup).mono
  rintro i a (⟨hzero, -⟩ | ⟨b, hb, -⟩)
  · exact .inl hzero
  · exact .inr (isOk_of_eq hb)

theorem types_eq {i : UInt16} {text : String} {names : List String}
    (htext : pool.utf8 i = .ok text) (hnames : Descriptor.fieldTypeNames text = .ok names) :
    types pool i = .ok names :=
  bind_eq_ok_iff.mpr ⟨text, htext, hnames⟩

theorem accepts_annotationWith {value : Decoder (List String)}
    (h : Accepts value ElementValue.bytes fun v _ => v.Valid pool) :
    Accepts (Decoder.annotationWith pool value) AnnotationItem.bytes fun a _ => a.Valid pool := by
  have helement : Accepts (Decoder.u16 >>= fun _ => value)
      (fun e : UInt16 × ElementValue => Encoder.u16 e.1 ++ e.2.bytes)
      fun e _ => e.2.Valid pool := by
    intro input names rest hok
    obtain ⟨name, mid, hname, hok⟩ := Decoder.bind_eq_ok.mp hok
    obtain ⟨v, hv, rfl⟩ := h mid names rest hok
    exact ⟨(name, v), hv, by rw [Decoder.u16_eq_ok.mp hname, List.append_assoc]⟩
  intro input a rest hok
  obtain ⟨type, afterType, htype, hok⟩ := Decoder.bind_eq_ok.mp hok
  obtain ⟨text, htext, hok⟩ := Decoder.lift_bind_eq_ok.mp hok
  obtain ⟨names, hnames, hok⟩ := Decoder.lift_bind_eq_ok.mp hok
  cases names with
  | nil => cases hok
  | cons name more =>
    obtain ⟨classes, last, hclasses, hok⟩ := Decoder.bind_eq_ok.mp hok
    obtain ⟨-, rfl⟩ := Decoder.pure_eq_ok.mp hok
    obtain ⟨elements, ⟨hcount, helements⟩, rfl⟩ :=
      helement.table_valid afterType classes rest hclasses
    refine ⟨⟨type, elements⟩, AnnotationItem.valid_iff.mpr ⟨?_, hcount, helements⟩, ?_⟩
    · exact ⟨text, name, more, ConstantPool.utf8_eq_ok_iff.mp htext, hnames⟩
    · rw [Decoder.u16_eq_ok.mp htype, AnnotationItem.bytes, List.append_assoc]

theorem exists_constantTag {tag : UInt8}
    (h : "BCDFIJSZs".toList.any (·.toNat = tag.toNat)) :
    ∃ c ∈ ElementValue.constantTags, ElementValue.tagByte c = tag := by
  obtain ⟨c, hc, htag⟩ := List.any_eq_true.mp h
  refine ⟨c, hc, ?_⟩
  rw [ElementValue.tagByte, of_decide_eq_true htag, UInt8.ofNat_toNat]

theorem tagByte_eq {tag : UInt8} {c : Char} (h : tag.toNat = c.toNat) :
    ElementValue.tagByte c = tag := by
  rw [ElementValue.tagByte, ← h, UInt8.ofNat_toNat]

theorem accepts_elementValue (depth : Nat) :
    Accepts (Decoder.elementValue pool depth) ElementValue.bytes fun v _ => v.Valid pool := by
  induction depth with
  | zero =>
    intro input names rest hok
    cases hok
  | succ depth ih =>
    intro input names rest hok
    rw [Decoder.elementValue] at hok
    obtain ⟨tag, mid, htag, hok⟩ := Decoder.bind_eq_ok.mp hok
    rw [Decoder.u8_eq_ok] at htag
    split at hok
    · rename_i hconstant
      obtain ⟨value, last, hvalue, hok⟩ := Decoder.bind_eq_ok.mp hok
      obtain ⟨-, rfl⟩ := Decoder.pure_eq_ok.mp hok
      obtain ⟨c, hc, rfl⟩ := exists_constantTag hconstant
      refine ⟨.constant c value, ?_, ?_⟩
      · show ElementValue.Valid pool _
        rwa [ElementValue.Valid]
      · rw [htag, Decoder.u16_eq_ok.mp hvalue, ElementValue.bytes, List.append_assoc]
    split at hok
    · rename_i henum
      obtain ⟨type, afterType, htype, hok⟩ := Decoder.bind_eq_ok.mp hok
      obtain ⟨text, htext, hok⟩ := Decoder.lift_bind_eq_ok.mp hok
      obtain ⟨types, htypes, hok⟩ := Decoder.lift_bind_eq_ok.mp hok
      obtain ⟨name, last, hname, hok⟩ := Decoder.bind_eq_ok.mp hok
      obtain ⟨-, rfl⟩ := Decoder.pure_eq_ok.mp hok
      refine ⟨.enumConstant type name, ?_, ?_⟩
      · show ElementValue.Valid pool _
        rw [ElementValue.Valid, isDescriptor_iff]
        exact isOk_of_eq (types_eq htext htypes)
      · rw [htag, Decoder.u16_eq_ok.mp htype, Decoder.u16_eq_ok.mp hname, ElementValue.bytes,
          tagByte_eq henum, List.append_assoc, List.append_assoc]
    split at hok
    · rename_i hclass
      obtain ⟨descriptor, afterType, htype, hok⟩ := Decoder.bind_eq_ok.mp hok
      obtain ⟨text, htext, hok⟩ := Decoder.lift_bind_eq_ok.mp hok
      obtain ⟨htypes, rfl⟩ := Decoder.lift_eq_ok.mp hok
      refine ⟨.classLiteral descriptor, ?_, ?_⟩
      · show ElementValue.Valid pool _
        rw [ElementValue.Valid, isDescriptor_iff]
        exact isOk_of_eq (types_eq htext htypes)
      · rw [htag, Decoder.u16_eq_ok.mp htype, ElementValue.bytes, tagByte_eq hclass,
          List.append_assoc]
    split at hok
    · rename_i hnested
      obtain ⟨a, last, ha, hok⟩ := Decoder.bind_eq_ok.mp hok
      obtain ⟨-, rfl⟩ := Decoder.pure_eq_ok.mp hok
      obtain ⟨⟨type, elements⟩, hvalid, rfl⟩ := accepts_annotationWith ih mid a rest ha
      refine ⟨.nested type elements, hvalid, ?_⟩
      rw [htag, bytes_nested, tagByte_eq hnested, List.append_assoc]
    split at hok
    · rename_i harray
      obtain ⟨lists, last, hlists, hok⟩ := Decoder.bind_eq_ok.mp hok
      obtain ⟨-, rfl⟩ := Decoder.pure_eq_ok.mp hok
      obtain ⟨items, hvalid, rfl⟩ := ih.table_valid mid lists rest hlists
      refine ⟨.array items, ?_, ?_⟩
      · show ElementValue.Valid pool _
        rwa [ElementValue.Valid]
      · rw [htag, bytes_array, tagByte_eq harray, List.append_assoc]
    · cases hok

theorem accepts_annotations : Accepts (Decoder.annotations pool)
    (Encoder.table AnnotationItem.bytes)
    fun items _ => items.length < 0x10000 ∧ ∀ a ∈ items, a.Valid pool := by
  have hentry : Accepts (Decoder.annotationEntry pool) AnnotationItem.bytes
      fun a _ => a.Valid pool := by
    intro input a rest hok
    exact accepts_annotationWith (accepts_elementValue input.length) input a rest hok
  exact hentry.table_valid

/-- The tables of all parameters, counted in one byte. -/
theorem accepts_parameterAnnotations : Accepts (Decoder.parameterAnnotations pool)
    (fun parameters : List (List AnnotationItem) =>
      [UInt8.ofNat parameters.length] ++ parameters.flatMap (Encoder.table AnnotationItem.bytes))
    fun parameters _ => parameters.length < 0x100 ∧
      ∀ items ∈ parameters, items.length < 0x10000 ∧ ∀ a ∈ items, a.Valid pool := by
  intro input as rest hok
  obtain ⟨count, mid, hcount, hok⟩ := Decoder.bind_eq_ok.mp hok
  obtain ⟨lists, last, hlists, hok⟩ := Decoder.bind_eq_ok.mp hok
  obtain ⟨-, rfl⟩ := Decoder.pure_eq_ok.mp hok
  obtain ⟨parameters, ⟨hlen, hparameters⟩, rfl⟩ :=
    accepts_annotations.times count.toNat mid lists rest hlists
  have hlt := count.toNat_lt
  have hstored : UInt8.ofNat parameters.length = count := by rw [hlen, UInt8.ofNat_toNat]
  refine ⟨parameters, ⟨by omega, Accepts.forall_valid hparameters⟩, ?_⟩
  simp only [Decoder.u8_eq_ok.mp hcount, hstored, List.append_assoc]

theorem accepts_innerClass : Accepts (Decoder.innerClass pool) InnerClassItem.bytes
    fun c _ => c.Valid pool := by
  intro input c rest hok
  obtain ⟨inner, afterInner, hinner, hok⟩ := Decoder.bind_eq_ok.mp hok
  obtain ⟨innerName, hinnerName, hok⟩ := Decoder.lift_bind_eq_ok.mp hok
  obtain ⟨outerName, afterOuter, houter, hok⟩ := Decoder.bind_eq_ok.mp hok
  obtain ⟨simpleName, afterName, hname, hok⟩ := Decoder.bind_eq_ok.mp hok
  obtain ⟨flags, last, hflags, hok⟩ := Decoder.bind_eq_ok.mp hok
  obtain ⟨-, rfl⟩ := Decoder.pure_eq_ok.mp hok
  obtain ⟨outer, houterClass, rfl⟩ := accepts_optional_valid _ afterInner outerName _ houter
  obtain ⟨name, hnameText, rfl⟩ := accepts_optional_valid _ afterOuter simpleName _ hname
  refine ⟨⟨inner, outer, name, flags⟩, ⟨?_, ?_, ?_⟩, ?_⟩
  · exact isClass_iff.mpr (isOk_of_eq hinnerName)
  · exact houterClass.imp_right isClass_iff.mpr
  · exact hnameText.imp_right isText_iff.mpr
  · rw [Decoder.u16_eq_ok.mp hinner, Decoder.u16_eq_ok.mp hflags]
    simp only [InnerClassItem.bytes, List.append_assoc]

theorem accepts_handler : Accepts (Decoder.handler pool) Handler.bytes
    fun h _ => h.caught = 0 ∨ IsClass pool h.caught := by
  intro input name rest hok
  obtain ⟨range, mid, hrange, hname⟩ := Decoder.bind_eq_ok.mp hok
  obtain ⟨hlen, rfl⟩ := Decoder.run_eq_ok.mp hrange
  obtain ⟨caught, hcaught, rfl⟩ := accepts_optional_valid _ mid name rest hname
  -- The six bytes of the range are three numbers.
  obtain ⟨front, targets, hfront, htargets, rfl⟩ := Encoder.exists_append_eq (m := 2) (n := 4) hlen
  obtain ⟨middle, back, hmiddle, hback, rfl⟩ :=
    Encoder.exists_append_eq (m := 2) (n := 2) htargets
  obtain ⟨start, rfl⟩ := Encoder.exists_u16_eq hfront
  obtain ⟨stop, rfl⟩ := Encoder.exists_u16_eq hmiddle
  obtain ⟨target, rfl⟩ := Encoder.exists_u16_eq hback
  refine ⟨⟨start, stop, target, caught⟩, hcaught.imp_right isClass_iff.mpr, ?_⟩
  simp only [Handler.bytes, List.append_assoc]

end Stored

end ClassDeps.ClassFile
