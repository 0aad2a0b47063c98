import ClassDeps.Proofs.ClassFile.Outline

namespace ClassDeps.ClassFile

variable {α β : Type} {p p' : Decoder α} {q q' : α → Decoder β} {input : List UInt8}

/-- `p` finds that the input is cut off. -/
def RunsOut (p : Decoder α) (input : List UInt8) : Prop :=
  ∃ cut, p input = .error (.truncated cut)

theorem RunsOut.bind (h : RunsOut p input) : RunsOut (p >>= q) input := by
  obtain ⟨cut, hcut⟩ := h
  refine ⟨cut, ?_⟩
  show (p input >>= fun s => q s.1 s.2) = _
  rw [hcut]
  rfl

theorem RunsOut.of_bind {a : α} {rest : List UInt8} (hp : p input = .ok (a, rest))
    (hq : RunsOut (q a) rest) : RunsOut (p >>= q) input := by
  obtain ⟨cut, hcut⟩ := hq
  refine ⟨cut, ?_⟩
  show (p input >>= fun s => q s.1 s.2) = _
  rw [hp]
  exact hcut

/-- What `p` reads is the front of its input, whatever follows, and of a shorter input `p` runs
out. -/
def SelfDelimiting (p : Decoder α) : Prop :=
  ∀ ⦃input a rest⦄, p input = .ok (a, rest) →
    ∃ front, input = front ++ rest ∧ Decodes p front a ∧
      ∀ part, part <+: front → part ≠ front → RunsOut p part

namespace SelfDelimiting

theorem length_le (h : SelfDelimiting p) {a : α} {rest : List UInt8}
    (hok : p input = .ok (a, rest)) : rest.length ≤ input.length := by
  obtain ⟨front, rfl, -⟩ := h hok
  rw [List.length_append]
  omega

/-- A decoder that takes no bytes. -/
theorem of_idle (h : ∀ input a rest, p input = .ok (a, rest) → rest = input ∧ Decodes p [] a) :
    SelfDelimiting p := by
  intro input a rest hok
  obtain ⟨rfl, hread⟩ := h input a rest hok
  refine ⟨[], rfl, hread, ?_⟩
  intro part hpart hne
  exact absurd (List.prefix_nil.mp hpart) hne

theorem pure (a : α) : SelfDelimiting (Pure.pure a) := by
  apply of_idle
  intro input b rest hok
  obtain ⟨rfl, rfl⟩ := Decoder.pure_eq_ok.mp hok
  exact ⟨rfl, .pure b⟩

theorem lift (x : Except Malformed α) : SelfDelimiting (liftM x : Decoder α) := by
  apply of_idle
  intro input a rest hok
  obtain ⟨hx, rfl⟩ := Decoder.lift_eq_ok.mp hok
  exact ⟨rfl, .lift hx⟩

theorem throw (e : Malformed) : SelfDelimiting (MonadExcept.throw e : Decoder α) := by
  intro input a rest hok
  cases hok

theorem inside (slice : List UInt8) (p : Decoder α) :
    SelfDelimiting (Decoder.inside slice p) := by
  apply of_idle
  intro input a rest hok
  obtain ⟨hslice, rfl⟩ := Decoder.inside_eq_ok.mp hok
  exact ⟨rfl, fun more => Decoder.inside_eq_ok.mpr ⟨hslice, rfl⟩⟩

theorem bind (hp : SelfDelimiting p) (hq : ∀ a, SelfDelimiting (q a)) :
    SelfDelimiting (p >>= q) := by
  intro input b rest hok
  obtain ⟨a, mid, ha, hb⟩ := Decoder.bind_eq_ok.mp hok
  obtain ⟨front, rfl, hread, hshort⟩ := hp ha
  obtain ⟨back, rfl, hreadBack, hshortBack⟩ := hq a hb
  refine ⟨front ++ back, (List.append_assoc ..).symm, hread.bind hreadBack, ?_⟩
  intro part hpart hne
  -- The input stops either inside what `p` takes, or after it.
  by_cases hfront : front <+: part
  · obtain ⟨tail, rfl⟩ := hfront
    apply RunsOut.of_bind (hread tail)
    apply hshortBack tail ((List.prefix_append_right_inj front).mp hpart)
    rintro rfl
    exact hne rfl
  · have hinside : part <+: front :=
      (List.prefix_or_prefix_of_prefix hpart (List.prefix_append front back)).resolve_right hfront
    apply RunsOut.bind
    apply hshort part hinside
    rintro rfl
    exact hfront List.prefix_rfl

theorem map (f : α → β) (hp : SelfDelimiting p) :
    SelfDelimiting (p >>= fun a => Pure.pure (f a)) :=
  hp.bind fun a => .pure (f a)

theorem u8 : SelfDelimiting Decoder.u8 := by
  intro input x rest hok
  refine ⟨[x], Decoder.u8_eq_ok.mp hok, .u8 x, ?_⟩
  intro part hpart hne
  cases part with
  | nil => exact ⟨.number, rfl⟩
  | cons y part =>
    obtain ⟨rfl, hnil⟩ := List.cons_prefix_cons.mp hpart
    rw [List.prefix_nil.mp hnil] at hne
    exact absurd rfl hne

theorem u16 : SelfDelimiting Decoder.u16 :=
  u8.bind fun _ => u8.map _

theorem u32 : SelfDelimiting Decoder.u32 :=
  u16.bind fun _ => u16.map _

theorem u64 : SelfDelimiting Decoder.u64 :=
  u32.bind fun _ => u32.map _

theorem run (n : Nat) : SelfDelimiting (Decoder.run n) := by
  intro input bytes rest hok
  obtain ⟨rfl, rfl⟩ := Decoder.run_eq_ok.mp hok
  refine ⟨bytes, rfl, .run bytes, ?_⟩
  intro part hpart hne
  have hshort : part.length < bytes.length := by
    apply Nat.lt_of_le_of_ne hpart.length_le
    intro hlen
    exact hne (hpart.eq_of_length hlen)
  refine ⟨.run, ?_⟩
  rw [Decoder.run, List.splitAt_eq]
  exact if_neg (by rw [List.length_take]; omega)

theorem times (hp : SelfDelimiting p) (n : Nat) : SelfDelimiting (Decoder.times n p) := by
  induction n with
  | zero => exact .pure []
  | succ n ih =>
    rw [Decoder.times, List.replicate_succ, List.mapM_cons]
    exact hp.bind fun a => ih.map (a :: ·)

theorem table (hp : SelfDelimiting p) : SelfDelimiting (Decoder.table p) :=
  u16.bind fun count => hp.times count.toNat

theorem lookup (find : UInt16 → Except Malformed α) :
    SelfDelimiting (Decoder.u16 >>= fun i => liftM (find i)) :=
  u16.bind fun i => .lift (find i)

theorem optional (find : UInt16 → Except Malformed α) :
    SelfDelimiting (Decoder.optional find) := by
  apply u16.bind
  intro i
  split
  · exact .pure none
  · exact (lift (find i)).map some

theorem text : SelfDelimiting Decoder.text := by
  apply u16.bind
  intro length
  exact (run length.toNat).bind fun bytes => .lift (textOfBytes bytes)

theorem constant : SelfDelimiting Decoder.constant := by
  apply u8.bind
  intro tag
  split
  case h_1 => exact text.map _
  case h_2 => exact u32.map _
  case h_3 => exact u32.map _
  case h_4 => exact u64.map _
  case h_5 => exact u64.map _
  case h_6 => exact u16.map _
  case h_7 => exact u16.map _
  case h_8 => exact u16.bind fun _ => u16.map _
  case h_9 => exact u16.bind fun _ => u16.map _
  case h_10 => exact u16.bind fun _ => u16.map _
  case h_11 => exact u16.bind fun _ => u16.map _
  case h_12 => exact u8.bind fun _ => u16.map _
  case h_13 => exact u16.map _
  case h_14 => exact u16.bind fun _ => u16.map _
  case h_15 => exact u16.bind fun _ => u16.map _
  case h_16 => exact u16.map _
  case h_17 => exact u16.map _
  case h_18 => exact .throw _

theorem slots (n : Nat) (read : Array (Option Constant)) :
    SelfDelimiting (Decoder.slots n read) := by
  fun_induction Decoder.slots n read with
  | case1 read => exact .pure read
  | case2 n read ihTwo ihOne =>
    apply constant.bind
    intro c
    split
    · exact ihTwo c
    · exact ihOne c

theorem constantPool : SelfDelimiting Decoder.constantPool := by
  rw [Decoder.constantPool_eq]
  exact u16.bind fun count => (slots (count.toNat - 1) #[]).map _

variable {pool : ConstantPool}

theorem handler : SelfDelimiting (Decoder.handler pool) :=
  (run 6).bind fun _ => optional pool.className

/-- The body is cut out before it is read, so it does not matter how. -/
theorem attributeWith (nested : Decoder (List Attribute)) :
    SelfDelimiting (Decoder.attributeWith pool nested) := by
  apply u16.bind
  intro i
  apply (lift (pool.utf8 i)).bind
  intro name
  apply u32.bind
  intro length
  apply (run length.toNat).bind
  intro body
  exact .inside body _

theorem attributesWithin (depth : Nat) :
    SelfDelimiting (Decoder.attributesWithin pool depth) := by
  cases depth with
  | zero => exact .throw _
  | succ depth => exact (attributeWith _).table

end SelfDelimiting

namespace Decoder

variable {pool : ConstantPool}

theorem bind_congr_ok (hp : p input = p' input)
    (hq : ∀ a rest, p input = .ok (a, rest) → q a rest = q' a rest) :
    (p >>= q) input = (p' >>= q') input := by
  show (p input >>= fun s => q s.1 s.2) = (p' input >>= fun s => q' s.1 s.2)
  rw [← hp]
  cases hread : p input with
  | error e => rfl
  | ok s => exact hq s.1 s.2 hread

theorem times_congr {k : Nat} (h : ∀ {x a rest}, p x = .ok (a, rest) → rest.length ≤ x.length)
    (hp : ∀ x : List UInt8, x.length < k → p x = p' x) (n : Nat) {input : List UInt8}
    (hlen : input.length < k) : times n p input = times n p' input := by
  induction n generalizing input with
  | zero => rfl
  | succ n ih =>
    rw [times, times, List.replicate_succ, List.mapM_cons, List.mapM_cons]
    apply bind_congr_ok (hp input hlen)
    intro a rest ha
    have hrest := h ha
    exact bind_congr_ok (ih (by omega)) fun _ _ _ => rfl

/-- The entries of a table come after its count. -/
theorem table_congr {k : Nat} (h : ∀ {x a rest}, p x = .ok (a, rest) → rest.length ≤ x.length)
    (hp : ∀ x : List UInt8, x.length < k → p x = p' x) {input : List UInt8}
    (hlen : input.length ≤ k + 1) : table p input = table p' input := by
  apply bind_congr_ok rfl
  intro count rest hcount
  have hrest := congrArg List.length (u16_eq_ok.mp hcount)
  rw [List.length_append, Encoder.length_u16] at hrest
  exact times_congr h hp count.toNat (by omega)

variable {nested nested' : Decoder (List Attribute)} {k : Nat}

/-- The attributes of code lie behind the rest of it, which is at least ten bytes. -/
theorem codeWith_congr_suffix {input : List UInt8}
    (h : ∀ left, left <:+ input → left.length + 10 ≤ input.length → nested left = nested' left) :
    codeWith pool nested input = codeWith pool nested' input := by
  apply bind_congr_ok rfl
  intro maxStack afterStack hstack
  apply bind_congr_ok rfl
  intro maxLocals afterLocals hlocals
  apply bind_congr_ok rfl
  intro length afterLength hlength
  apply bind_congr_ok rfl
  intro code afterCode hcode
  apply bind_congr_ok rfl
  intro classes same hclasses
  apply bind_congr_ok rfl
  intro caught left hcaught
  obtain ⟨count, afterCount, hcount, htimes⟩ := bind_eq_ok.mp hcaught
  obtain ⟨handlers, rfl, -⟩ := SelfDelimiting.handler.times _ htimes
  obtain ⟨-, rfl⟩ := lift_eq_ok.mp hclasses
  obtain ⟨-, rfl⟩ := run_eq_ok.mp hcode
  rw [u16_eq_ok] at hstack hlocals hcount
  rw [u32_eq_ok] at hlength
  subst hcount hlength hlocals hstack
  refine bind_congr_ok (h left ?_ ?_) fun _ _ _ => rfl
  · simp only [← List.append_assoc]
    exact List.suffix_append ..
  · simp only [List.length_append, Encoder.length_u16, Encoder.length_u32]
    omega

theorem codeWith_congr (h : ∀ x : List UInt8, x.length ≤ k → nested x = nested' x)
    {input : List UInt8} (hlen : input.length ≤ k) :
    codeWith pool nested input = codeWith pool nested' input :=
  codeWith_congr_suffix fun left _ hleft => h left (by omega)

theorem attributeBody_congr_ok (h : ∀ x : List UInt8, x.length ≤ k → nested x = nested' x)
    (name : String) (length : UInt32) {body : List UInt8} (hlen : body.length ≤ k) :
    attributeBody pool nested name length body = attributeBody pool nested' name length body := by
  by_cases hknown : name ∈ Stored.Content.knownNames
  · by_cases hcode : name = "Code"
    · subst hcode
      exact bind_congr_ok (codeWith_congr h hlen) fun _ _ _ => rfl
    · rw [attributeBody_congr hknown hcode nested nested' length length]
  · rw [Stored.attributeBody_of_unknown hknown, Stored.attributeBody_of_unknown hknown]

/-- The name and the length of an attribute stand before its body. -/
theorem attributeWith_congr (h : ∀ x : List UInt8, x.length ≤ k → nested x = nested' x)
    {input : List UInt8} (hlen : input.length ≤ k + 1) :
    attributeWith pool nested input = attributeWith pool nested' input := by
  apply bind_congr_ok rfl
  intro i afterName hi
  apply bind_congr_ok rfl
  intro name same hname
  apply bind_congr_ok rfl
  intro length afterLength hlength
  apply bind_congr_ok rfl
  intro body rest hbody
  have hshort : body.length ≤ k := by
    have hinput := congrArg List.length (u16_eq_ok.mp hi)
    have hsame := congrArg List.length (lift_eq_ok.mp hname).2
    have hafter := congrArg List.length (u32_eq_ok.mp hlength)
    have hslice := congrArg List.length (run_eq_ok.mp hbody).2
    simp only [List.length_append, Encoder.length_u16, Encoder.length_u32] at hinput hafter hslice
    omega
  simp only [inside, attributeBody_congr_ok h name length hshort]

/-- A bound as large as the input is as good as any larger one. -/
theorem attributesWithin_congr {input : List UInt8} {depth depth' : Nat}
    (h : input.length ≤ depth) (h' : input.length ≤ depth') :
    attributesWithin pool depth input = attributesWithin pool depth' input := by
  induction depth generalizing input depth' with
  | zero =>
    obtain rfl := List.length_eq_zero_iff.mp (Nat.le_zero.mp h)
    cases depth' with
    | zero => rfl
    | succ depth' => rfl
  | succ depth ih =>
    cases depth' with
    | zero =>
      obtain rfl := List.length_eq_zero_iff.mp (Nat.le_zero.mp h')
      rfl
    | succ depth' =>
      have hnested : ∀ x : List UInt8, x.length ≤ min depth depth' →
          attributesWithin pool depth x = attributesWithin pool depth' x := by
        intro x hx
        exact ih (by omega) (by omega)
      apply table_congr (k := min depth depth' + 2) (SelfDelimiting.attributeWith _).length_le
      · intro x hx
        exact attributeWith_congr hnested (by omega)
      · omega

end Decoder

namespace SelfDelimiting

variable {pool : ConstantPool}

theorem attributes : SelfDelimiting (Decoder.attributes pool) := by
  intro input as rest hok
  have hwithin : Decoder.attributesWithin pool input.length input = .ok (as, rest) := hok
  obtain ⟨front, rfl, -, hshort⟩ := attributesWithin _ hwithin
  refine ⟨front, rfl, ?_, ?_⟩
  · intro more
    -- One bound that is large enough for both inputs.
    have hboth : Decoder.attributesWithin pool ((front ++ rest).length + (front ++ more).length)
        (front ++ rest) = .ok (as, rest) := by
      rw [← hwithin]
      exact Decoder.attributesWithin_congr (by omega) (Nat.le_refl _)
    obtain ⟨front', hsame, hread, -⟩ := attributesWithin _ hboth
    obtain rfl := List.append_cancel_right hsame
    rw [← hread more]
    exact Decoder.attributesWithin_congr (Nat.le_refl _) (by omega)
  · intro part hpart hne
    obtain ⟨cut, hcut⟩ := hshort part hpart hne
    refine ⟨cut, ?_⟩
    have hle := hpart.length_le
    rw [← hcut]
    exact Decoder.attributesWithin_congr (Nat.le_refl _) (by rw [List.length_append]; omega)

theorem member : SelfDelimiting (Decoder.member pool) := by
  apply u16.bind
  intro flags
  apply u16.bind
  intro name
  apply (lift (pool.utf8 name)).bind
  intro nameText
  apply u16.bind
  intro descriptor
  apply (lift (pool.utf8 descriptor)).bind
  intro descriptorText
  exact attributes.map _

theorem classFile (size : Nat) : SelfDelimiting (Decoder.classFile size) := by
  apply u32.bind
  intro magic
  split
  · exact .throw _
  apply u16.bind
  intro minorVersion
  apply u16.bind
  intro majorVersion
  apply constantPool.bind
  intro pool
  apply u16.bind
  intro flags
  apply u16.bind
  intro name
  apply (lift (pool.className name)).bind
  intro nameText
  apply (optional pool.className).bind
  intro superName
  apply (lookup pool.className).table.bind
  intro interfaces
  apply member.table.bind
  intro fields
  apply member.table.bind
  intro methods
  exact attributes.map _

end SelfDelimiting

/-- The size is all that a class has from the length of its input. -/
theorem Decoder.classFile_size (size other : Nat) : Decoder.classFile size =
    Decoder.classFile other >>= fun c => pure { c with size } := by
  rw [Decoder.classFile, Decoder.classFile, bind_assoc]
  refine bind_congr fun magic => ?_
  split
  · rfl
  · simp only [bind_assoc, pure_bind]

/-- A class that is decoded ends at a length: up to there it is read with any bytes after it and but
for the size always the same, and every input that stops before is truncated. -/
theorem decode_extent {data : List UInt8} {c : ClassFile} (h : decode data = .ok c) :
    ∃ k ≤ data.length,
      (∀ tail, decode (data.take k ++ tail) = .ok { c with size := k + tail.length }) ∧
      ∀ j < k, ∃ cut, decode (data.take j) = .error (.truncated cut) := by
  obtain ⟨rest, hok⟩ := decode_eq_ok_iff.mp h
  obtain ⟨front, hdata, hread, hshort⟩ := SelfDelimiting.classFile data.length hok
  have htake : data.take front.length = front := by rw [hdata, List.take_left]
  refine ⟨front.length, by rw [hdata, List.length_append]; omega, ?_, ?_⟩
  · intro tail
    rw [htake, decode_eq_ok_iff, Decoder.classFile_size _ data.length, List.length_append]
    exact ⟨tail, hread.map _ tail⟩
  · intro j hj
    have hpart : data.take j <+: front := by
      rw [← htake]
      exact List.take_prefix_take_left (by omega)
    have hne : data.take j ≠ front := by
      intro heq
      have hlen := congrArg List.length heq
      rw [List.length_take] at hlen
      omega
    have hcut : RunsOut (Decoder.classFile (data.take j).length) (data.take j) := by
      rw [Decoder.classFile_size _ data.length]
      exact (hshort _ hpart hne).bind
    obtain ⟨cut, hcut⟩ := hcut
    exact ⟨cut, by rw [decode, hcut]⟩

/-- A class with one method, whose code leaves a byte of its attribute unread, and two bytes after
the class. -/
def trailingClass : List UInt8 :=
  [0xca, 0xfe, 0xba, 0xbe, 0, 0, 0, 52, 0, 5, 1, 0, 1, 65, 7, 0, 1, 1, 0, 4, 67, 111, 100, 101,
    1, 0, 3, 40, 41, 86, 0, 0x21, 0, 2, 0, 0, 0, 0, 0, 0, 0, 1, 0, 1, 0, 1, 0, 4, 0, 1,
    0, 3, 0, 0, 0, 14, 0, 1, 0, 1, 0, 0, 0, 1, 0xb1, 0, 0, 0, 0, 0xff, 0, 0, 7, 7]

theorem decode_extent_trailing : ∃ c, decode trailingClass = .ok c ∧
    c.methods = [⟨1, "A", "()V", [.code ⟨1, []⟩]⟩] ∧
    ∃ k ≤ trailingClass.length,
      (∀ tail, decode (trailingClass.take k ++ tail) = .ok { c with size := k + tail.length }) ∧
      ∀ j < k, ∃ cut, decode (trailingClass.take j) = .error (.truncated cut) := by
  have hok : (decode trailingClass).map (·.methods) =
      .ok [⟨1, "A", "()V", [.code ⟨1, []⟩]⟩] := by
    decide +kernel
  obtain ⟨c, hc, hmethods⟩ := map_eq_ok_iff.mp hok
  exact ⟨c, hc, hmethods, decode_extent hc⟩

end ClassDeps.ClassFile
