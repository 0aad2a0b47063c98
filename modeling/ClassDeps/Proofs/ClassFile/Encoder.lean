import ClassDeps.ClassFile.Decoder

namespace ClassDeps.ClassFile

namespace Encoder

def u16 (x : UInt16) : List UInt8 :=
  [UInt8.ofNat (x.toNat / 0x100), UInt8.ofNat x.toNat]

def u32 (x : UInt32) : List UInt8 :=
  u16 (UInt16.ofNat (x.toNat / 0x10000)) ++ u16 (UInt16.ofNat x.toNat)

def u64 (x : UInt64) : List UInt8 :=
  u32 (UInt32.ofNat (x.toNat / 0x100000000)) ++ u32 (UInt32.ofNat x.toNat)

theorem u16_value (x : UInt16) : UInt16.ofNat
    ((UInt8.ofNat (x.toNat / 0x100)).toNat * 0x100 + (UInt8.ofNat x.toNat).toNat) = x := by
  apply UInt16.toNat_inj.mp
  have := x.toNat_lt
  simp only [UInt16.toNat_ofNat', UInt8.toNat_ofNat']
  omega

theorem u32_value (x : UInt32) : UInt32.ofNat
    ((UInt16.ofNat (x.toNat / 0x10000)).toNat * 0x10000 + (UInt16.ofNat x.toNat).toNat) = x := by
  apply UInt32.toNat_inj.mp
  have := x.toNat_lt
  simp only [UInt32.toNat_ofNat', UInt16.toNat_ofNat']
  omega

theorem u64_value (x : UInt64) : UInt64.ofNat ((UInt32.ofNat (x.toNat / 0x100000000)).toNat *
    0x100000000 + (UInt32.ofNat x.toNat).toNat) = x := by
  apply UInt64.toNat_inj.mp
  have := x.toNat_lt
  simp only [UInt64.toNat_ofNat', UInt32.toNat_ofNat']
  omega

/-- A count of two bytes, then the items. -/
def table {α : Type} (item : α → List UInt8) (items : List α) : List UInt8 :=
  u16 (UInt16.ofNat items.length) ++ items.flatMap item

@[simp] theorem length_u16 (x : UInt16) : (u16 x).length = 2 := rfl

@[simp] theorem length_u32 (x : UInt32) : (u32 x).length = 4 := rfl

@[simp] theorem length_u64 (x : UInt64) : (u64 x).length = 8 := rfl

@[simp] theorem length_table {α : Type} (item : α → List UInt8) (items : List α) :
    (table item items).length = 2 + (items.flatMap item).length := by
  rw [table, List.length_append, length_u16]

theorem length_item_le_table {α : Type} (item : α → List UInt8) {items : List α} {a : α}
    (h : a ∈ items) : (item a).length ≤ (table item items).length := by
  have hsub : (item a).length ≤ (items.flatMap item).length := by
    rw [List.flatMap_def]
    exact (List.sublist_flatten_of_mem (List.mem_map_of_mem h)).length_le
  rw [length_table]
  omega

end Encoder

/-- `p` reads exactly `bytes`, whatever follows them, as `a`. -/
def Decodes {α : Type} (p : Decoder α) (bytes : List UInt8) (a : α) : Prop :=
  ∀ rest, p (bytes ++ rest) = .ok (a, rest)

namespace Decodes

variable {α β γ : Type} {p : Decoder α} {q : α → Decoder β} {xs ys : List UInt8} {a : α} {b : β}

theorem eq_ok (h : Decodes p xs a) : p xs = .ok (a, []) := by
  have := h []
  rwa [List.append_nil] at this

theorem unique {a' : α} (h : Decodes p xs a) (h' : Decodes p xs a') : a = a' := by
  have he := h.eq_ok.symm.trans h'.eq_ok
  injection he with he
  injection he

theorem pure (a : α) : Decodes (Pure.pure a) [] a :=
  fun _ => rfl

theorem bind (hp : Decodes p xs a) (hq : Decodes (q a) ys b) :
    Decodes (p >>= q) (xs ++ ys) b := by
  intro rest
  show (p ((xs ++ ys) ++ rest) >>= fun s => q s.1 s.2) = _
  rw [List.append_assoc, hp]
  exact hq rest

/-- A lookup takes no bytes. -/
theorem lift {x : Except Malformed α} (hx : x = .ok a) :
    Decodes (liftM x : Decoder α) [] a := by
  rw [hx]
  exact fun _ => rfl

theorem lift_bind {x : Except Malformed α} (hx : x = .ok a) (hq : Decodes (q a) ys b) :
    Decodes ((liftM x : Decoder α) >>= q) ys b :=
  (lift hx).bind hq

/-- After the last bytes only lookups and computations follow. -/
theorem bind_nil (hp : Decodes p xs a) (hq : Decodes (q a) [] b) : Decodes (p >>= q) xs b := by
  have h := hp.bind hq
  rwa [List.append_nil] at h

theorem map (f : α → β) (hp : Decodes p xs a) :
    Decodes (p >>= fun a => Pure.pure (f a)) xs (f a) :=
  hp.bind_nil (.pure (f a))

theorem u8 (x : UInt8) : Decodes Decoder.u8 [x] x :=
  fun _ => rfl

theorem u16 (x : UInt16) : Decodes Decoder.u16 (Encoder.u16 x) x := by
  have h : Decodes Decoder.u16 (Encoder.u16 x) (UInt16.ofNat
      ((UInt8.ofNat (x.toNat / 0x100)).toNat * 0x100 + (UInt8.ofNat x.toNat).toNat)) :=
    (u8 _).bind ((u8 _).map _)
  rwa [Encoder.u16_value] at h

theorem u32 (x : UInt32) : Decodes Decoder.u32 (Encoder.u32 x) x := by
  have h : Decodes Decoder.u32 (Encoder.u32 x) (UInt32.ofNat
      ((UInt16.ofNat (x.toNat / 0x10000)).toNat * 0x10000 + (UInt16.ofNat x.toNat).toNat)) :=
    (u16 _).bind ((u16 _).map _)
  rwa [Encoder.u32_value] at h

theorem u64 (x : UInt64) : Decodes Decoder.u64 (Encoder.u64 x) x := by
  have h : Decodes Decoder.u64 (Encoder.u64 x) (UInt64.ofNat
      ((UInt32.ofNat (x.toNat / 0x100000000)).toNat * 0x100000000 +
        (UInt32.ofNat x.toNat).toNat)) :=
    (u32 _).bind ((u32 _).map _)
  rwa [Encoder.u64_value] at h

theorem run (bytes : List UInt8) : Decodes (Decoder.run bytes.length) bytes bytes := by
  intro rest
  simp [Decoder.run, List.splitAt_eq]

/-- Bytes that `p` leaves in its slice are skipped. -/
theorem inside {slice : List UInt8} (hp : Decodes p xs a) (hslice : xs <+: slice) :
    Decodes (Decoder.inside slice p) [] a := by
  obtain ⟨rest, rfl⟩ := hslice
  intro input
  simp [Decoder.inside, hp rest]

section

variable {item : γ → List UInt8} {value : γ → α}

theorem times (items : List γ) (h : ∀ c ∈ items, Decodes p (item c) (value c)) :
    Decodes (Decoder.times items.length p) (items.flatMap item) (items.map value) := by
  induction items with
  | nil => exact Decodes.pure []
  | cons c items ih =>
    have hhead := h c List.mem_cons_self
    have htail := ih fun d hd => h d (List.mem_cons_of_mem c hd)
    rw [Decoder.times, List.length_cons, List.replicate_succ, List.mapM_cons]
    exact hhead.bind (htail.map fun tail => value c :: tail)

theorem table {items : List γ} (hcount : items.length < 0x10000)
    (h : ∀ c ∈ items, Decodes p (item c) (value c)) :
    Decodes (Decoder.table p) (Encoder.table item items) (items.map value) := by
  have hlen : (UInt16.ofNat items.length).toNat = items.length := by
    rw [UInt16.toNat_ofNat']
    omega
  apply (u16 (UInt16.ofNat items.length)).bind
  rw [hlen]
  exact times items h

end

end Decodes

namespace Encoder

theorem u16_injective : Function.Injective u16 := by
  intro x y h
  exact (Decodes.u16 x).unique (h ▸ Decodes.u16 y)

theorem u32_injective : Function.Injective u32 := by
  intro x y h
  exact (Decodes.u32 x).unique (h ▸ Decodes.u32 y)

theorem flatMap_injective {α : Type} {item : α → List UInt8} {width : Nat}
    (hinj : Function.Injective item) (hwidth : ∀ a, (item a).length = width) (hpos : 0 < width) :
    Function.Injective fun items : List α => items.flatMap item := by
  intro items
  induction items with
  | nil =>
    intro others h
    match others, h with
    | [], _ => rfl
    | b :: others, h =>
      have hlen := congrArg List.length h
      simp only [List.flatMap_nil, List.flatMap_cons, List.length_append, List.length_nil,
        hwidth] at hlen
      omega
  | cons a items ih =>
    intro others h
    match others, h with
    | [], h =>
      have hlen := congrArg List.length h
      simp only [List.flatMap_nil, List.flatMap_cons, List.length_append, List.length_nil,
        hwidth] at hlen
      omega
    | b :: others, h =>
      simp only [List.flatMap_cons] at h
      obtain ⟨hab, hrest⟩ := List.append_inj h (by rw [hwidth, hwidth])
      rw [hinj hab, ih hrest]

/-- A run of bytes of known length, cut in two. -/
theorem exists_append_eq {bytes : List UInt8} {m n : Nat} (h : bytes.length = m + n) :
    ∃ front back, front.length = m ∧ back.length = n ∧ bytes = front ++ back := by
  refine ⟨bytes.take m, bytes.drop m, ?_, ?_, (List.take_append_drop m bytes).symm⟩
  · rw [List.length_take]
    omega
  · rw [List.length_drop]
    omega

theorem exists_u16_eq {bytes : List UInt8} (h : bytes.length = 2) : ∃ x, u16 x = bytes := by
  match bytes, h with
  | [a, b], _ =>
    refine ⟨UInt16.ofNat (a.toNat * 0x100 + b.toNat), ?_⟩
    have := a.toNat_lt
    have := b.toNat_lt
    simp only [u16, List.cons.injEq, and_true, ← UInt8.toNat_inj, UInt8.toNat_ofNat',
      UInt16.toNat_ofNat']
    omega

theorem exists_u32_eq {bytes : List UInt8} (h : bytes.length = 4) : ∃ x, u32 x = bytes := by
  obtain ⟨front, back, hfront, hback, hbytes⟩ := exists_append_eq (m := 2) (n := 2) h
  obtain ⟨high, hhigh⟩ := exists_u16_eq hfront
  obtain ⟨low, hlow⟩ := exists_u16_eq hback
  refine ⟨UInt32.ofNat (high.toNat * 0x10000 + low.toNat), ?_⟩
  have := high.toNat_lt
  have := low.toNat_lt
  have hh : UInt16.ofNat ((UInt32.ofNat (high.toNat * 0x10000 + low.toNat)).toNat / 0x10000) =
      high := by
    simp only [← UInt16.toNat_inj, UInt16.toNat_ofNat', UInt32.toNat_ofNat']
    omega
  have hl : UInt16.ofNat (UInt32.ofNat (high.toNat * 0x10000 + low.toNat)).toNat = low := by
    simp only [← UInt16.toNat_inj, UInt16.toNat_ofNat', UInt32.toNat_ofNat']
    omega
  rw [u32, hh, hl, hhigh, hlow, hbytes]

theorem exists_flatMap_eq {α : Type} {item : α → List UInt8} {width : Nat}
    (hitem : ∀ bytes, bytes.length = width → ∃ a, item a = bytes) (n : Nat) :
    ∀ bytes : List UInt8, bytes.length = width * n →
      ∃ items : List α, items.length = n ∧ items.flatMap item = bytes := by
  induction n with
  | zero =>
    intro bytes h
    exact ⟨[], rfl, (List.length_eq_zero_iff.mp h).symm⟩
  | succ n ih =>
    intro bytes h
    rw [Nat.mul_succ] at h
    obtain ⟨a, ha⟩ := hitem (bytes.take width) (by rw [List.length_take]; omega)
    obtain ⟨items, hlen, hitems⟩ := ih (bytes.drop width) (by rw [List.length_drop]; omega)
    refine ⟨a :: items, by rw [List.length_cons, hlen], ?_⟩
    rw [List.flatMap_cons, ha, hitems, List.take_append_drop]

end Encoder

end ClassDeps.ClassFile
