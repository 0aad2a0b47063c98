import ClassDeps.Json.Schema
import ClassDeps.Proofs.Traverse

namespace ClassDeps.Json

inductive Kind where
  | null
  | boolean
  | number
  | string
  | array
  | object
deriving DecidableEq, Repr

def kind : Json → Kind
  | null => .null
  | bool _ => .boolean
  | number _ => .number
  | text _ => .string
  | array _ => .array
  | object _ => .object

/-- The value under a key, if this is an object that has the key. -/
def member? (value : Json) (key : String) : Option Json :=
  match value with
  | object fields => (members fields)[key]?
  | _ => none

theorem mem_keys_iff {fields : List (String × Json)} {key : String} :
    key ∈ (members fields).keys ↔ ∃ x, (object fields).member? key = some x := by
  rw [Std.ExtTreeMap.mem_keys, Std.ExtTreeMap.mem_iff_isSome_getElem?, Option.isSome_iff_exists]
  rfl

/-- The keyword `type`. -/
def Typed (kind : Kind) (value : Json) : Prop :=
  value.kind = kind

/-- The keyword `enum`, of strings. -/
def Enum (options : List String) (value : Json) : Prop :=
  ∃ s ∈ options, value = .text s

/-- The keyword `minLength`. -/
def MinLength (n : Nat) (value : Json) : Prop :=
  ∀ s, value = .text s → n ≤ s.length

/-- The keyword `items`. -/
def Items (demand : Json → Prop) (value : Json) : Prop :=
  ∀ xs, value = .array xs → ∀ x ∈ xs, demand x

/-- The keyword `uniqueItems`, of strings. -/
def UniqueItems (value : Json) : Prop :=
  ∀ xs, value = .array xs → xs.Nodup

/-- The keyword `properties`. None of them has to be there. -/
def Properties (demands : List (String × (Json → Prop))) (value : Json) : Prop :=
  ∀ d ∈ demands, ∀ x, value.member? d.1 = some x → d.2 x

/-- The keyword `additionalProperties`, about keys that no property describes. -/
def AdditionalProperties (described : List String) (demand : Json → Prop) (value : Json) : Prop :=
  ∀ key, key ∉ described → ∀ x, value.member? key = some x → demand x

/-- The keywords of an object with no keys but the described ones. -/
def Record (demands : List (String × (Json → Prop))) (value : Json) : Prop :=
  Typed .object value ∧ Properties demands value ∧
    AdditionalProperties (demands.map (·.1)) (fun _ => False) value

namespace Schema

variable {value : Json}

theorem check_oneOf_iff {options : List String} :
    (oneOf options).check value = [] ↔ Enum options value := by
  cases value <;> simp [check, Enum]

theorem check_text_iff {nonempty : Bool} : (text nonempty).check value = [] ↔
    Typed .string value ∧ (nonempty → MinLength 1 value) := by
  cases value with
  | text s =>
    have hlength : 1 ≤ s.length ↔ s.isEmpty = false := by
      rw [Nat.one_le_iff_ne_zero, Ne, String.length_eq_zero_iff, ← Bool.not_eq_true,
        String.isEmpty_iff]
    simp [check, Typed, kind, MinLength, hlength]
  | _ => simp [check, Typed, kind]

theorem check_boolean_iff : boolean.check value = [] ↔ Typed .boolean value := by
  cases value <;> simp [check, Typed, kind]

theorem distinct_iff {xs : List Json} (h : ∀ x ∈ xs, Typed .string x) :
    distinct xs ↔ xs.Nodup := by
  induction xs with
  | nil => simp [distinct]
  | cons x xs ih =>
    obtain ⟨hx, hrest⟩ := List.forall_mem_cons.mp h
    have hany : xs.any (same x) ↔ x ∈ xs := by
      rw [List.any_eq_true]
      constructor
      · rintro ⟨y, hy, hsame⟩
        have hstring := hrest y hy
        cases x <;> cases y <;> simp_all [same, Typed, kind]
      · intro hmem
        refine ⟨x, hmem, ?_⟩
        cases x <;> simp_all [same, Typed, kind]
    rw [distinct, Bool.and_eq_true, Bool.not_eq_true', ← Bool.not_eq_true, hany, ih hrest,
      List.nodup_cons]

theorem check_array_iff {items : Schema} : (array items false).check value = [] ↔
    Typed .array value ∧ Items (fun x => items.check x = []) value := by
  cases value <;> simp [check, Typed, kind, Items]

theorem check_set_iff {items : Schema} (hitems : ∀ x, items.check x = [] → Typed .string x) :
    (array items true).check value = [] ↔
      Typed .array value ∧ Items (fun x => items.check x = []) value ∧ UniqueItems value := by
  cases value with
  | array xs =>
    simp only [check, Typed, kind, Items, UniqueItems, List.append_eq_nil_iff,
      List.flatMap_eq_nil_iff, Json.array.injEq, forall_eq', true_and, Bool.true_and]
    rw [and_comm, and_congr_right_iff]
    intro hall
    rw [← distinct_iff fun x hx => hitems x (hall x hx)]
    cases distinct xs <;> simp
  | _ => simp [check, Typed, kind]

theorem checkProperties_eq_nil_iff {properties : List (String × Schema)}
    {fields : Std.ExtTreeMap String Json} : checkProperties properties fields = [] ↔
      ∀ p ∈ properties, ∀ x, fields[p.1]? = some x → p.2.check x = [] := by
  induction properties with
  | nil => simp [checkProperties]
  | cons p rest ih =>
    rw [checkProperties, List.append_eq_nil_iff, ih, List.forall_mem_cons]
    cases fields[p.1]? <;> simp

theorem check_record_iff {properties : List (String × Schema)} :
    (record properties).check value = [] ↔
      Record (properties.map fun p => (p.1, fun x => p.2.check x = [])) value := by
  have hkeys : (properties.map fun p => (p.1, fun x => p.2.check x = [])).map (·.1) =
      properties.map (·.1) := by
    rw [List.map_map]
    rfl
  rw [Record, hkeys]
  cases value with
  | object fields =>
    have hproperties : checkProperties properties (members fields) = [] ↔
        Properties (properties.map fun p => (p.1, fun x => p.2.check x = [])) (.object fields) := by
      rw [checkProperties_eq_nil_iff, Properties, List.forall_mem_map]
      rfl
    have hadditional : (members fields).keys.filter (fun k => !properties.any (·.1 = k)) = [] ↔
        AdditionalProperties (properties.map (·.1)) (fun _ => False) (.object fields) := by
      have hdescribed (key : String) :
          ¬(!properties.any (·.1 = key)) ↔ key ∈ properties.map (·.1) := by
        simp
      simp only [List.filter_eq_nil_iff, mem_keys_iff, hdescribed, AdditionalProperties]
      constructor
      · intro hall key hkey x hx
        exact hkey (hall key ⟨x, hx⟩)
      · rintro hall key ⟨x, hx⟩
        by_contra hkey
        exact hall key hkey x hx
    simp [check, Typed, kind, hproperties, hadditional]
  | _ => simp [check, Typed, kind]

theorem check_map_iff {values : Schema} : (map values).check value = [] ↔
    Typed .object value ∧ AdditionalProperties [] (fun x => values.check x = []) value := by
  cases value with
  | object fields =>
    simp [check, Typed, kind, AdditionalProperties, member?]
  | _ => simp [check, Typed, kind]

end Schema

/-- Equal but for the order of keys, of which no object has one twice. -/
inductive Alike : Json → Json → Prop
  | null : Alike null null
  | bool (b : Bool) : Alike (bool b) (bool b)
  | number (n : Number) : Alike (number n) (number n)
  | text (s : String) : Alike (text s) (text s)
  | array {xs ys : List Json} : List.Forall₂ Alike xs ys → Alike (array xs) (array ys)
  | object {fields fields' : List (String × Json)} : (fields.map (·.1)).Nodup →
    (fields.map (·.1)).Perm (fields'.map (·.1)) →
    (∀ key x y, (key, x) ∈ fields → (key, y) ∈ fields' → Alike x y) →
    Alike (object fields) (object fields')

variable {v w : Json}

theorem Alike.kind_eq (h : Alike v w) : v.kind = w.kind := by
  cases h <;> rfl

theorem member?_eq_some_iff {fields : List (String × Json)} (h : (fields.map (·.1)).Nodup)
    {key : String} {x : Json} :
    (object fields).member? key = some x ↔ (key, x) ∈ fields :=
  getElem?_ofList_iff (List.pairwise_map.mp h)

/-- Under a key, either both have nothing or they have values that are alike. -/
theorem Alike.member? (h : Alike v w) (key : String) :
    (v.member? key = none ∧ w.member? key = none) ∨
      ∃ x y, v.member? key = some x ∧ w.member? key = some y ∧ Alike x y := by
  cases h with
  | @object fields fields' hnodup hperm halike =>
    have hnodup' := hperm.nodup_iff.mp hnodup
    have hkeys : (∃ x, (key, x) ∈ fields) ↔ ∃ y, (key, y) ∈ fields' := by
      simpa using hperm.mem_iff (a := key)
    simp only [← member?_eq_some_iff hnodup, ← member?_eq_some_iff hnodup'] at hkeys
    cases hx : (Json.object fields).member? key with
    | none =>
      refine .inl ⟨rfl, Option.eq_none_iff_forall_ne_some.mpr fun y hy => ?_⟩
      obtain ⟨x, hx'⟩ := hkeys.mpr ⟨y, hy⟩
      cases hx.symm.trans hx'
    | some x =>
      obtain ⟨y, hy⟩ := hkeys.mp ⟨x, hx⟩
      refine .inr ⟨x, y, rfl, hy, halike key x y ?_ ?_⟩
      · exact (member?_eq_some_iff hnodup).mp hx
      · exact (member?_eq_some_iff hnodup').mp hy
  | _ => exact .inl ⟨rfl, rfl⟩

theorem Alike.exists_member? (h : Alike v w) {key : String} {y : Json}
    (hy : w.member? key = some y) : ∃ x, v.member? key = some x ∧ Alike x y := by
  rcases h.member? key with ⟨-, hnone⟩ | ⟨x, y', hx, hy', hxy⟩
  · cases hnone.symm.trans hy
  · cases hy'.symm.trans hy
    exact ⟨x, hx, hxy⟩

/-- A demand that does not depend on the order of keys. -/
def OrderFree (demand : Json → Prop) : Prop :=
  ∀ v w, Alike v w → demand v → demand w

theorem orderFree_typed (kind : Kind) : OrderFree (Typed kind) :=
  fun _ _ h hv => h.kind_eq.symm.trans hv

theorem orderFree_enum (options : List String) : OrderFree (Enum options) := by
  rintro _ _ h ⟨s, hs, rfl⟩
  cases h
  exact ⟨s, hs, rfl⟩

theorem orderFree_minLength (n : Nat) : OrderFree (MinLength n) := by
  rintro v _ h hv s rfl
  cases h
  exact hv s rfl

theorem eq_of_alike_texts {xs ys : List Json} (h : List.Forall₂ Alike xs ys)
    (htexts : ∀ x ∈ xs, Typed .string x) : xs = ys := by
  induction h with
  | nil => rfl
  | cons hxy _ ih =>
    obtain ⟨hx, hrest⟩ := List.forall_mem_cons.mp htexts
    cases hxy with
    | text s => rw [ih hrest]
    | _ => cases hx

/-- In a list of texts there are no keys. -/
theorem orderFree_texts {demand : Json → Prop}
    (h : ∀ v, demand v → Typed .array v ∧ Items (Typed .string) v) : OrderFree demand := by
  intro v w hvw hv
  obtain ⟨hkind, htexts⟩ := h v hv
  cases hvw with
  | array hxs =>
    rw [eq_of_alike_texts hxs (htexts _ rfl)] at hv
    exact hv
  | _ => cases hkind

theorem orderFree_properties {demands : List (String × (Json → Prop))}
    (h : ∀ d ∈ demands, OrderFree d.2) : OrderFree (Properties demands) := by
  intro v w hvw hv d hd y hy
  obtain ⟨x, hx, hxy⟩ := hvw.exists_member? hy
  exact h d hd x y hxy (hv d hd x hx)

theorem orderFree_additionalProperties {demand : Json → Prop} (h : OrderFree demand)
    (described : List String) : OrderFree (AdditionalProperties described demand) := by
  intro v w hvw hv key hkey y hy
  obtain ⟨x, hx, hxy⟩ := hvw.exists_member? hy
  exact h x y hxy (hv key hkey x hx)

theorem orderFree_and {a b : Json → Prop} (ha : OrderFree a) (hb : OrderFree b) :
    OrderFree fun v => a v ∧ b v :=
  fun v w h hv => ⟨ha v w h hv.1, hb v w h hv.2⟩

theorem orderFree_record {demands : List (String × (Json → Prop))}
    (h : ∀ d ∈ demands, OrderFree d.2) : OrderFree (Record demands) :=
  orderFree_and (orderFree_typed _) (orderFree_and (orderFree_properties h)
    (orderFree_additionalProperties (fun _ _ _ => id) _))

end ClassDeps.Json
