import ClassDeps.Policy.Document
import ClassDeps.Proofs.Json.Keyword

namespace ClassDeps.PolicyDocument

open Json

def ConformsText (value : Json) : Prop :=
  Typed .string value ∧ MinLength 1 value

def ConformsTexts (value : Json) : Prop :=
  Typed .array value ∧ Items ConformsText value

def ConformsNames (value : Json) : Prop :=
  Typed .array value ∧ Items (Typed .string) value ∧ UniqueItems value

def subjectDemands : List (String × (Json → Prop)) :=
  [("allow_all", Typed .boolean), ("may_use", ConformsNames), ("must_not_use", ConformsNames),
    ("pattern", ConformsText)]

def ConformsSubjects (value : Json) : Prop :=
  Typed .object value ∧ AdditionalProperties [] (Record subjectDemands) value

def cycleDemands : List (String × (Json → Prop)) :=
  [("exclude", ConformsTexts), ("mode", Enum ["packages", "subjects", "off"])]

def demands : List (String × (Json → Prop)) :=
  [("base", ConformsText), ("cycles", Record cycleDemands), ("default", Enum ["deny", "allow"]),
    ("externals", ConformsTexts), ("subjects", ConformsSubjects)]

/-- The value meets all keywords of the schema of policy documents. -/
def Conforms (value : Json) : Prop :=
  Record demands value

theorem check_names_iff {value : Json} :
    (Schema.array (.text false) true).check value = [] ↔ ConformsNames value := by
  rw [Schema.check_set_iff fun x hx => (Schema.check_text_iff.mp hx).1]
  simp [Schema.check_text_iff, ConformsNames]

theorem check_schema_iff {value : Json} : schema.check value = [] ↔ Conforms value := by
  simp only [schema, subjectSchema, List.map_cons, List.map_nil, Schema.check_record_iff,
    Schema.check_map_iff, Schema.check_text_iff, Schema.check_boolean_iff, Schema.check_oneOf_iff,
    Schema.check_array_iff, check_names_iff, forall_const]
  rfl

theorem ConformsTexts.strings {value : Json} (h : ConformsTexts value) :
    Typed .array value ∧ Items (Typed .string) value :=
  ⟨h.1, fun xs hxs x hx => (h.2 xs hxs x hx).1⟩

theorem ConformsNames.strings {value : Json} (h : ConformsNames value) :
    Typed .array value ∧ Items (Typed .string) value :=
  ⟨h.1, h.2.1⟩

theorem orderFree_conforms : OrderFree Conforms := by
  have htext : OrderFree ConformsText := orderFree_and (orderFree_typed _) (orderFree_minLength _)
  have htexts : OrderFree ConformsTexts := orderFree_texts fun _ => ConformsTexts.strings
  have hnames : OrderFree ConformsNames := orderFree_texts fun _ => ConformsNames.strings
  have hsubject : OrderFree (Record subjectDemands) := by
    apply orderFree_record
    simp [subjectDemands, htext, hnames, orderFree_typed]
  have hsubjects : OrderFree ConformsSubjects :=
    orderFree_and (orderFree_typed _) (orderFree_additionalProperties hsubject _)
  have hcycles : OrderFree (Record cycleDemands) := by
    apply orderFree_record
    simp [cycleDemands, htexts, orderFree_enum]
  apply orderFree_record
  simp [demands, htext, htexts, hsubjects, hcycles, orderFree_enum]

/-- What `read` makes of the value under a key. -/
def field {α : Type} (value : Json) (key : String) (read : Json → α) (default : α) : α :=
  ((value.member? key).map read).getD default

/-- The value under a key. A missing one is one without keys. -/
def part (value : Json) (key : String) : Json :=
  field value key id .null

def textsOf : Json → List String
  | .array xs => xs.filterMap text?
  | _ => []

def flagOf : Json → Bool
  | .bool b => b
  | _ => false

def accessOf : Json → Access
  | .text "allow" => .allow
  | _ => .deny

def modeOf : Json → CycleMode
  | .text "subjects" => .subjects
  | .text "off" => .off
  | _ => .packages

def readSubject (value : Json) : SubjectEntry where
  pattern := field value "pattern" text? none
  allowAll := field value "allow_all" flagOf false
  mayUse := field value "may_use" textsOf []
  mustNotUse := field value "must_not_use" textsOf []

def readSubjects : Json → List (String × SubjectEntry)
  | .object fields => (members fields).toList.map fun s => (s.1, readSubject s.2)
  | _ => []

def read (value : Json) : PolicyDocument where
  default := field value "default" accessOf .deny
  base := field value "base" text? none
  externals := field value "externals" textsOf []
  subjects := readSubjects (part value "subjects")
  cycleMode := field (part value "cycles") "mode" modeOf .packages
  cycleExclusions := field (part value "cycles") "exclude" textsOf []

section

variable {α : Type} {demand : Json → Prop} {decode : Json → Option α} {read : Json → α}

/-- Where the demand is met, decoding succeeds and gives what is read. -/
def Decodes (demand : Json → Prop) (decode : Json → Option α) (read : Json → α) : Prop :=
  ∀ v, demand v → decode v = some (read v)

theorem decodes_text : Decodes ConformsText (fun v => (text? v).map some) text? := by
  rintro v ⟨h, -⟩
  cases v with
  | text s => rfl
  | _ => cases h

theorem decodes_flag : Decodes (Typed .boolean) flag? flagOf := by
  intro v h
  cases v with
  | bool b => rfl
  | _ => cases h

theorem map_text?_of_strings {xs : List Json} (h : ∀ x ∈ xs, Typed .string x) :
    xs.map text? = (xs.filterMap text?).map some := by
  induction xs with
  | nil => rfl
  | cons x xs ih =>
    obtain ⟨hx, hrest⟩ := List.forall_mem_cons.mp h
    cases x with
    | text s => simp [text?, ih hrest]
    | _ => cases hx

theorem decodes_texts (h : ∀ v, demand v → Typed .array v ∧ Items (Typed .string) v) :
    Decodes demand texts? textsOf := by
  intro v hv
  obtain ⟨hkind, htexts⟩ := h v hv
  cases v with
  | array xs => exact mapM_eq_some_iff.mpr (map_text?_of_strings (htexts xs rfl))
  | _ => cases hkind

theorem decodes_access : Decodes (Enum ["deny", "allow"]) access? accessOf := by
  rintro _ ⟨s, hs, rfl⟩
  simp only [List.mem_cons, List.not_mem_nil, or_false] at hs
  rcases hs with rfl | rfl <;> rfl

theorem decodes_mode : Decodes (Enum ["packages", "subjects", "off"]) mode? modeOf := by
  rintro _ ⟨s, hs, rfl⟩
  simp only [List.mem_cons, List.not_mem_nil, or_false] at hs
  rcases hs with rfl | rfl | rfl <;> rfl

theorem exists_fields {ds : List (String × (Json → Prop))} {value : Json} (h : Record ds value) :
    ∃ fields, value = .object fields ∧ record? (ds.map (·.1)) value = some (members fields) := by
  obtain ⟨hkind, -, hadditional⟩ := h
  cases value with
  | object fields =>
    have hall : (members fields).keys.all (ds.map (·.1)).contains := by
      rw [List.all_eq_true]
      intro key hkey
      obtain ⟨x, hx⟩ := mem_keys_iff.mp hkey
      by_contra hnot
      exact hadditional key (mt List.contains_iff_mem.mpr hnot) x hx
    exact ⟨fields, rfl, if_pos hall⟩
  | _ => cases hkind

theorem field?_eq {ds : List (String × (Json → Prop))} {fields : List (String × Json)}
    {key : String} {default : α} (h : Properties ds (.object fields)) (hkey : (key, demand) ∈ ds)
    (hdecodes : Decodes demand decode read) :
    field? (members fields) key decode default =
      some (field (.object fields) key read default) := by
  rw [field?, field, member?]
  cases hx : (members fields)[key]? with
  | none => rfl
  | some x => exact hdecodes x (h _ hkey x hx)

end

theorem decodes_subject : Decodes (Record subjectDemands) subject? readSubject := by
  intro v h
  obtain ⟨fields, rfl, hfields⟩ := exists_fields h
  obtain ⟨-, hproperties, -⟩ := h
  have hnames : Decodes ConformsNames texts? textsOf := decodes_texts fun _ => ConformsNames.strings
  simp only [subjectDemands, List.map] at hfields
  simp only [subject?, hfields, Option.bind_eq_bind, Option.bind_some,
    field?_eq hproperties (.head _) decodes_flag,
    field?_eq hproperties (.tail _ (.head _)) hnames,
    field?_eq hproperties (.tail _ (.tail _ (.head _))) hnames,
    field?_eq hproperties (.tail _ (.tail _ (.tail _ (.head _)))) decodes_text]
  rfl

theorem decodes_subjects : Decodes ConformsSubjects subjects? readSubjects := by
  rintro v ⟨hkind, hall⟩
  cases v with
  | object fields =>
    rw [subjects?, mapM_eq_some_iff, readSubjects, List.map_map]
    apply List.map_congr_left
    rintro ⟨name, x⟩ hx
    rw [Std.ExtTreeMap.mem_toList_iff_getElem?_eq_some] at hx
    have hsubject : Record subjectDemands x := hall name List.not_mem_nil x hx
    rw [decodes_subject x hsubject]
    rfl
  | _ => cases hkind

/-- The mode and the excluded patterns of a `cycles` section. -/
def readCycles (value : Json) : CycleMode × List String :=
  (field value "mode" modeOf .packages, field value "exclude" textsOf [])

theorem decodes_cycles : Decodes (Record cycleDemands) cycles? readCycles := by
  intro v h
  obtain ⟨fields, rfl, hfields⟩ := exists_fields h
  obtain ⟨-, hproperties, -⟩ := h
  simp only [cycleDemands, List.map] at hfields
  simp only [cycles?, hfields, Option.bind_eq_bind, Option.bind_some,
    field?_eq hproperties (.head _) (decodes_texts fun _ => ConformsTexts.strings),
    field?_eq hproperties (.tail _ (.head _)) decodes_mode]
  rfl

/-- A missing part reads like one without keys. -/
theorem field_eq_read_part {α : Type} {value : Json} {key : String} {read : Json → α} :
    field value key read (read .null) = read (part value key) := by
  rw [field, part, field]
  cases value.member? key <;> rfl

theorem decodes_document : Decodes Conforms ofJson? read := by
  intro v h
  obtain ⟨fields, rfl, hfields⟩ := exists_fields h
  obtain ⟨-, hproperties, -⟩ := h
  have htexts : Decodes ConformsTexts texts? textsOf := decodes_texts fun _ => ConformsTexts.strings
  simp only [demands, List.map] at hfields
  simp only [ofJson?, hfields, Option.bind_eq_bind, Option.bind_some,
    field?_eq hproperties (.head _) decodes_text,
    field?_eq hproperties (.tail _ (.head _)) decodes_cycles,
    field?_eq hproperties (.tail _ (.tail _ (.head _))) decodes_access,
    field?_eq hproperties (.tail _ (.tail _ (.tail _ (.head _)))) htexts,
    field?_eq hproperties (.tail _ (.tail _ (.tail _ (.tail _ (.head _))))) decodes_subjects]
  have hcycles : field (.object fields) "cycles" readCycles (.packages, []) =
      readCycles (part (.object fields) "cycles") := field_eq_read_part
  have hsubjects : field (.object fields) "subjects" readSubjects [] =
      readSubjects (part (.object fields) "subjects") := field_eq_read_part
  rw [hcycles, hsubjects]
  rfl

section

variable {α : Type} {read : Json → α}

/-- Values that are alike read the same. -/
def OrderBlind (read : Json → α) : Prop :=
  ∀ v w, Alike v w → read v = read w

theorem orderBlind_text? : OrderBlind text? := by
  intro v w h
  cases h <;> rfl

theorem orderBlind_flagOf : OrderBlind flagOf := by
  intro v w h
  cases h <;> rfl

theorem orderBlind_accessOf : OrderBlind accessOf := by
  intro v w h
  cases h <;> rfl

theorem orderBlind_modeOf : OrderBlind modeOf := by
  intro v w h
  cases h <;> rfl

theorem orderBlind_textsOf : OrderBlind textsOf := by
  intro v w h
  cases h with
  | array hxs =>
    rw [textsOf, textsOf]
    induction hxs with
    | nil => rfl
    | cons hxy _ ih => rw [List.filterMap_cons, List.filterMap_cons, orderBlind_text? _ _ hxy, ih]
  | _ => rfl

variable {v w : Json}

theorem OrderBlind.map_member? (h : OrderBlind read) (hvw : Alike v w) (key : String) :
    (v.member? key).map read = (w.member? key).map read := by
  rcases hvw.member? key with ⟨hv, hw⟩ | ⟨x, y, hv, hw, hxy⟩
  · rw [hv, hw]
  · rw [hv, hw, Option.map_some, Option.map_some, h x y hxy]

theorem OrderBlind.field_eq (h : OrderBlind read) (hvw : Alike v w) (key : String) (default : α) :
    field v key read default = field w key read default := by
  rw [field, field, h.map_member? hvw]

theorem alike_part (h : Alike v w) (key : String) : Alike (part v key) (part w key) := by
  rw [part, part, field, field]
  rcases h.member? key with ⟨hv, hw⟩ | ⟨x, y, hv, hw, hxy⟩
  · rw [hv, hw]
    exact .null
  · rw [hv, hw]
    exact hxy

end

theorem orderBlind_readSubject : OrderBlind readSubject := by
  intro v w h
  rw [readSubject, readSubject, orderBlind_text?.field_eq h, orderBlind_flagOf.field_eq h,
    orderBlind_textsOf.field_eq h, orderBlind_textsOf.field_eq h]

theorem orderBlind_readSubjects : OrderBlind readSubjects := by
  intro v w h
  have hmember := orderBlind_readSubject.map_member? h
  cases h with
  | @object fields fields' =>
    -- The tables hold values that are alike, and so the same readings.
    have hmap : (members fields).map (fun _ x => readSubject x) =
        (members fields').map (fun _ x => readSubject x) := by
      apply Std.ExtTreeMap.ext_getElem?
      intro key
      rw [Std.ExtTreeMap.getElem?_map, Std.ExtTreeMap.getElem?_map]
      exact hmember key
    have hlist := congrArg Std.ExtTreeMap.toList hmap
    rw [Std.ExtTreeMap.toList_map, Std.ExtTreeMap.toList_map] at hlist
    exact hlist
  | _ => rfl

theorem orderBlind_read : OrderBlind read := by
  intro v w h
  have hcycles := alike_part h "cycles"
  rw [read, read, orderBlind_accessOf.field_eq h, orderBlind_text?.field_eq h,
    orderBlind_textsOf.field_eq h, orderBlind_readSubjects _ _ (alike_part h "subjects"),
    orderBlind_modeOf.field_eq hcycles, orderBlind_textsOf.field_eq hcycles]

end ClassDeps.PolicyDocument
