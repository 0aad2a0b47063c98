import ClassDeps.Proofs.Policy.Decoding
import ClassDeps.Proofs.Policy.Problem
import ClassDeps.Proofs.Text.ByteOrder
import Mathlib.Data.List.Sort

namespace ClassDeps.PolicyDocument

variable {document : PolicyDocument} {declarations : List Declaration}

/-- The full pattern of a subject, given the base and the pattern that its entry has. -/
inductive Resolves : Option String → String → Option String → String → Prop
  | absolute {base : Option String} {name pattern : String} : pattern.toList.head? ≠ some '.' →
    Resolves base name (some pattern) pattern
  | base {base name : String} : Resolves (some base) name (some ".") base
  | relative {base name pattern : String} {c : Char} {rest : List Char} :
    pattern.toList = '.' :: c :: rest → Resolves (some base) name (some pattern) (base ++ pattern)
  | named {base name : String} : Resolves (some base) name none (base ++ "." ++ name)
  | bare {name : String} : Resolves none name none name

theorem exists_of_relative {pattern : String} (h : pattern.toList.head? = some '.')
    (hdot : pattern ≠ ".") : ∃ c rest, pattern.toList = '.' :: c :: rest := by
  cases hp : pattern.toList with
  | nil => simp [hp] at h
  | cons d rest =>
    obtain rfl : d = '.' := by simpa [hp] using h
    cases rest with
    | nil => exact absurd (String.toList_inj.mp hp) hdot
    | cons c rest => exact ⟨c, rest, rfl⟩

theorem resolvePattern_eq_ok_iff {base : Option String} {name : String} {pattern : Option String}
    {text : String} :
    resolvePattern base name pattern = .ok text ↔ Resolves base name pattern text := by
  constructor
  · intro h
    cases pattern with
    | none =>
      cases base with
      | none =>
        cases h
        exact .bare
      | some base =>
        cases h
        exact .named
    | some pattern =>
      simp only [resolvePattern] at h
      split at h
      case isTrue habsolute =>
        cases h
        exact .absolute habsolute
      case isFalse hrelative =>
        cases base with
        | none => cases h
        | some base =>
          split_ifs at h with hdot
          · cases h
            rw [hdot]
            exact .base
          · cases h
            obtain ⟨c, rest, hp⟩ := exists_of_relative (not_not.mp hrelative) hdot
            exact .relative hp
  · intro h
    cases h with
    | absolute habsolute => simp [resolvePattern, habsolute]
    | base => rfl
    | @relative base name pattern c rest hp =>
      have hdot : pattern ≠ "." := by
        rintro rfl
        cases hp
      simp [resolvePattern, hp, hdot]
    | named => rfl
    | bare => rfl

theorem resolvePattern_eq_error_iff {base : Option String} {name : String}
    {pattern : Option String} {e : DocumentError} : resolvePattern base name pattern = .error e ↔
      base = none ∧ ∃ text, pattern = some text ∧ text.toList.head? = some '.' ∧
        e = .relativePattern name text := by
  cases pattern with
  | none => cases base <;> simp [resolvePattern]
  | some text =>
    cases base <;> by_cases h : text.toList.head? = some '.' <;>
      simp [resolvePattern, h, @eq_comm _ e]

/-- The declarations say what the document does, and the subjects come in the byte order of their
names. -/
structure Declares (document : PolicyDocument) (declarations : List Declaration) : Prop where
  ascending : (Policy.subjectNames declarations).Pairwise fun a b => Text.utf8 a < Text.utf8 b
  complete : ∀ name entry, (name, entry) ∈ document.subjects →
    name ∈ Policy.subjectNames declarations
  subjects : ∀ name text allowAll, .subject name text allowAll ∈ declarations ↔
    ∃ entry, (name, entry) ∈ document.subjects ∧ Resolves document.base name entry.pattern text ∧
      allowAll = entry.allowAll
  mayUse : ∀ name target, .mayUse name target ∈ declarations ↔
    ∃ entry, (name, entry) ∈ document.subjects ∧ target ∈ entry.mayUse
  mustNotUse : ∀ name target, .mustNotUse name target ∈ declarations ↔
    ∃ entry, (name, entry) ∈ document.subjects ∧ target ∈ entry.mustNotUse
  externals : declarations.filterMap Declaration.external? = document.externals
  mode : declarations.filterMap Declaration.mode? = [document.cycleMode]
  exclusions : declarations.filterMap Declaration.exclude? = document.cycleExclusions

theorem mem_relations {subjects : List (String × SubjectEntry)} {d : Declaration} :
    d ∈ relations subjects ↔ ∃ name entry, (name, entry) ∈ subjects ∧
      ((∃ target ∈ entry.mayUse, d = .mayUse name target) ∨
        ∃ target ∈ entry.mustNotUse, d = .mustNotUse name target) := by
  simp only [relations, List.mem_flatMap, List.mem_append, List.mem_map, Prod.exists, eq_comm]

/-- The declaration of a subject, if its pattern can be resolved. -/
def resolveSubject (base : Option String) (s : String × SubjectEntry) :
    Except DocumentError Declaration := do
  return .subject s.1 (← resolvePattern base s.1 s.2.pattern) s.2.allowAll

theorem resolveSubject_eq_ok_iff {base : Option String} {s : String × SubjectEntry}
    {d : Declaration} : resolveSubject base s = .ok d ↔
      ∃ text, Resolves base s.1 s.2.pattern text ∧ d = .subject s.1 text s.2.allowAll := by
  simp only [resolveSubject, bind_eq_ok_iff, resolvePattern_eq_ok_iff, pure, Except.pure,
    Except.ok.injEq, @eq_comm _ d]

theorem declarations_eq_ok_iff : document.declarations = .ok declarations ↔
    ∃ subjects, document.subjects.mapM (resolveSubject document.base) = .ok subjects ∧
      declarations = subjects ++ relations document.subjects ++
        document.externals.map .external ++
        .cycles document.cycleMode :: document.cycleExclusions.map .exclude := by
  change (document.subjects.mapM (resolveSubject document.base) >>= _) = _ ↔ _
  simp only [bind_eq_ok_iff, pure, Except.pure, Except.ok.injEq, @eq_comm _ declarations]

theorem declarations_eq_error {e : DocumentError} (h : document.declarations = .error e) :
    document.base = none ∧ ∃ name entry text, (name, entry) ∈ document.subjects ∧
      entry.pattern = some text ∧ text.toList.head? = some '.' ∧
      e = .relativePattern name text := by
  change (document.subjects.mapM (resolveSubject document.base) >>= _) = _ at h
  rcases bind_eq_error_iff.mp h with h | ⟨_, -, h⟩
  · obtain ⟨⟨name, entry⟩, hs, h⟩ := exists_of_mapM_eq_error h
    rcases bind_eq_error_iff.mp h with h | ⟨_, -, h⟩
    · obtain ⟨hbase, text, hpattern, hdot, he⟩ := resolvePattern_eq_error_iff.mp h
      exact ⟨hbase, name, entry, text, hs, hpattern, hdot, he⟩
    · cases h
  · cases h

/-- The names of the subjects come in byte order. -/
def Ascending (document : PolicyDocument) : Prop :=
  (document.subjects.map (·.1)).Pairwise fun a b => Text.utf8 a < Text.utf8 b

theorem nodup_of_ascending {names : List String}
    (h : names.Pairwise fun a b => Text.utf8 a < Text.utf8 b) : names.Nodup := by
  apply h.imp
  rintro a _ hlt rfl
  exact List.lt_irrefl _ hlt

theorem eq_of_ascending {α : Type} {l l' : List (String × α)}
    (h : (l.map (·.1)).Pairwise fun a b => Text.utf8 a < Text.utf8 b)
    (h' : (l'.map (·.1)).Pairwise fun a b => Text.utf8 a < Text.utf8 b)
    (hmem : ∀ x, x ∈ l ↔ x ∈ l') : l = l' := by
  have : Std.Irrefl fun a b : String × α => Text.utf8 a.1 < Text.utf8 b.1 :=
    ⟨fun _ => List.lt_irrefl _⟩
  have : Std.Antisymm fun a b : String × α => Text.utf8 a.1 < Text.utf8 b.1 :=
    ⟨fun _ _ hab hba => absurd hba (List.lt_asymm hab)⟩
  rw [List.pairwise_map] at h h'
  exact h.eq_of_mem_iff h' hmem

theorem mem_resolved {subjects : List Declaration}
    (h : document.subjects.mapM (resolveSubject document.base) = .ok subjects) {d : Declaration} :
    d ∈ subjects ↔ ∃ name entry text, (name, entry) ∈ document.subjects ∧
      Resolves document.base name entry.pattern text ∧ d = .subject name text entry.allowAll := by
  simp only [mem_of_mapM_eq_ok h, resolveSubject_eq_ok_iff, Prod.exists, exists_and_left]

theorem subjectNames_resolved {subjects : List Declaration}
    (h : document.subjects.mapM (resolveSubject document.base) = .ok subjects) :
    Policy.subjectNames subjects = document.subjects.map (·.1) := by
  have hnames : subjects.map (fun d => d.subject?.map (·.1)) =
      document.subjects.map fun s => some s.1 := by
    apply map_eq_of_mapM_eq_ok h
    intro s d hd
    obtain ⟨text, -, rfl⟩ := resolveSubject_eq_ok_iff.mp hd
    rfl
  calc Policy.subjectNames subjects
    _ = (subjects.map fun d => d.subject?.map (·.1)).filterMap id := by
      rw [Policy.subjectNames, List.map_filterMap, List.filterMap_map]
      rfl
    _ = document.subjects.map (·.1) := by
      rw [hnames, List.filterMap_map, ← List.filterMap_eq_map]
      rfl

theorem filterMap_relations {γ : Type} {select : Declaration → Option γ}
    (hmay : ∀ name target, select (.mayUse name target) = none)
    (hmust : ∀ name target, select (.mustNotUse name target) = none)
    (subjects : List (String × SubjectEntry)) : (relations subjects).filterMap select = [] := by
  rw [List.filterMap_eq_nil_iff]
  intro d hd
  obtain ⟨name, entry, -, ⟨target, -, rfl⟩ | ⟨target, -, rfl⟩⟩ := mem_relations.mp hd
  · exact hmay ..
  · exact hmust ..

theorem declares_of_declarations (hascending : document.Ascending)
    (h : document.declarations = .ok declarations) : Declares document declarations := by
  obtain ⟨subjects, hsubjects, rfl⟩ := declarations_eq_ok_iff.mp h
  have hresolved {γ : Type} {select : Declaration → Option γ}
      (hselect : ∀ name text allowAll, select (.subject name text allowAll) = none) :
      subjects.filterMap select = [] := by
    rw [List.filterMap_eq_nil_iff]
    intro d hd
    obtain ⟨name, entry, text, -, -, rfl⟩ := (mem_resolved hsubjects).mp hd
    exact hselect ..
  have hnames : Policy.subjectNames (subjects ++ relations document.subjects ++
      document.externals.map .external ++
      .cycles document.cycleMode :: document.cycleExclusions.map .exclude) =
        document.subjects.map (·.1) := by
    rw [← subjectNames_resolved hsubjects, Policy.subjectNames, Policy.subjectNames,
      List.filterMap_append, List.filterMap_append, List.filterMap_append,
      filterMap_relations (fun _ _ => rfl) (fun _ _ => rfl)]
    simp [Declaration.subject?]
  constructor
  case ascending =>
    rw [hnames]
    exact hascending
  case complete =>
    intro name entry hs
    rw [hnames]
    exact List.mem_map_of_mem hs
  case subjects =>
    intro name text allowAll
    simp [mem_resolved hsubjects, mem_relations]
  case mayUse =>
    intro name target
    simp [mem_resolved hsubjects, mem_relations]
  case mustNotUse =>
    intro name target
    simp [mem_resolved hsubjects, mem_relations]
  all_goals
    rw [List.filterMap_append, List.filterMap_append, List.filterMap_append,
      hresolved (fun _ _ _ => rfl), filterMap_relations (fun _ _ => rfl) (fun _ _ => rfl)]
  case externals => simp [Function.comp_def, List.filterMap_cons, Declaration.external?]
  case mode => simp [Function.comp_def, Declaration.mode?]
  case exclusions => simp [Function.comp_def, List.filterMap_cons, Declaration.exclude?]

namespace Declares

variable {declarations' : List Declaration} {default : Access} {p : Policy}

theorem exists_declarations (hascending : document.Ascending) (h : Declares document declarations) :
    ∃ declarations', document.declarations = .ok declarations' := by
  have hall : ∀ s ∈ document.subjects, ∃ d, resolveSubject document.base s = .ok d := by
    intro s hs
    obtain ⟨⟨name, text, allowAll⟩, hmem, hname⟩ := List.mem_map.mp (h.complete s.1 s.2 hs)
    obtain ⟨entry, hentry, hresolves, -⟩ :=
      (h.subjects name text allowAll).mp (Policy.mem_declared_subjects.mp hmem)
    -- No two entries have one name, so the entry that is declared is the one at hand.
    obtain rfl : (name, entry) = s :=
      List.inj_on_of_nodup_map (nodup_of_ascending hascending) hentry hs hname
    exact ⟨_, resolveSubject_eq_ok_iff.mpr ⟨text, hresolves, rfl⟩⟩
  obtain ⟨subjects, hsubjects⟩ := exists_mapM_eq_ok_iff.mpr hall
  exact ⟨_, declarations_eq_ok_iff.mpr ⟨subjects, hsubjects, rfl⟩⟩

theorem subjects_eq (h : Declares document declarations) (h' : Declares document declarations') :
    declarations.filterMap Declaration.subject? =
      declarations'.filterMap Declaration.subject? := by
  apply eq_of_ascending h.ascending h'.ascending
  rintro ⟨name, text, allowAll⟩
  rw [Policy.mem_declared_subjects, Policy.mem_declared_subjects, h.subjects, h'.subjects]

/-- What a document declares makes one policy, however the declarations are put. -/
theorem build_eq_ok_iff (h : Declares document declarations)
    (h' : Declares document declarations') :
    Policy.build default declarations = .ok p ↔ Policy.build default declarations' = .ok p := by
  have hcompile : Policy.compileSubject declarations = Policy.compileSubject declarations' :=
    Policy.compileSubject_congr (fun s u => by rw [h.mayUse, h'.mayUse])
      fun s u => by rw [h.mustNotUse, h'.mustNotUse]
  have hrelations (r : String × String) : r ∈ declarations.filterMap Declaration.relation? ↔
      r ∈ declarations'.filterMap Declaration.relation? := by
    rw [Policy.mem_declared_relations, Policy.mem_declared_relations, h.mayUse, h.mustNotUse,
      h'.mayUse, h'.mustNotUse]
  simp only [Policy.build_eq_ok_iff, Policy.buildSubjects_eq_ok_iff, h.subjects_eq h', hcompile,
    hrelations, h.externals, h'.externals, h.exclusions, h'.exclusions, h.mode, h'.mode]

end Declares

/-- What can be wrong with a document: a relative pattern and no base, a pattern that is not valid,
or a target that is no subject. -/
inductive Flaw (document : PolicyDocument) : DocumentError → Prop
  | relativePattern {name : String} {entry : SubjectEntry} {pattern : String} :
    document.base = none → (name, entry) ∈ document.subjects → entry.pattern = some pattern →
    pattern.toList.head? = some '.' → Flaw document (.relativePattern name pattern)
  | subjectPattern {name : String} {entry : SubjectEntry} {text : String} {e : PatternError} :
    (name, entry) ∈ document.subjects → Resolves document.base name entry.pattern text →
    Pattern.compile text = .error e → Flaw document (.policy (.pattern e))
  | otherPattern {text : String} {e : PatternError} :
    text ∈ document.externals ++ document.cycleExclusions → Pattern.compile text = .error e →
    Flaw document (.policy (.pattern e))
  | unknownSubject {name : String} {entry : SubjectEntry} {target : String} :
    (name, entry) ∈ document.subjects → target ∈ entry.mayUse ++ entry.mustNotUse →
    target ∉ document.subjects.map (·.1) → Flaw document (.policy (.unknownSubject target))

theorem Declares.flaw_of_mem_problems (h : Declares document declarations) {e : PolicyError}
    (he : e ∈ Policy.problems declarations) : document.Flaw (.policy e) := by
  have hnodup : (Policy.subjectNames declarations).Nodup := nodup_of_ascending h.ascending
  have hsource {s u : String} (hr : (s, u) ∈ declarations.filterMap Declaration.relation?) :
      ∃ entry, (s, entry) ∈ document.subjects ∧ u ∈ entry.mayUse ++ entry.mustNotUse := by
    simp only [Policy.mem_declared_relations, h.mayUse, h.mustNotUse] at hr
    simp only [List.mem_append, and_or_left, exists_or]
    exact hr
  rw [Policy.problems, Policy.subjectProblems_of_nodup hnodup fun _ _ => List.not_mem_nil,
    h.externals, h.exclusions] at he
  simp only [List.mem_append, List.mem_flatMap, Policy.relationProblems,
    Policy.mem_patternProblems, Policy.mem_nameProblems] at he
  obtain ((⟨⟨name, text, allowAll⟩, hmem, e, hcompile, rfl⟩ |
    ⟨⟨s, u⟩, hr, ⟨hs, rfl⟩ | ⟨hu, rfl⟩⟩) | ⟨text, hmem, e, hcompile, rfl⟩) |
    ⟨text, hmem, e, hcompile, rfl⟩ := he
  · obtain ⟨entry, hentry, hresolves, -⟩ :=
      (h.subjects _ _ _).mp (Policy.mem_declared_subjects.mp hmem)
    exact .subjectPattern hentry hresolves hcompile
  -- The source of a relation is the subject under whose name it stands.
  · obtain ⟨entry, hentry, -⟩ := hsource hr
    exact absurd (h.complete s entry hentry) hs
  · obtain ⟨entry, hentry, htarget⟩ := hsource hr
    refine .unknownSubject hentry htarget fun hmem => hu ?_
    obtain ⟨⟨_, entry'⟩, hentry', rfl⟩ := List.mem_map.mp hmem
    exact h.complete _ entry' hentry'
  · exact .otherPattern (List.mem_append_left _ hmem) hcompile
  · exact .otherPattern (List.mem_append_right _ hmem) hcompile

theorem policy_eq_ok_iff {p : Policy} : document.policy = .ok p ↔
    ∃ declarations, document.declarations = .ok declarations ∧
      Policy.build document.default declarations = .ok p := by
  rw [policy, bind_eq_ok_iff]
  refine exists_congr fun declarations => and_congr_right fun _ => ?_
  cases Policy.build document.default declarations <;> simp [Except.mapError]

theorem flaw_of_policy_eq_error (hascending : document.Ascending) {e : DocumentError}
    (h : document.policy = .error e) : document.Flaw e := by
  rcases bind_eq_error_iff.mp h with h | ⟨declarations, hdeclarations, h⟩
  · obtain ⟨hbase, name, entry, text, hentry, hpattern, hdot, rfl⟩ := declarations_eq_error h
    exact .relativePattern hbase hentry hpattern hdot
  · have hdeclares := declares_of_declarations hascending hdeclarations
    cases hbuild : Policy.build document.default declarations with
    | ok p => simp [hbuild, Except.mapError] at h
    | error e' =>
      rw [hbuild] at h
      cases h
      exact hdeclares.flaw_of_mem_problems
        (List.mem_of_mem_head? ((Policy.reports_build e').mp hbuild))

theorem ascending_read (value : Json) : (read value).Ascending := by
  rw [Ascending, read]
  cases part value "subjects" with
  | object fields =>
    rw [readSubjects, List.map_map]
    apply List.pairwise_map.mpr
    exact Std.ExtTreeMap.ordered_keys_toList.imp fun hlt =>
      Text.lt_iff_utf8_lt.mp (compare_lt_iff_lt.mp hlt)
  | _ => exact .nil

theorem ofJson_eq_policy {value : Json} (h : Conforms value) :
    Policy.ofJson value = (read value).policy := by
  simp only [Policy.ofJson, check_schema_iff.mpr h, decodes_document value h]

/-- The schema accepts exactly the values that meet its keywords, and decoding succeeds on them.
Then either a pattern is relative without a base, or the policy is the one of all declarations that
say what the document does, and an error is about a pattern or a target. The order of keys has no
influence. -/
theorem ofJson_agrees_with_schema :
    (∀ value, schema.check value = [] ↔ Conforms value) ∧
    (∀ text value, Json.ofText text = .ok value → Policy.ofText text = Policy.ofJson value) ∧
    ∀ value, Conforms value →
      ofJson? value = some (read value) ∧
      (∀ e, Policy.ofJson value = .error e → (read value).Flaw e) ∧
      ((∃ declarations, Declares (read value) declarations) ∨
        ∃ name pattern, Policy.ofJson value = .error (.relativePattern name pattern)) ∧
      (∀ declarations, Declares (read value) declarations → ∀ p,
        Policy.ofJson value = .ok p ↔
          Policy.build (read value).default declarations = .ok p) ∧
      ∀ value', Json.Alike value value' →
        Conforms value' ∧ Policy.ofJson value' = Policy.ofJson value := by
  refine ⟨fun value => check_schema_iff, fun text value htext => ?_, fun value h => ?_⟩
  · rw [Policy.ofText, htext]
    rfl
  have hascending := ascending_read value
  rw [ofJson_eq_policy h]
  refine ⟨decodes_document value h, fun e => flaw_of_policy_eq_error hascending, ?_, ?_, ?_⟩
  · cases hdeclarations : (read value).declarations with
    | ok declarations =>
      exact .inl ⟨declarations, declares_of_declarations hascending hdeclarations⟩
    | error e =>
      obtain ⟨-, name, -, pattern, -, -, -, rfl⟩ := declarations_eq_error hdeclarations
      refine .inr ⟨name, pattern, ?_⟩
      rw [policy, hdeclarations]
      rfl
  · intro declarations hdeclares p
    obtain ⟨declarations', h'⟩ := hdeclares.exists_declarations hascending
    have hdeclares' := declares_of_declarations hascending h'
    rw [policy_eq_ok_iff, hdeclares.build_eq_ok_iff hdeclares', h']
    simp
  · intro value' halike
    have h' : Conforms value' := orderFree_conforms value value' halike h
    rw [ofJson_eq_policy h', orderBlind_read value value' halike]
    exact ⟨h', rfl⟩

/-- An entry and the same entry with its keys the other way round. -/
def webEntry : Json :=
  .object [("may_use", .array [.text "core"]), ("pattern", .text ".web")]

def webEntry' : Json :=
  .object [("pattern", .text ".web"), ("may_use", .array [.text "core"])]

/-- Two subjects, the later one first, and after them the base. -/
def layered : Json :=
  .object [("subjects", .object [("web", webEntry), ("core", .object [])]), ("base", .text "app")]

def layered' : Json :=
  .object [("base", .text "app"), ("subjects", .object [("core", .object []), ("web", webEntry')])]

theorem alike_pair {k l : String} {a a' b b' : Json} (hkeys : k ≠ l) (ha : Json.Alike a a')
    (hb : Json.Alike b b') :
    Json.Alike (.object [(k, a), (l, b)]) (.object [(l, b'), (k, a')]) := by
  refine .object (by simpa using hkeys) (List.Perm.swap ..) fun key x y hx hy => ?_
  simp only [List.mem_cons, Prod.mk.injEq, List.not_mem_nil, or_false] at hx hy
  rcases hx with ⟨rfl, rfl⟩ | ⟨rfl, rfl⟩
  · rcases hy with ⟨hkey, -⟩ | ⟨-, rfl⟩
    · exact absurd hkey hkeys
    · exact ha
  · rcases hy with ⟨-, rfl⟩ | ⟨hkey, -⟩
    · exact hb
    · exact absurd hkey.symm hkeys

theorem alike_layered : Json.Alike layered layered' := by
  have hweb : Json.Alike webEntry webEntry' :=
    alike_pair (by decide) (.array (.cons (.text _) .nil)) (.text _)
  have hcore : Json.Alike (.object []) (.object []) := .object (by simp) (by simp) (by simp)
  exact alike_pair (by decide) (alike_pair (by decide) hweb hcore) (.text _)

theorem ofJson_agrees_with_schema_layered :
    Conforms layered ∧ ∃ p declarations, Policy.ofJson layered = .ok p ∧
      Declares (read layered) declarations ∧ Policy.build .deny declarations = .ok p ∧
      p.subjects.map (fun s => (s.name, s.pattern.text)) =
        [("core", "app.core"), ("web", "app.web")] ∧
      Policy.ofJson layered' = .ok p := by
  obtain ⟨hschema, -, hconforms⟩ := ofJson_agrees_with_schema
  have h : Conforms layered := (hschema layered).mp (by rfl)
  obtain ⟨-, -, hdeclares, hbuild, halike⟩ := hconforms layered h
  have hsubjects : (Policy.ofJson layered).toOption.map
      (·.subjects.map fun s => (s.name, s.pattern.text)) =
        some [("core", "app.core"), ("web", "app.web")] := by
    decide
  cases hp : Policy.ofJson layered with
  | error e =>
    rw [hp] at hsubjects
    cases hsubjects
  | ok p =>
    rw [hp] at hsubjects hdeclares
    obtain ⟨declarations, hdeclares⟩ : ∃ declarations, Declares (read layered) declarations := by
      simpa using hdeclares
    refine ⟨h, p, declarations, rfl, hdeclares, (hbuild _ hdeclares p).mp hp,
      Option.some.inj hsubjects, ?_⟩
    rw [(halike layered' alike_layered).2, hp]

end ClassDeps.PolicyDocument
