import ClassDeps.Proofs.Scan.Coverage

namespace ClassDeps.Scan.Unpacked

/-- The entry at position `i`, with the scan when its turn comes. -/
def turnIn (location : String) (index i : Nat) :
    List (EntryTree × Nat) → Scan → Option (EntryTree × Scan)
  | [], _ => none
  | (e, j) :: rest, s =>
    if j = i then some (e, s) else turnIn location index i rest (entry e location index s)

/-- The entry at position `i` of an archive, with the scan when its turn comes. In an archive that
cannot be read no entry has a turn. -/
def turn? (es : List EntryTree) (location : String) (index : Nat) (s : Scan) (i : Nat) :
    Option (EntryTree × Scan) :=
  match es.findSome? (·.blocked) with
  | some _ => none
  | none => turnIn location index i (entryTurns es) s

/-- What an archive inside the one at `location` becomes. -/
def entryArtifact (e : EntryTree) (location : String) (index length : Nat) : Artifact :=
  ⟨location ++ "!" ++ e.name, location ++ "!" ++ e.name, length, some index, false⟩

/-- The failure that the scan of an entry records of the class at `place` in it: the one that the
turn of the class adds. The entry itself is at `[]`. -/
def entryRefusal? : EntryTree → String → Nat → Scan → List Nat → Option ScanFailure
  | e, location, index, s, [] =>
    if Path.isArchive e.name then none
    else (entry e location index s).failures[s.failures.length]?
  | e, location, index, s, i :: place =>
    if Path.isArchive e.name then
      match e.content, e.nested with
      | .ok data, .ok es =>
        (turn? es (location ++ "!" ++ e.name) s.artifacts.length
          (s.addArtifact (entryArtifact e location index data.size)) i).bind fun x =>
            entryRefusal? x.1 (location ++ "!" ++ e.name) s.artifacts.length x.2 place
      | _, _ => none
    else none

/-- The failure of its own that the scan of an archive records of the class entry at `place`. -/
def refusal? (es : List EntryTree) (location : String) (index : Nat) (s : Scan) :
    List Nat → Option ScanFailure
  | [] => none
  | i :: place =>
    (turn? es location index s i).bind fun x => entryRefusal? x.1 location index x.2 place

/-- What an entry holds, if it can be read as an archive. -/
def contentsOf (e : EntryTree) : List EntryTree :=
  match e.nested with
  | .ok es => es
  | .error _ => []

/-- The location of a place in the archive at `location`, which is at `[]`. -/
def locationOf? : List EntryTree → String → List Nat → Option String
  | _, location, [] => some location
  | es, location, i :: place =>
    es[i]?.bind fun e => locationOf? (contentsOf e) (location ++ "!" ++ e.name) place

section

variable {es : List EntryTree} {e : EntryTree} {index i : Nat} {s st : Scan}

theorem locationOf?_cons (h : es[i]? = some e) (location : String) (place : List Nat) :
    locationOf? es location (i :: place) =
      locationOf? (contentsOf e) (location ++ "!" ++ e.name) place := by
  rw [locationOf?, h, Option.bind_some]

theorem turnIn_eq_some {location : String} {order : List (EntryTree × Nat)}
    (h : turnIn location index i order s = some (e, st)) : (e, i) ∈ order := by
  induction order generalizing s with
  | nil => cases h
  | cons p rest ih =>
    rw [turnIn] at h
    split at h
    case isTrue hp =>
      cases h
      rw [← hp]
      exact List.mem_cons_self
    case isFalse => exact List.mem_cons_of_mem _ (ih h)

theorem turn?_eq_some {location : String} (h : turn? es location index s i = some (e, st)) :
    es[i]? = some e := by
  rw [turn?] at h
  split at h
  · cases h
  · exact (mem_turns.mp (turnIn_eq_some h)).1

/-- Nothing is in a class. -/
theorem entryRefusal?_class (harchive : Path.isArchive e.name = false) (location : String)
    (index : Nat) (s : Scan) (i : Nat) (place : List Nat) :
    entryRefusal? e location index s (i :: place) = none := by
  rw [entryRefusal?, harchive]
  rfl

/-- No class is found in an archive that cannot be read. -/
theorem entryRefusal?_unreadable (harchive : Path.isArchive e.name = true)
    {fault : ArchiveFault} (h : e.content = .error fault ∨ e.nested = .error fault)
    (location : String) (index : Nat) (s : Scan) (place : List Nat) :
    entryRefusal? e location index s place = none := by
  cases place with
  | nil =>
    rw [entryRefusal?, harchive]
    rfl
  | cons i place =>
    rw [entryRefusal?, harchive]
    rcases h with h | h
    · simp [h]
    · cases e.content <;> simp [h]

theorem entryRefusal?_archive (harchive : Path.isArchive e.name = true) {data : ByteArray}
    (hcontent : e.content = .ok data) (hnested : e.nested = .ok es) (location : String)
    (index : Nat) (s : Scan) :
    entryRefusal? e location index s =
      refusal? es (location ++ "!" ++ e.name) s.artifacts.length
        (s.addArtifact (entryArtifact e location index data.size)) := by
  funext place
  cases place with
  | nil =>
    rw [entryRefusal?, harchive]
    rfl
  | cons i place =>
    rw [entryRefusal?, harchive, hcontent, hnested]
    rfl

theorem refusal?_of_blocked {fault : ArchiveFault}
    (h : es.findSome? (·.blocked) = some fault) (location : String) (index : Nat)
    (s : Scan) (place : List Nat) : refusal? es location index s place = none := by
  cases place with
  | nil => rfl
  | cons i place => rw [refusal?, turn?, h, Option.bind_none]

theorem refusal?_cons (h : es.findSome? (·.blocked) = none) (location : String)
    (index : Nat) (s : Scan) (i : Nat) (place : List Nat) :
    refusal? es location index s (i :: place) =
      (turnIn location index i (entryTurns es) s).bind fun x =>
        entryRefusal? x.1 location index x.2 place := by
  rw [refusal?, turn?, h]

theorem archive_of_entryRefusal? {location : String} {place : List Nat}
    (h : (entryRefusal? e location index s place).isSome)
    (hself : ¬(entryRefusal? e location index s []).isSome) :
    ∃ data es, Path.isArchive e.name = true ∧ e.content = .ok data ∧ e.nested = .ok es := by
  cases harchive : Path.isArchive e.name with
  | false =>
    cases place with
    | nil => exact absurd h hself
    | cons i place =>
      rw [entryRefusal?_class harchive] at h
      cases h
  | true =>
    cases hcontent : e.content with
    | error fault =>
      rw [entryRefusal?_unreadable harchive (.inl hcontent)] at h
      cases h
    | ok data =>
      cases hnested : e.nested with
      | error fault =>
        rw [entryRefusal?_unreadable harchive (.inr hnested)] at h
        cases h
      | ok es => exact ⟨data, es, rfl, rfl, rfl⟩

end

/-- The entries that are left of an archive, by position. -/
def leftOf (left : Nat → Option EntryTree) (es : List EntryTree) : List EntryTree :=
  es.zipIdx.filterMap fun p => left p.2

/-- What is left of an entry without what is gone: nothing if it is gone itself, the same entry if
nothing in it is, and otherwise an archive of what is left in it, stored as any bytes. -/
inductive Remains : (List Nat → Prop) → EntryTree → Option EntryTree → Prop
  | removed {gone e} : gone [] → Remains gone e none
  | kept {gone e} : (∀ place, ¬gone place) → Remains gone e (some e)
  | rewritten {gone e es left place stored} (data : ByteArray) : ¬gone [] → gone place →
      e.content = .ok stored → e.nested = .ok es →
      (∀ i e', es[i]? = some e' → Remains (fun place => gone (i :: place)) e' (left i)) →
      Remains gone e (some { e with opened := .ok (.ok data), nested := .ok (leftOf left es) })

/-- What is left of the entries of an archive. -/
def Without (gone : List Nat → Prop) (es es' : List EntryTree) : Prop :=
  ∃ left, (∀ i e, es[i]? = some e → Remains (fun place => gone (i :: place)) e (left i)) ∧
    es' = leftOf left es

theorem leftOf_eq_self {left : Nat → Option EntryTree} {es : List EntryTree}
    (h : ∀ i e, es[i]? = some e → left i = some e) : leftOf left es = es := by
  have hleft : leftOf left es = es.zipIdx.filterMap fun p => some p.1 := by
    apply List.filterMap_congr
    intro p hp
    exact h p.2 p.1 (List.mem_zipIdx_iff_getElem?.mp hp)
  rw [hleft, List.filterMap_eq_map', List.zipIdx_map_fst]

namespace Remains

variable {gone : List Nat → Prop} {e e' : EntryTree} {r : Option EntryTree}

theorem eq_none (h : Remains gone e r) (hgone : gone []) : r = none := by
  cases h with
  | removed => rfl
  | kept hnone => exact absurd hgone (hnone [])
  | rewritten _ hself => exact absurd hgone hself

theorem eq_some (h : Remains gone e r) (hnone : ∀ place, ¬gone place) : r = some e := by
  cases h with
  | removed hgone => exact absurd hgone (hnone [])
  | kept => rfl
  | rewritten _ _ hgone => exact absurd hgone (hnone _)

theorem name_eq (h : Remains gone e (some e')) : e'.name = e.name := by
  cases h <;> rfl

theorem blocked_eq (h : Remains gone e (some e')) : e'.blocked = e.blocked := by
  cases h with
  | kept => rfl
  | rewritten _ _ _ hcontent => exact (ArchiveEntry.blocked_of_content hcontent).symm

/-- An archive that is not gone itself is an archive of what is left in it, and if nothing in it is
gone its bytes are the same. -/
theorem archive_cases (h : Remains gone e r) (hself : ¬gone []) {data : ByteArray}
    {es : List EntryTree} (hcontent : e.content = .ok data) (hnested : e.nested = .ok es) :
    ∃ data' left,
      r = some { e with opened := .ok (.ok data'), nested := .ok (leftOf left es) } ∧
      (∀ i e', es[i]? = some e' → Remains (fun place => gone (i :: place)) e' (left i)) ∧
      ((∀ place, ¬gone place) → data' = data) := by
  cases h with
  | removed hgone => exact absurd hgone hself
  | kept hnone =>
    refine ⟨data, fun i => es[i]?, ?_, ?_, fun _ => rfl⟩
    · rw [leftOf_eq_self fun _ _ => id, ← hnested, ← ArchiveEntry.opened_of_content hcontent]
      cases e
      rfl
    · intro i e' he'
      show Remains _ e' es[i]?
      rw [he']
      exact .kept fun place => hnone (i :: place)
  | rewritten _ _ hgone _ hnested' hleft =>
    cases hnested'.symm.trans hnested
    exact ⟨_, _, rfl, hleft, fun hnone => absurd hgone (hnone _)⟩

end Remains

/-- What is refused can be left out of an archive whose entries it can be left out of. -/
theorem exists_left {es : List EntryTree} (location : String) (index : Nat) (s : Scan)
    (hes : ∀ e ∈ es, ∀ location index s, ∃ r,
      Remains (fun place => (entryRefusal? e location index s place).isSome) e r) :
    ∃ left : Nat → Option EntryTree, ∀ i e, es[i]? = some e →
      Remains (fun place => (refusal? es location index s (i :: place)).isSome) e (left i) := by
  have hentry : ∀ i, ∃ r, ∀ e, es[i]? = some e →
      Remains (fun place => (refusal? es location index s (i :: place)).isSome) e r := by
    intro i
    cases hturn : turn? es location index s i with
    | none =>
      refine ⟨es[i]?, fun e he => ?_⟩
      rw [he]
      refine .kept fun place => ?_
      rw [refusal?, hturn]
      exact Bool.false_ne_true
    | some x =>
      obtain ⟨e, st⟩ := x
      have he : es[i]? = some e := turn?_eq_some hturn
      obtain ⟨r, hr⟩ := hes e (List.mem_of_getElem? he) location index st
      refine ⟨r, fun e' he' => ?_⟩
      cases he.symm.trans he'
      simp only [refusal?, hturn, Option.bind_some]
      exact hr
  exact Classical.skolem.mp hentry

/-- What is refused can be left out of every entry. -/
theorem exists_remains (e : EntryTree) : ∀ location index s, ∃ r,
    Remains (fun place => (entryRefusal? e location index s place).isSome) e r := by
  induction e using EntryTree.nested_induction with
  | h e ih =>
  intro location index s
  by_cases hself : (entryRefusal? e location index s []).isSome
  · exact ⟨none, .removed hself⟩
  by_cases hnone : ∀ place, ¬(entryRefusal? e location index s place).isSome
  · exact ⟨some e, .kept hnone⟩
  -- Something inside is refused, so that the entry is an archive that was opened.
  obtain ⟨place, hplace⟩ := not_forall_not.mp hnone
  obtain ⟨data, es, harchive, hcontent, hnested⟩ := archive_of_entryRefusal? hplace hself
  rw [entryRefusal?_archive harchive hcontent hnested] at hplace hself ⊢
  obtain ⟨left, hleft⟩ := exists_left (location ++ "!" ++ e.name) s.artifacts.length
    (s.addArtifact (entryArtifact e location index data.size)) (ih es hnested)
  exact ⟨_, .rewritten data hself hplace hcontent hnested hleft⟩

end ClassDeps.Scan.Unpacked
