import ClassDeps.Proofs.Scan.Refusal

namespace ClassDeps.Scan

namespace Unpacked

section

variable {medium : Medium} {es : List EntryTree} {location : String} {index : Nat} {s : Scan}

/-- What is left of an archive is scanned in the same turns. -/
theorem archive_leftOf_eq_foldl {left : Nat → Option EntryTree}
    (h : es.findSome? (·.blocked) = none)
    (hleft : ∀ i e e', es[i]? = some e → left i = some e' →
      e'.name = e.name ∧ e'.blocked = e.blocked) :
    archive medium (leftOf left es) location index s =
      ((entryTurns es).filterMap fun p => left p.2).foldl
        (fun s e => entry e location index s) s := by
  have hblocked : (leftOf left es).findSome? (·.blocked) = none := by
    rw [List.findSome?_eq_none_iff] at h ⊢
    intro e' he'
    obtain ⟨⟨e, i⟩, hp, he'⟩ := List.mem_filterMap.mp he'
    have he := List.mem_zipIdx_iff_getElem?.mp hp
    rw [(hleft i e e' he he').2]
    exact h e (List.mem_of_getElem? he)
  have hturns : (entryTurns es).filterMap (fun p => left p.2) =
      (entryTurns (leftOf left es)).map Prod.fst := by
    rw [entryTurns, entryTurns, map_fst_turns]
    apply filterMap_turns
    · intro p hp e' he'
      exact (hleft p.2 p.1 e' (List.mem_zipIdx_iff_getElem?.mp hp) he').1
    · intro p hp e' he'
      rw [(hleft p.2 p.1 e' (List.mem_zipIdx_iff_getElem?.mp hp) he').1]
  rw [archive_eq_foldl hblocked, hturns, List.foldl_map]

end

/-- An archive inside another one becomes an artifact and is scanned like any archive. -/
theorem entry_archive_eq {e : EntryTree} (harchive : Path.isArchive e.name = true)
    {data : ByteArray} {es : List EntryTree} (hcontent : e.content = .ok data)
    (hnested : e.nested = .ok es) (location : String) (index : Nat) (s : Scan) :
    entry e location index s = archive .memory es (location ++ "!" ++ e.name) s.artifacts.length
      (s.addArtifact (entryArtifact e location index data.size)) := by
  rw [entry_eq, hcontent]
  simp only [harchive, if_true, hnested, nestedArchive]
  rfl

/-- A class entry is refused or defined, and only the model decides it. -/
theorem entry_class_cases {e : EntryTree} (h : Path.isArchive e.name = false)
    (location : String) (index : Nat) (m : Model) :
    (∃ message, ∀ s : Scan, s.model = m →
      entry e location index s = s.fail (location ++ "!" ++ e.name) message) ∨
    ∃ m', ∀ s : Scan, s.model = m →
      entry e location index s = { s with model := m', classCount := s.classCount + 1 } := by
  simp only [entry_eq, h, Bool.false_eq_true, if_false]
  cases hcontent : e.content with
  | error fault => exact .inl ⟨_, fun _ _ => rfl⟩
  | ok data =>
    rcases himport : m.importClass data.data.toList (location ++ "!" ++ e.name) with
      ⟨cause | id, m'⟩
    · refine .inl ⟨cause.message, ?_⟩
      rintro s rfl
      rw [(Model.importClass_eq_error_iff.mp himport).1] at himport
      simp only [importClass, himport]
      rfl
    · refine .inr ⟨m', ?_⟩
      rintro s rfl
      simp only [importClass, himport]
      rfl

/-- Scans that go on in the same way, whatever they recorded. -/
structure Alike (s s' : Scan) : Prop where
  model : s'.model = s.model
  classCount : s'.classCount = s.classCount
  artifacts : s'.artifacts.length = s.artifacts.length

/-- An archive that two scans open, with its length in the second one. -/
structure Opened where
  place : List Nat
  artifact : Artifact
  length : Nat

/-- The archive as the second scan has it. -/
def Opened.rewritten (o : Opened) : Artifact :=
  { o.artifact with length := o.length }

/-- One scan goes from `s` to `t`, and another one that meets nothing refused from `s'` to `t'`. On
their way they fail at some places `within` and open some archives. -/
structure Beside (locate : List Nat → Option String) (refusal : List Nat → Option ScanFailure)
    (within : List Nat → Prop) (failed : List (List Nat × ScanFailure)) (opened : List Opened)
    (s t s' t' : Scan) : Prop where
  model : t'.model = t.model
  classCount : t'.classCount = t.classCount
  failures : t.failures = s.failures ++ failed.map Prod.snd
  failures' : t'.failures =
    s'.failures ++ (failed.filter fun x => (refusal x.1).isNone).map Prod.snd
  nodup : (failed.map Prod.fst).Nodup
  inside : ∀ x ∈ failed, within x.1
  failedAt : ∀ x ∈ failed, locate x.1 = some x.2.location
  refused : ∀ place f, within place → refusal place = some f → (place, f) ∈ failed
  artifacts : t.artifacts = s.artifacts ++ opened.map Opened.artifact
  artifacts' : t'.artifacts = s'.artifacts ++ opened.map Opened.rewritten
  openedAt : ∀ o ∈ opened, locate o.place = some o.artifact.location
  length : ∀ o ∈ opened, (∀ place, refusal (o.place ++ place) = none) →
    o.length = o.artifact.length

namespace Beside

variable {locate : List Nat → Option String} {refusal : List Nat → Option ScanFailure}
  {within within' : List Nat → Prop}
  {failed failed' : List (List Nat × ScanFailure)} {opened opened' : List Opened}
  {s t u s' t' u' : Scan}

theorem alike (h : Beside locate refusal within failed opened s t s' t') (hs : Alike s s') :
    Alike t t' where
  model := h.model
  classCount := h.classCount
  artifacts := by
    rw [h.artifacts, h.artifacts', List.length_append, List.length_append, List.length_map,
      List.length_map, hs.artifacts]

/-- Nothing is recorded. -/
theorem quiet (hmodel : t'.model = t.model) (hcount : t'.classCount = t.classCount)
    (hfailures : t.failures = s.failures) (hfailures' : t'.failures = s'.failures)
    (hartifacts : t.artifacts = s.artifacts) (hartifacts' : t'.artifacts = s'.artifacts)
    (hnone : ∀ place, within place → refusal place = none) :
    Beside locate refusal within [] [] s t s' t' where
  model := hmodel
  classCount := hcount
  failures := hfailures.trans (List.append_nil _).symm
  failures' := hfailures'.trans (List.append_nil _).symm
  nodup := List.nodup_nil
  inside := List.forall_mem_nil _
  failedAt := List.forall_mem_nil _
  refused place f hplace hf := by
    rw [hnone place hplace] at hf
    cases hf
  artifacts := hartifacts.trans (List.append_nil _).symm
  artifacts' := hartifacts'.trans (List.append_nil _).symm
  openedAt := List.forall_mem_nil _
  length := List.forall_mem_nil _

theorem trans (h : Beside locate refusal within failed opened s t s' t')
    (h' : Beside locate refusal within' failed' opened' t u t' u')
    (hdisjoint : ∀ place, within place → ¬within' place) :
    Beside locate refusal (fun place => within place ∨ within' place) (failed ++ failed')
      (opened ++ opened') s u s' u' where
  model := h'.model
  classCount := h'.classCount
  failures := by rw [h'.failures, h.failures, List.map_append, List.append_assoc]
  failures' := by
    rw [h'.failures', h.failures', List.filter_append, List.map_append, List.append_assoc]
  nodup := by
    rw [List.map_append]
    refine h.nodup.append h'.nodup ?_
    intro place hplace hplace'
    obtain ⟨x, hx, rfl⟩ := List.mem_map.mp hplace
    obtain ⟨y, hy, hxy⟩ := List.mem_map.mp hplace'
    exact hdisjoint x.1 (h.inside x hx) (hxy ▸ h'.inside y hy)
  inside x hx := (List.mem_append.mp hx).imp (h.inside x) (h'.inside x)
  failedAt x hx := (List.mem_append.mp hx).elim (h.failedAt x) (h'.failedAt x)
  refused place f hplace hf := by
    rw [List.mem_append]
    exact hplace.imp (h.refused place f · hf) (h'.refused place f · hf)
  artifacts := by rw [h'.artifacts, h.artifacts, List.map_append, List.append_assoc]
  artifacts' := by rw [h'.artifacts', h.artifacts', List.map_append, List.append_assoc]
  openedAt o ho := (List.mem_append.mp ho).elim (h.openedAt o) (h'.openedAt o)
  length o ho := (List.mem_append.mp ho).elim (h.length o) (h'.length o)

/-- What happens in one entry, as seen from the archive. -/
theorem under {i : Nat}
    (h : Beside (fun place => locate (i :: place)) (fun place => refusal (i :: place))
      (fun _ => True) failed opened s t s' t') :
    Beside locate refusal (fun place => place.head? = some i)
      (failed.map fun x => (i :: x.1, x.2))
      (opened.map fun o => { o with place := i :: o.place }) s t s' t' where
  model := h.model
  classCount := h.classCount
  failures := by
    rw [h.failures, List.map_map]
    rfl
  failures' := by
    rw [h.failures', List.filter_map, List.map_map]
    rfl
  nodup := by
    have hplaces : (failed.map fun x => (i :: x.1, x.2)).map Prod.fst =
        (failed.map Prod.fst).map (List.cons i) := by
      rw [List.map_map, List.map_map]
      rfl
    rw [hplaces]
    exact h.nodup.map List.cons_injective
  inside := by
    intro x hx
    obtain ⟨y, -, rfl⟩ := List.mem_map.mp hx
    rfl
  failedAt := by
    intro _ hx
    obtain ⟨y, hy, rfl⟩ := List.mem_map.mp hx
    exact h.failedAt y hy
  refused := by
    rintro (_ | ⟨j, place⟩) f hplace hf
    · cases hplace
    · cases hplace
      exact List.mem_map.mpr ⟨(place, f), h.refused place f trivial hf, rfl⟩
  artifacts := by
    rw [h.artifacts, List.map_map]
    rfl
  artifacts' := by
    rw [h.artifacts', List.map_map]
    rfl
  openedAt := by
    intro _ ho
    obtain ⟨o, ho', rfl⟩ := List.mem_map.mp ho
    exact h.openedAt o ho'
  length := by
    intro _ ho
    obtain ⟨o, ho', rfl⟩ := List.mem_map.mp ho
    exact h.length o ho'

/-- Both scans fail alike, at the place itself. -/
theorem failed_both {location : String} (hs : Alike s s')
    (hnone : ∀ place, refusal place = none) (hlocate : locate [] = some location)
    (message : String) :
    Beside locate refusal (fun _ => True) [([], ⟨location, message⟩)] []
      s (s.fail location message) s' (s'.fail location message) where
  model := hs.model
  classCount := hs.classCount
  failures := rfl
  failures' := by simp [fail, hnone]
  nodup := List.nodup_singleton _
  inside _ _ := trivial
  failedAt := List.forall_mem_singleton.mpr hlocate
  refused place f _ hf := by
    rw [hnone] at hf
    cases hf
  artifacts := (List.append_nil _).symm
  artifacts' := (List.append_nil _).symm
  openedAt := List.forall_mem_nil _
  length := List.forall_mem_nil _

/-- A class is refused. The second scan does not meet it. -/
theorem refused_once {f : ScanFailure} (hs : Alike s s')
    (hlocate : locate [] = some f.location) (hself : refusal [] = some f)
    (hbelow : ∀ i place, refusal (i :: place) = none) :
    Beside locate refusal (fun _ => True) [([], f)] [] s (s.fail f.location f.message) s' s' where
  model := hs.model
  classCount := hs.classCount
  failures := rfl
  failures' := by simp [hself]
  nodup := List.nodup_singleton _
  inside _ _ := trivial
  failedAt := List.forall_mem_singleton.mpr hlocate
  refused := by
    rintro (_ | ⟨i, place⟩) g _ hg
    · cases hself.symm.trans hg
      exact List.mem_singleton_self _
    · cases (hbelow i place).symm.trans hg
  artifacts := (List.append_nil _).symm
  artifacts' := (List.append_nil _).symm
  openedAt := List.forall_mem_nil _
  length := List.forall_mem_nil _

/-- An archive is opened first. -/
theorem opened_first {artifact : Artifact} {length : Nat}
    (h : Beside locate refusal within failed opened (s.addArtifact artifact) t
      (s'.addArtifact { artifact with length := length }) t')
    (hlocate : locate [] = some artifact.location)
    (hlength : (∀ place, refusal place = none) → length = artifact.length) :
    Beside locate refusal within failed (⟨[], artifact, length⟩ :: opened) s t s' t' where
  model := h.model
  classCount := h.classCount
  failures := h.failures
  failures' := h.failures'
  nodup := h.nodup
  inside := h.inside
  failedAt := h.failedAt
  refused := h.refused
  artifacts := by
    rw [h.artifacts, addArtifact, List.append_assoc]
    rfl
  artifacts' := by
    rw [h.artifacts', addArtifact, List.append_assoc]
    rfl
  openedAt := List.forall_mem_cons.mpr ⟨hlocate, h.openedAt⟩
  length := List.forall_mem_cons.mpr ⟨hlength, h.length⟩

end Beside

/-- Whenever the entry is scanned, what is left of it without what is refused fares as it does. -/
def Separable (e : EntryTree) : Prop :=
  ∀ (location : String) (index : Nat) (s s' : Scan) (r : Option EntryTree), Alike s s' →
    Remains (fun place => (entryRefusal? e location index s place).isSome) e r →
    ∃ failed opened, Beside (locationOf? (contentsOf e) (location ++ "!" ++ e.name))
      (entryRefusal? e location index s) (fun _ => True) failed opened
      s (entry e location index s) s' (r.elim s' fun e' => entry e' location index s')

/-- Entries that are scanned in turn. -/
theorem foldl_beside {location : String} {index : Nat} {left : Nat → Option EntryTree}
    {locate : List Nat → Option String} {refusal : List Nat → Option ScanFailure}
    {order : List (EntryTree × Nat)} {s s' : Scan} (hnodup : (order.map Prod.snd).Nodup)
    (hs : Alike s s') (hseparable : ∀ p ∈ order, Separable p.1)
    (hlocate : ∀ p ∈ order, ∀ place, locate (p.2 :: place) =
      locationOf? (contentsOf p.1) (location ++ "!" ++ p.1.name) place)
    (hrefusal : ∀ p ∈ order, ∀ place, refusal (p.2 :: place) =
      (turnIn location index p.2 order s).bind fun x => entryRefusal? x.1 location index x.2 place)
    (hleft : ∀ p ∈ order, Remains (fun place => (refusal (p.2 :: place)).isSome) p.1 (left p.2)) :
    ∃ failed opened, Beside locate refusal (fun place => ∃ p ∈ order, place.head? = some p.2)
      failed opened s (order.foldl (fun s p => entry p.1 location index s) s)
      s' ((order.filterMap fun p => left p.2).foldl (fun s e => entry e location index s) s') := by
  induction order generalizing s s' with
  | nil =>
    refine ⟨[], [], .quiet hs.model hs.classCount rfl rfl rfl rfl ?_⟩
    rintro place ⟨p, hp, -⟩
    cases hp
  | cons p rest ih =>
    obtain ⟨hnew, hnodup⟩ := List.nodup_cons.mp hnodup
    have hfirst : (fun place => refusal (p.2 :: place)) = entryRefusal? p.1 location index s := by
      funext place
      rw [hrefusal p List.mem_cons_self, turnIn, if_pos rfl]
      rfl
    have hp : Remains (fun place => (entryRefusal? p.1 location index s place).isSome) p.1
        (left p.2) := by
      rw [← hfirst]
      exact hleft p List.mem_cons_self
    obtain ⟨failed₁, opened₁, h₁⟩ := hseparable p List.mem_cons_self location index s s' _ hs hp
    have hrest : ∀ q ∈ rest, ∀ place, refusal (q.2 :: place) =
        (turnIn location index q.2 rest (entry p.1 location index s)).bind fun x =>
          entryRefusal? x.1 location index x.2 place := by
      intro q hq place
      have hne : p.2 ≠ q.2 := by
        intro he
        exact hnew (he ▸ List.mem_map_of_mem hq)
      rw [hrefusal q (List.mem_cons_of_mem p hq), turnIn, if_neg hne]
    obtain ⟨failed₂, opened₂, h₂⟩ := ih hnodup (h₁.alike hs)
      (fun q hq => hseparable q (List.mem_cons_of_mem p hq))
      (fun q hq => hlocate q (List.mem_cons_of_mem p hq)) hrest
      (fun q hq => hleft q (List.mem_cons_of_mem p hq))
    have hwithin : (fun place : List Nat => ∃ q ∈ p :: rest, place.head? = some q.2) =
        fun place => place.head? = some p.2 ∨ ∃ q ∈ rest, place.head? = some q.2 := by
      funext place
      rw [List.exists_mem_cons_iff]
    have hfoldl : ((p :: rest).filterMap fun q => left q.2).foldl
        (fun s e => entry e location index s) s' =
        (rest.filterMap fun q => left q.2).foldl (fun s e => entry e location index s)
          ((left p.2).elim s' fun e' => entry e' location index s') := by
      rw [List.filterMap_cons]
      cases left p.2 <;> rfl
    rw [← hfirst, ← funext (hlocate p List.mem_cons_self)] at h₁
    rw [hwithin, hfoldl]
    refine ⟨_, _, h₁.under.trans h₂ ?_⟩
    -- The places in other entries start with other positions.
    rintro place hplace ⟨q, hq, hplace'⟩
    have he : p.2 = q.2 := Option.some.inj (hplace.symm.trans hplace')
    exact hnew (he ▸ List.mem_map_of_mem hq)

theorem archive_beside {medium : Medium} {es : List EntryTree} (hes : ∀ e ∈ es, Separable e)
    {location : String} {index : Nat} {s s' : Scan} (hs : Alike s s')
    {left : Nat → Option EntryTree}
    (hleft : ∀ i e, es[i]? = some e →
      Remains (fun place => (refusal? es location index s (i :: place)).isSome) e (left i)) :
    ∃ failed opened, Beside (locationOf? es location) (refusal? es location index s)
      (fun _ => True) failed opened s (archive medium es location index s)
      s' (archive medium (leftOf left es) location index s') := by
  cases hblocked : es.findSome? (·.blocked) with
  | some fault =>
    -- Nothing in the archive is refused, so that all of it is left.
    have hnone := refusal?_of_blocked hblocked location index s
    have hself : leftOf left es = es := by
      apply leftOf_eq_self
      intro i e he
      refine (hleft i e he).eq_some fun place => ?_
      rw [hnone]
      exact Bool.false_ne_true
    rw [hself, archive_of_blocked hblocked, archive_of_blocked hblocked]
    exact ⟨_, _, .failed_both hs hnone (by rw [locationOf?]) _⟩
  | none =>
    have hturn : ∀ p ∈ entryTurns es, es[p.2]? = some p.1 := fun p hp => (mem_turns.mp hp).1
    rw [archive_eq_foldl hblocked, archive_leftOf_eq_foldl hblocked]
    · obtain ⟨failed, opened, h⟩ := foldl_beside nodup_turns hs
        (fun p hp => hes p.1 (List.mem_of_getElem? (hturn p hp)))
        (fun p hp => locationOf?_cons (hturn p hp) location)
        (fun p _ => refusal?_cons hblocked location index s p.2)
        (fun p hp => hleft p.2 p.1 (hturn p hp))
      refine ⟨failed, opened, { h with inside := fun _ _ => trivial, refused := ?_ }⟩
      -- What is refused has its turn.
      rintro (_ | ⟨i, place⟩) f _ hf
      · cases hf
      · refine h.refused (i :: place) f ?_ hf
        rw [refusal?_cons hblocked] at hf
        obtain ⟨⟨e, st⟩, hturnIn, -⟩ := Option.bind_eq_some_iff.mp hf
        exact ⟨(e, i), turnIn_eq_some hturnIn, rfl⟩
    · intro i e e' he he'
      have hremains := hleft i e he
      rw [he'] at hremains
      exact ⟨hremains.name_eq, hremains.blocked_eq⟩

/-- A class entry that is refused is not there for the second scan. -/
theorem class_separable {e : EntryTree} (harchive : Path.isArchive e.name = false) :
    Separable e := by
  intro location index s s' r hs hr
  have hbelow := entryRefusal?_class harchive location index s
  obtain ⟨message, hentry⟩ | ⟨m, hentry⟩ := entry_class_cases harchive location index s.model
  · have hself : entryRefusal? e location index s [] =
        some ⟨(location ++ "!" ++ e.name), message⟩ := by
      rw [entryRefusal?, harchive, hentry s rfl]
      simp [fail]
    rw [hr.eq_none (by rw [hself]; rfl), hentry s rfl]
    exact ⟨_, _, .refused_once hs (by rw [locationOf?]) hself hbelow⟩
  · have hself : entryRefusal? e location index s [] = none := by
      rw [entryRefusal?, harchive, hentry s rfl]
      simp
    have hnone : ∀ place, entryRefusal? e location index s place = none := by
      intro place
      cases place with
      | nil => exact hself
      | cons i place => exact hbelow i place
    rw [hr.eq_some (by simp [hnone]), Option.elim_some, hentry s rfl, hentry s' hs.model]
    exact ⟨[], [], .quiet rfl (congrArg (· + 1) hs.classCount) rfl rfl rfl rfl
      fun place _ => hnone place⟩

/-- An archive that cannot be read fails in both scans. -/
theorem unreadable_separable {e : EntryTree} (harchive : Path.isArchive e.name = true)
    {fault : ArchiveFault} (h : e.content = .error fault ∨ e.nested = .error fault) :
    Separable e := by
  intro location index s s' r hs hr
  have hnone := entryRefusal?_unreadable harchive h location index s
  have hentry : ∃ fault, ∀ s, entry e location index s =
      s.failArchive (location ++ "!" ++ e.name) fault := by
    cases hcontent : e.content with
    | error fault => exact ⟨fault, fun s => by rw [entry_eq, hcontent]⟩
    | ok data =>
      have hnested : e.nested = .error fault := h.resolve_left (by simp [hcontent])
      exact ⟨fault, fun s => by simp only [entry_eq, hcontent, harchive, if_true, hnested,
        nestedArchive]⟩
  obtain ⟨fault, hentry⟩ := hentry
  rw [hr.eq_some (by simp [hnone]), Option.elim_some, hentry, hentry]
  exact ⟨_, _, .failed_both hs hnone (by rw [locationOf?]) _⟩

theorem archive_separable {e : EntryTree} (harchive : Path.isArchive e.name = true)
    {data : ByteArray} {es : List EntryTree} (hcontent : e.content = .ok data)
    (hnested : e.nested = .ok es) (hes : ∀ e' ∈ es, Separable e') : Separable e := by
  intro location index s s' r hs hr
  rw [entryRefusal?_archive harchive hcontent hnested] at hr ⊢
  obtain ⟨data', left, rfl, hleft, hdata⟩ :=
    hr.archive_cases (by simp [refusal?]) hcontent hnested
  have halike : Alike (s.addArtifact (entryArtifact e location index data.size))
      (s'.addArtifact (entryArtifact e location index data'.size)) := by
    refine ⟨hs.model, hs.classCount, ?_⟩
    rw [addArtifact, addArtifact, List.length_append, List.length_append, hs.artifacts]
    rfl
  obtain ⟨failed, opened, h⟩ := archive_beside hes halike hleft
  have hentry' : entry { e with opened := .ok (.ok data'), nested := .ok (leftOf left es) }
      location index s' = archive .memory (leftOf left es) (location ++ "!" ++ e.name)
        s.artifacts.length (s'.addArtifact (entryArtifact e location index data'.size)) := by
    let e' : EntryTree := { e with opened := .ok (.ok data'), nested := .ok (leftOf left es) }
    rw [← hs.artifacts]
    exact entry_archive_eq (e := e') harchive rfl rfl location index s'
  rw [entry_archive_eq harchive hcontent hnested, Option.elim_some, hentry']
  have hcontents : contentsOf e = es := by rw [contentsOf, hnested]
  rw [hcontents]
  refine ⟨failed, _, h.opened_first (by rw [locationOf?]; rfl) ?_⟩
  intro hnone
  rw [hdata (by simp [hnone])]
  rfl

theorem separable (e : EntryTree) : Separable e := by
  -- What is in an archive is smaller than the archive.
  induction e using EntryTree.nested_induction with
  | h e ih =>
  cases harchive : Path.isArchive e.name with
  | false => exact class_separable harchive
  | true =>
    cases hcontent : e.content with
    | error fault => exact unreadable_separable harchive (.inl hcontent)
    | ok data =>
      cases hnested : e.nested with
      | error fault => exact unreadable_separable harchive (.inr hnested)
      | ok es => exact archive_separable harchive hcontent hnested (ih es hnested)

end Unpacked

open Unpacked in
/-- Class entries that fail are inert. Whatever an archive holds, at any depth, and whatever was
scanned before, there is an archive without the class entries of which the scan records a failure,
and every such archive gives the same model and the same number of classes. The artifacts are the
same, except that archives which lost an entry may have other lengths, and the failures are those
of the other places, in order. -/
theorem archive_without_refused (ts : List EntryTree) (medium : Medium) (location : String)
    (index : Nat) (s : Scan) :
    (∃ ts', Without (fun place => (refusal? ts location index s place).isSome) ts ts') ∧
    ∀ ts', Without (fun place => (refusal? ts location index s place).isSome) ts ts' →
      ∀ unzip unzip', MirrorsAll unzip ts → MirrorsAll unzip' ts' →
      ∃ (t t' : Scan) (failed : List (List Nat × ScanFailure)) (opened : List Opened),
        (Scan.archive unzip medium (ts.map EntryTree.toArchiveEntry) location index s).map
          (record location) = some t ∧
        (Scan.archive unzip' medium (ts'.map EntryTree.toArchiveEntry) location index s).map
          (record location) = some t' ∧
        t'.model = t.model ∧ t'.classCount = t.classCount ∧
        t.artifacts = s.artifacts ++ opened.map Opened.artifact ∧
        t'.artifacts = s.artifacts ++ opened.map Opened.rewritten ∧
        (∀ o ∈ opened, locationOf? ts location o.place = some o.artifact.location ∧
          ((∀ place, refusal? ts location index s (o.place ++ place) = none) →
            o.length = o.artifact.length)) ∧
        t.failures = s.failures ++ failed.map Prod.snd ∧
        t'.failures = s.failures ++
          (failed.filter fun x => (refusal? ts location index s x.1).isNone).map Prod.snd ∧
        (failed.map Prod.fst).Nodup ∧
        (∀ x ∈ failed, locationOf? ts location x.1 = some x.2.location) ∧
        ∀ place f, refusal? ts location index s place = some f → (place, f) ∈ failed := by
  constructor
  · obtain ⟨left, hleft⟩ := exists_left location index s fun e _ => exists_remains e
    exact ⟨leftOf left ts, left, hleft, rfl⟩
  · rintro _ ⟨left, hleft, rfl⟩ unzip unzip' hts hts'
    obtain ⟨failed, opened, h⟩ :=
      @archive_beside medium ts (fun e _ => separable e) location index s s ⟨rfl, rfl, rfl⟩ left
        hleft
    exact ⟨_, _, failed, opened, hts.archive_eq_some medium location index s,
      hts'.archive_eq_some medium location index s, h.model, h.classCount, h.artifacts,
      h.artifacts', fun o ho => ⟨h.openedAt o ho, h.length o ho⟩, h.failures, h.failures', h.nodup,
      h.failedAt, fun place f => h.refused place f trivial⟩

/-- The class `A` once more, with another superclass. -/
def intruder : ArchiveEntry := ⟨"A.class", .ok (.ok ⟨(Model.tinyClass 65 67).toArray⟩)⟩

def casket : EntryTree := ⟨⟨"lib.jar", .ok (.ok ⟨#[80, 75]⟩)⟩, .ok [⟨intruder, .ok []⟩]⟩

/-- A class, one that cannot be read, and an archive whose class is in conflict with the first. -/
def chest : List EntryTree :=
  [⟨crateEntry, .ok []⟩, ⟨⟨"B.class", .ok (.error .wrongChecksum)⟩, .ok []⟩, casket]

/-- What is left of the chest. -/
def lightChest : List EntryTree :=
  [⟨crateEntry, .ok []⟩, ⟨⟨"lib.jar", .ok (.ok ⟨#[]⟩)⟩, .ok []⟩]

/-- A reader for both. -/
def unzipChest : Unzip := fun data => .ok (if data.size = 0 then [] else [intruder])

theorem mirrorsAll_chest : MirrorsAll unzipChest chest ∧ MirrorsAll unzipChest lightChest := by
  constructor
  · rintro - e he - harchive data hdata
    simp only [chest, List.mem_cons, List.not_mem_nil, or_false] at he
    rcases he with rfl | rfl | rfl
    · exact absurd harchive Bool.false_ne_true
    · exact absurd harchive Bool.false_ne_true
    · cases hdata
      exact @mirrors_of_forall unzipChest _ [intruder] rfl (by decide)
  · rintro - e he - harchive data hdata
    simp only [lightChest, List.mem_cons, List.not_mem_nil, or_false] at he
    rcases he with rfl | rfl
    · exact absurd harchive Bool.false_ne_true
    · cases hdata
      exact mirrors_of_forall rfl (List.forall_mem_nil _)

theorem entryTurns_chest : Unpacked.entryTurns chest = chest.zipIdx := by
  rw [Unpacked.entryTurns, turns, List.mergeSort_of_pairwise (by decide)]
  rfl

open Unpacked in
theorem without_chest :
    Without (fun place => (refusal? chest "a.jar" 0 empty place).isSome) chest lightChest := by
  have hrefusal : ∀ i place, refusal? chest "a.jar" 0 empty (i :: place) =
      (turnIn "a.jar" 0 i chest.zipIdx empty).bind fun x =>
        entryRefusal? x.1 "a.jar" 0 x.2 place := by
    intro i place
    rw [refusal?_cons rfl, entryTurns_chest]
  have hgone : (refusal? chest "a.jar" 0 empty [1]).isSome ∧
      (refusal? chest "a.jar" 0 empty [2, 0]).isSome := by
    rw [hrefusal, hrefusal]
    decide +kernel
  refine ⟨fun i => if i = 0 then lightChest[0]? else if i = 1 then none else lightChest[1]?, ?_,
    rfl⟩
  intro i e he
  match i, he with
  | 0, he =>
    cases he
    refine .kept fun place => ?_
    dsimp only
    rw [hrefusal]
    cases place with
    | nil => decide +kernel
    | cons j place =>
      show ¬(entryRefusal? _ "a.jar" 0 empty (j :: place)).isSome
      rw [entryRefusal?_class (by decide +kernel)]
      exact Bool.false_ne_true
  | 1, he => exact .removed hgone.1
  | 2, he =>
    cases he
    refine @Remains.rewritten _ casket [⟨intruder, .ok []⟩] (fun _ => none) [0] ⟨#[80, 75]⟩ ⟨#[]⟩
      ?_ hgone.2 rfl rfl ?_
    · dsimp only
      rw [hrefusal]
      decide
    · intro j e' he'
      match j, he' with
      | 0, _ => exact .removed hgone.2

theorem archive_without_refused_chest :
    Unpacked.Without (fun place => (Unpacked.refusal? chest "a.jar" 0 empty place).isSome) chest
      lightChest ∧ MirrorsAll unzipChest chest ∧ MirrorsAll unzipChest lightChest ∧
    ∃ t t' : Scan,
      (archive unzipChest .file (chest.map EntryTree.toArchiveEntry) "a.jar" 0 empty).map
        (record "a.jar") = some t ∧
      (archive unzipChest .file (lightChest.map EntryTree.toArchiveEntry) "a.jar" 0 empty).map
        (record "a.jar") = some t' ∧
      t.failures.map ScanFailure.location = ["a.jar!B.class", "a.jar!lib.jar!A.class"] ∧
      t'.model = t.model ∧ t'.classCount = 1 := by
  obtain ⟨hchest, hlight⟩ := mirrorsAll_chest
  obtain ⟨t, t', _, _, ht, ht', hmodel, hcount, -⟩ :=
    (archive_without_refused chest .file "a.jar" 0 empty).2 lightChest without_chest unzipChest
      unzipChest hchest hlight
  obtain rfl : Unpacked.archive .file chest "a.jar" 0 empty = t :=
    Option.some.inj ((hchest.archive_eq_some .file "a.jar" 0 empty).symm.trans ht)
  refine ⟨without_chest, hchest, hlight, _, t', ht, ht', ?_, hmodel, hcount.trans ?_⟩
  · rw [Unpacked.archive_eq_foldl rfl, entryTurns_chest]
    decide +kernel
  · rw [Unpacked.archive_eq_foldl rfl, entryTurns_chest]
    decide +kernel

end ClassDeps.Scan
