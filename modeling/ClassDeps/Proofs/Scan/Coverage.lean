import ClassDeps.Archive.Zip
import ClassDeps.Proofs.Scan.Ending
import ClassDeps.Proofs.Scan.Site
import Mathlib

namespace ClassDeps

namespace Scan

variable {unzip : Unzip} {unpack : Unpack} {fs : FileSystem} {sites : List Site} {site : Site}
  {s s' : Scan}

/-- The scan went from `s` to `s'` and accounted for all of `site`. -/
def Accounted (unzip : Unzip) (site : Site) (s s' : Scan) : Prop :=
  ∃ log, Run s log s' ∧ Account unzip site log

namespace Accounted

theorem opened {artifact : Artifact}
    (hparent : ∀ parent, artifact.parent = some parent → parent < s.artifacts.length)
    (h : Accounted unzip site (s.addArtifact artifact) s') : Accounted unzip site s s' := by
  obtain ⟨log, hrun, haccount⟩ := h
  exact ⟨log, .opened hparent hrun, haccount⟩

theorem addArtifact {artifact : Artifact} (h : Accounted unzip site s s')
    (hparent : ∀ parent, artifact.parent = some parent → parent < s'.artifacts.length) :
    Accounted unzip site s (s'.addArtifact artifact) := by
  obtain ⟨log, hrun, haccount⟩ := h
  exact ⟨log, List.append_nil log ▸ hrun.trans (.opened hparent .done), haccount⟩

theorem failed (h : site.IsArchive ∨ site.IsClassEntry ∧ ¬ site.TakenForModule)
    (message : String) :
    Accounted unzip site s (s.fail site.location message) :=
  ⟨[⟨[], site.location, .error message⟩], .failed .done, .single rfl ⟨rfl, h⟩⟩

theorem skipped (h : ∀ place t, site.at? unzip place = some t → ¬ t.IsRead) :
    Accounted unzip site s s :=
  ⟨[], .done, .nil h⟩

end Accounted

/-- A class is defined, or the scan stays as it is and there is a reason. -/
theorem importClass_accounted (hs : s.model.Settled) {data : ByteArray} (hclass : site.IsRead)
    (hdata : site.content? = some data) :
    (∃ s', s.importClass data site.location = (.ok (), s') ∧ Accounted unzip site s s') ∨
    ∃ e, s.importClass data site.location = (.error e, s) := by
  rcases importClass_cases hs data site.location with ⟨d, i, m, hd, hdefine, he⟩ | he
  · refine .inl ⟨_, he, [⟨[], site.location, .ok d⟩], .imported hdefine .done, ?_⟩
    exact .single rfl ⟨rfl, hclass, data, hdata, hd⟩
  · exact .inr he

/-- Steps that each account for one of the sites account for all of theirs, in any order. -/
theorem accountAmong_of_foldlM {α : Type} {step : α × Nat → Scan → Except ScanError Scan}
    {base : Nat} {order : List (α × Nat)} (hnodup : (order.map Prod.snd).Nodup)
    (hstep : ∀ p ∈ order, ∃ site, sites[p.2]? = some site ∧ ∀ s s', s.model.Settled →
      base ≤ s.artifacts.length → step p s = .ok s' → Accounted unzip site s s')
    (hs : s.model.Settled) (hbase : base ≤ s.artifacts.length)
    (h : order.foldlM (fun s p => step p s) s = .ok s') :
    ∃ log, Run s log s' ∧ AccountAmong unzip sites (order.map Prod.snd) log := by
  induction order generalizing s with
  | nil =>
    cases h
    exact ⟨[], .done, .nil⟩
  | cons p order ih =>
    obtain ⟨hnew, hnodup⟩ := List.nodup_cons.mp hnodup
    rw [List.foldlM_cons, bind_eq_ok_iff] at h
    obtain ⟨s₁, hfirst, hrest⟩ := h
    obtain ⟨site, hsite, haccounted⟩ := hstep p List.mem_cons_self
    -- A step leaves the model settled and takes no artifact away, so the next one can follow.
    obtain ⟨log₁, hrun₁, haccount₁⟩ := haccounted s s₁ hs hbase hfirst
    obtain ⟨log₂, hrun₂, haccount₂⟩ := ih hnodup
      (fun q hq => hstep q (List.mem_cons_of_mem _ hq)) (hrun₁.gains hs).settled
      (hbase.trans hrun₁.length_artifacts_le) hrest
    exact ⟨_, (hrun₁.under p.2).trans hrun₂, .cons hsite hnew haccount₁ haccount₂⟩

/-- A site is accounted for when its children are scanned in the order of their names and those
that are passed over hold no class. -/
theorem accounted_of_sort {α β : Type} {l : List α} {child : α → Site} {keep : α → Bool}
    {f : α → Step β} (act : β → Scan → Except ScanError Scan) {base : Nat}
    (hchildren : site.children unzip = l.map child) (hsite : ¬ site.IsRead)
    (hkept : ∀ a ∈ l, keep a = true → ∀ s s', s.model.Settled → base ≤ s.artifacts.length →
      act (f a).run s = .ok s' → Accounted unzip (child a) s s')
    (hrest : ∀ a, keep a = false → ∀ place t, (child a).at? unzip place = some t → ¬ t.IsRead)
    (hs : s.model.Settled) (hbase : base ≤ s.artifacts.length)
    (h : (Step.sort ((l.filter keep).map f)).foldlM (fun s step => act step.run s) s = .ok s') :
    Accounted unzip site s s' := by
  rw [sort_map_eq, List.foldlM_map] at h
  have hstep : ∀ p ∈ turns (fun a => (f a).name) keep l, ∃ t,
      (site.children unzip)[p.2]? = some t ∧ ∀ s s', s.model.Settled →
        base ≤ s.artifacts.length → act (f p.1).run s = .ok s' → Accounted unzip t s s' := by
    intro p hp
    obtain ⟨hget, hkeep⟩ := mem_turns.mp hp
    refine ⟨child p.1, ?_, hkept p.1 (List.mem_of_getElem? hget) hkeep⟩
    rw [hchildren, List.getElem?_map, hget]
    rfl
  obtain ⟨log, hrun, haccount⟩ := accountAmong_of_foldlM nodup_turns hstep hs hbase h
  refine ⟨log, hrun, haccount.account hsite ?_⟩
  intro i t ht hi
  rw [hchildren, List.getElem?_map] at ht
  obtain ⟨a, ha, rfl⟩ := Option.map_eq_some_iff.mp ht
  apply hrest
  -- What is kept has its turn in the order.
  rw [← Bool.not_eq_true]
  intro hkeep
  exact hi (List.mem_map.mpr ⟨(a, i), mem_turns.mpr ⟨ha, hkeep⟩, rfl⟩)

/-- The archive at `site` is accounted for if its scanned entries are. -/
theorem archive_accounted {es : List EntryTree} (hsite : site.IsArchive)
    (hchildren : site.children unzip =
      es.map fun e => Site.ofEntry site.location e.toArchiveEntry) {index : Nat}
    (hes : es.findSome? (·.blocked) = none → ∀ e ∈ es, isScanned e.name = true → ∀ s,
      s.model.Settled → index < s.artifacts.length →
      Accounted unzip (Site.ofEntry site.location e.toArchiveEntry) s
        (Unpacked.entry e site.location index s))
    (medium : Medium) (hs : s.model.Settled) (hindex : index < s.artifacts.length) :
    Accounted unzip site s (Unpacked.archive medium es site.location index s) := by
  cases hblocked : es.findSome? (·.blocked) with
  | some fault =>
    rw [Unpacked.archive_of_blocked hblocked]
    exact .failed (.inl hsite) _
  | none =>
    unfold Unpacked.archive Unpacked.runEntries Unpacked.fault?
    rw [hblocked, Unpacked.entrySteps_eq]
    refine accounted_of_sort (fun (run : String → Nat → Scan → Scan) s =>
      .ok (run site.location index s)) hchildren (fun h => hsite.not_isClass h.1) ?_ ?_ hs hindex
      List.foldlM_pure
    · intro e he hscanned s s' hs hindex hrun
      cases hrun
      exact hes hblocked e he hscanned s hs hindex
    · intro e hscanned place t ht
      exact Site.not_isRead_of_not_isScanned (ne_true_of_eq_false hscanned) ht

/-- An archive that was just opened. -/
theorem archive_opened_accounted {es : List EntryTree} (hsite : site.IsArchive)
    (hchildren : site.children unzip =
      es.map fun e => Site.ofEntry site.location e.toArchiveEntry)
    (hes : es.findSome? (·.blocked) = none → ∀ e ∈ es, isScanned e.name = true → ∀ index s,
      s.model.Settled → index < s.artifacts.length →
      Accounted unzip (Site.ofEntry site.location e.toArchiveEntry) s
        (Unpacked.entry e site.location index s))
    (medium : Medium) (hs : s.model.Settled) {artifact : Artifact}
    (hparent : ∀ parent, artifact.parent = some parent → parent < s.artifacts.length) :
    Accounted unzip site s
      (Unpacked.archive medium es site.location s.artifacts.length (s.addArtifact artifact)) := by
  refine .opened hparent (archive_accounted hsite hchildren ?_ medium hs ?_)
  · intro hblocked e he hscanned
    exact hes hblocked e he hscanned _
  · rw [addArtifact, List.length_append]
    exact Nat.lt_succ_self _

theorem entry_accounted (e : EntryTree) : MirrorsEntry unzip e → isScanned e.name = true →
    ∀ location index s, s.model.Settled → index < s.artifacts.length →
    Accounted unzip (Site.ofEntry location e.toArchiveEntry) s
      (Unpacked.entry e location index s) := by
  -- What is in an archive is smaller than the archive, wherever it is scanned.
  induction e using EntryTree.nested_induction with
  | h e ih =>
  intro hmirrors hscanned location index s hs hindex
  rw [Unpacked.entry_eq]
  cases harchive : Path.isArchive e.name with
  | true =>
    have hsite : (Site.ofEntry location e.toArchiveEntry).IsArchive := ⟨hscanned, harchive⟩
    cases hcontent : e.content with
    | error fault => exact .failed (.inl hsite) _
    | ok data =>
      have hnested := hmirrors harchive data hcontent
      simp only [if_true]
      cases htrees : e.nested with
      | error fault =>
        rw [Unpacked.nestedArchive]
        exact .failed (.inl hsite) _
      | ok es =>
        rw [htrees] at hnested
        rw [Unpacked.nestedArchive]
        refine archive_opened_accounted hsite ?_ ?_ .memory hs ?_
        · exact Site.children_entry_eq hsite hcontent hnested
        · intro hblocked e' he' hscanned'
          exact ih es htrees e' he' (hnested.entry hblocked he' hscanned') hscanned' _
        · intro parent hparent
          exact Option.some.inj hparent ▸ hindex
  | false =>
    have hclass : (Site.ofEntry location e.toArchiveEntry).IsClassEntry ∧
        ¬ (Site.ofEntry location e.toArchiveEntry).TakenForModule :=
      Site.isClassEntry_of_isScanned hscanned harchive
    cases hcontent : e.content with
    | error fault => exact .failed (.inr hclass) _
    | ok data =>
      have hdata : (Site.ofEntry location e.toArchiveEntry).content? = some data := by
        rw [Site.ofEntry, Site.content?, hcontent]
        rfl
      simp only [Bool.false_eq_true, if_false]
      rcases importClass_accounted hs ⟨.inl hclass.1, hclass.2⟩ hdata with ⟨s', he, h⟩ | ⟨cause, he⟩
      · have himport : s.importClass data (location ++ "!" ++ e.name) = (.ok (), s') := he
        rw [himport]
        exact h
      · have himport : s.importClass data (location ++ "!" ++ e.name) = (.error cause, s) := he
        rw [himport]
        exact .failed (.inr hclass) _

theorem file_skipped {content : Except FileError ByteArray} {path : String}
    (harchive : Path.isArchive path = false)
    (hclass : ¬ Site.IsRead ⟨.tree (.file content), path⟩) :
    Accounted unzip ⟨.tree (.file content), path⟩ s s := by
  apply Accounted.skipped
  intro place t ht
  rw [Site.eq_of_at?_eq_some (Site.children_file_eq_nil harchive) ht]
  exact hclass

theorem classFile_accounted {content : Except FileError ByteArray} {path : String}
    {isTarget : Bool} (hs : s.model.Settled) (hextension : Path.hasExtension path "class" = true)
    (h : s.classFile fs content path isTarget = .ok s') :
    Accounted unzip ⟨.tree (.file content), path⟩ s s' := by
  have harchive := Path.isArchive_of_hasExtension_class hextension
  unfold classFile at h
  by_cases hmodule : Path.isModuleInfo path = true
  · rw [if_pos hmodule] at h
    cases h
    exact file_skipped harchive fun hread => hread.2 hmodule
  rw [if_neg hmodule] at h
  cases content with
  | error e => cases h
  | ok data =>
    have hclass : Site.IsRead ⟨.tree (.file (.ok data)), path⟩ :=
      ⟨.inr ⟨hextension, mt Path.isModuleInfo_of_isModuleDescription hmodule⟩, hmodule⟩
    rcases importClass_accounted hs hclass rfl with ⟨s₁, he, haccounted⟩ | ⟨cause, he⟩
    · simp only [he] at h
      rw [← Except.ok.inj h]
      split
      · exact haccounted.addArtifact nofun
      · exact haccounted
    · simp only [he] at h
      cases h

theorem archiveFile_accounted {content : Except FileError ByteArray} {path : String}
    (isTarget : Bool) (hs : s.model.Settled) (harchive : Path.isArchive path = true)
    (h : ∀ data, content = .ok data → Mirrors unzip data (unpack data)) :
    Accounted unzip ⟨.tree (.file content), path⟩ s
      (Unpacked.archiveFile unpack fs content path isTarget s) := by
  have hsite : Site.IsArchive ⟨.tree (.file content), path⟩ := harchive
  unfold Unpacked.archiveFile
  cases content with
  | error e => exact .failed (.inl hsite) _
  | ok data =>
    have hmirrors := h data rfl
    simp only [Except.mapError]
    cases hdata : unpack data with
    | error fault => exact .failed (.inl hsite) _
    | ok es =>
      rw [hdata] at hmirrors
      refine archive_opened_accounted hsite ?_ ?_ .file hs nofun
      · exact Site.children_file_eq harchive hmirrors
      · intro hblocked e he hscanned
        exact entry_accounted e (hmirrors.entry hblocked he hscanned) hscanned _

theorem tree_accounted (t : FileTree) : ∀ path isTarget s s', s.model.Settled →
    (∀ data ∈ t.archives path, Mirrors unzip data (unpack data)) →
    Unpacked.tree unpack fs t path isTarget s = .ok s' →
    Accounted unzip ⟨.tree t, path⟩ s s' := by
  induction t using FileTree.directory_induction with
  | hfile content =>
    intro path isTarget s s' hs hmirrors h
    rw [Unpacked.tree, Unpacked.file] at h
    -- The extension decides: a class, an archive, or a file that is passed over.
    by_cases hextension : Path.hasExtension path "class" = true
    · rw [if_pos hextension] at h
      exact classFile_accounted hs hextension h
    rw [if_neg hextension] at h
    by_cases harchive : Path.isArchive path = true
    · rw [if_pos harchive] at h
      cases h
      exact archiveFile_accounted isTarget hs harchive fun data hdata =>
        hmirrors data (FileTree.mem_archives_file.mpr ⟨harchive, hdata⟩)
    · rw [if_neg harchive] at h
      cases isTarget with
      | true => cases h
      | false =>
        cases h
        refine file_skipped (Bool.eq_false_iff.mpr harchive) ?_
        rintro ⟨hentry | hfile, -⟩
        · exact hentry
        · exact hextension hfile.1
  | hsealed e =>
    intro path isTarget s s' _ _ h
    rw [Unpacked.tree] at h
    cases h
  | hdirectory items ih =>
    intro path isTarget s s' hs hmirrors h
    rw [Unpacked.tree, Unpacked.treeSteps_eq, ← List.filter_true items] at h
    refine accounted_of_sort (fun (run : String → Scan → Except ScanError Scan) s => run path s)
      rfl ?_ ?_ ?_ hs (Nat.zero_le _) h
    · rintro ⟨hclass | hclass, -⟩ <;> exact hclass
    · intro item hitem _ s s' hs _ hrun
      refine ih item hitem _ false s s' hs (fun data hdata => hmirrors data ?_) hrun
      rw [FileTree.archives_directory]
      exact List.mem_flatMap.mpr ⟨item, hitem, hdata⟩
    · intro item hkeep
      cases hkeep

def inputSite (fs : FileSystem) (path : String) : Site :=
  ⟨.tree (inputTree fs path), path⟩

theorem input_accounted {path : String} (h : (input unzip fs path).run = some (.ok s)) :
    Accounted unzip (inputSite fs path) empty s := by
  obtain ⟨unpack, hinput, hmirrors⟩ := exists_unpacked_input h
  rw [Unpacked.input_eq] at hinput
  exact tree_accounted _ path true empty s Model.settled_empty hmirrors hinput

theorem parts_accountAmong {paths : List String} {parts : List Scan} {k : Nat}
    (hparts : Parts unzip fs paths parts)
    (hsites : ∀ j path, paths[j]? = some path → sites[k + j]? = some (inputSite fs path))
    (hs : s.model.Settled) (h : parts.foldlM append s = .ok s') :
    ∃ log, Gains s log s' ∧ AccountAmong unzip sites (List.range' k paths.length) log := by
  induction hparts generalizing s k with
  | nil =>
    cases h
    exact ⟨[], .refl hs, .nil⟩
  | @cons path part paths parts hpart _ ih =>
    -- Every input is scanned on its own, from an empty scan.
    rw [List.foldlM_cons, bind_eq_ok_iff] at h
    obtain ⟨s₁, happend, hrest⟩ := h
    obtain ⟨log₁, hrun, haccount⟩ := input_accounted hpart
    have hgains := Gains.append hs (hrun.gains Model.settled_empty) happend
    obtain ⟨log₂, hgains₂, haccount₂⟩ := ih (k := k + 1)
      (fun j path hj => by
        have hsite := hsites (j + 1) path hj
        rwa [← Nat.add_assoc, Nat.add_right_comm] at hsite) hgains.settled hrest
    refine ⟨_, (hgains.under k).trans hgains₂, ?_⟩
    rw [List.length_cons, List.range'_succ]
    refine .cons (hsites 0 path rfl) ?_ haccount haccount₂
    rw [List.mem_range'_1]
    omega

/-- What became of the class entry `site` at `place`: it was defined, it failed, or an archive
around it failed. -/
inductive Outcome (unzip : Unzip) (sites : List Site) (s : Scan) (place : List Nat) (site : Site)
    (e : Event) : Prop
  | imported {d : ClassDefinition} : e.place = place → e.result = .ok d →
      s.model.classContent? d.name = some d.content → Outcome unzip sites s place site e
  | failed {message : String} : e.place = place → e.location = site.location →
      e.result = .error message → Outcome unzip sites s place site e
  | enclosing {around : Site} {message : String} : e.place <+: place → e.place ≠ place →
      Site.among? unzip sites e.place = some around → around.IsArchive →
      e.location = around.location → e.result = .error message →
      Outcome unzip sites s place site e

theorem Event.Tells.proper {e : Event} (h : e.Tells site) {d : ClassDefinition}
    (hd : e.result = .ok d) : d.proper = d := by
  obtain ⟨-, h⟩ := h
  rw [hd] at h
  obtain ⟨-, data, -, hdata⟩ := h
  exact Model.proper_of_ofBytes hdata

/-- An event on the way to a class entry is an outcome of it. -/
theorem Event.Tells.outcome {e : Event} {around : Site} {place : List Nat} (htells : e.Tells around)
    (haround : Site.among? unzip sites e.place = some around) (hplace : e.place <+: place)
    (hsite : Site.among? unzip sites place = some site)
    (hdefined : ∀ d, e.result = .ok d → s.model.classContent? d.name = some d.content) :
    Outcome unzip sites s place site e := by
  obtain ⟨rest, rfl⟩ := hplace
  rw [Site.among?_append haround] at hsite
  cases rest with
  | nil =>
    obtain rfl : around = site := Option.some.inj hsite
    cases hresult : e.result with
    | ok d => exact .imported (List.append_nil _).symm hresult (hdefined d hresult)
    | error message => exact .failed (List.append_nil _).symm htells.1 hresult
  | cons i rest =>
    -- Something is below the place of the event, so that it is no class.
    have hnot : ¬ around.IsClass := by
      intro hclass
      rw [Site.at?, hclass.children_eq_nil] at hsite
      cases hsite
    obtain ⟨hlocation, hresult⟩ := htells
    cases he : e.result with
    | ok d =>
      rw [he] at hresult
      exact absurd hresult.1.1 hnot
    | error message =>
      rw [he] at hresult
      refine .enclosing (List.prefix_append ..) ?_ haround ?_ hlocation he
      · intro hsame
        cases List.append_right_eq_self.mp hsame.symm
      · exact hresult.resolve_right fun hentry => hnot (.inl hentry.1)

/-- Nothing is told of a class entry that is taken for a module description. -/
theorem Event.Tells.not_takenForModule {e : Event} (h : e.Tells site) (hclass : site.IsClassEntry) :
    ¬ site.TakenForModule := by
  obtain ⟨-, h⟩ := h
  cases hresult : e.result with
  | ok d =>
    rw [hresult] at h
    exact h.1.2
  | error message =>
    rw [hresult] at h
    rcases h with harchive | hentry
    · exact absurd (.inl hclass) harchive.not_isClass
    · exact hentry.2

/-- The events of a scan that succeeds are its failures and its imports, each of one place. A class
entry has exactly one event at its own place or at that of an archive around it, unless its name
ends like that of a module description. Then it has no event of its own: the class is lost. -/
theorem inputs_account_for_class_entries {paths : List String}
    (h : inputs unzip fs paths = some (.ok s)) :
    ∃ log : List Event, s.failures = log.filterMap Event.failure? ∧
      s.classCount = (log.filterMap Event.imported?).length ∧ (log.map Event.place).Nodup ∧
      (∀ e ∈ log, ∃ site, Site.among? unzip (paths.map (inputSite fs)) e.place = some site ∧
        e.Tells site ∧ ∀ d, e.result = .ok d → s.model.classContent? d.name = some d.content) ∧
      ∀ place site, Site.among? unzip (paths.map (inputSite fs)) place = some site →
        site.IsClassEntry →
        (¬ site.TakenForModule → ∃ e ∈ log, (∀ e' ∈ log, e'.place <+: place → e' = e) ∧
          Outcome unzip (paths.map (inputSite fs)) s place site e) ∧
        (site.TakenForModule → ∀ e ∈ log, e.place ≠ place) := by
  have hsites : ∀ j path, paths[j]? = some path →
      (paths.map (inputSite fs))[0 + j]? = some (inputSite fs path) := by
    intro j path hj
    rw [Nat.zero_add, List.getElem?_map, hj]
    rfl
  obtain ⟨parts, hparts, hfold⟩ := inputs_eq_ok_iff.mp h
  obtain ⟨log, hgains, haccount⟩ := parts_accountAmong hparts hsites Model.settled_empty hfold
  have htells : ∀ e ∈ log, ∃ site,
      Site.among? unzip (paths.map (inputSite fs)) e.place = some site ∧ e.Tells site ∧
      ∀ d, e.result = .ok d → s.model.classContent? d.name = some d.content := by
    intro e he
    obtain ⟨-, site, hsite, htells⟩ := haccount.tells e he
    exact ⟨site, hsite, htells, fun d hd => hgains.classContent?_eq he hd (htells.proper hd)⟩
  refine ⟨log, hgains.failures, ?_, haccount.nodup, htells, fun place site hsite hclass => ⟨?_, ?_⟩⟩
  · rw [hgains.classCount]
    exact Nat.zero_add _
  · -- The first step of a place says which input it is in.
    intro hmodule
    match place, hsite with
    | i :: rest, hsite =>
      have hi : i ∈ List.range' 0 paths.length := by
        obtain ⟨start, hstart, -⟩ := Option.bind_eq_some_iff.mp hsite
        have hlt := (List.getElem?_eq_some_iff.mp hstart).1
        rw [List.length_map] at hlt
        rw [List.mem_range'_1]
        omega
      obtain ⟨e, ⟨he, hplace⟩, hunique⟩ :=
        haccount.settles i hi rest site hsite ⟨.inl hclass, hmodule⟩
      obtain ⟨around, haround, htell, hdefined⟩ := htells e he
      exact ⟨e, he, fun e' he' hplace' => hunique e' ⟨he', hplace'⟩,
        htell.outcome haround hplace hsite hdefined⟩
  · rintro hmodule e he rfl
    obtain ⟨t, ht, htell, -⟩ := htells e he
    cases hsite.symm.trans ht
    exact htell.not_takenForModule hclass hmodule

/-- A zip file with one entry, the class `A`. -/
def crate : ByteArray where
  data := #[
    80, 75, 3, 4, 20, 0, 0, 0, 0, 0, 0, 0, 33, 0, 74, 12, 140, 140, 38, 0, 0, 0, 38, 0, 0, 0, 7,
    0, 0, 0,
    65, 46, 99, 108, 97, 115, 115] ++ (Model.tinyClass 65 66).toArray ++ #[
    80, 75, 1, 2, 20, 3, 20, 0, 0, 0, 0, 0, 0, 0, 33, 0, 74, 12, 140, 140, 38, 0, 0, 0, 38, 0, 0,
    0, 7, 0, 0, 0, 0, 0, 0, 0, 0, 0, 0, 0, 128, 1, 0, 0, 0, 0,
    65, 46, 99, 108, 97, 115, 115,
    80, 75, 5, 6, 0, 0, 0, 0, 1, 0, 1, 0, 53, 0, 0, 0, 75, 0, 0, 0, 0, 0]

def crateFiles : FileSystem :=
  (FileTree.ofFiles [("a.jar", crate)]).system "/"

deriving instance DecidableEq for ArchiveEntry

def crateEntry : ArchiveEntry := ⟨"A.class", .ok (.ok ⟨(Model.tinyClass 65 66).toArray⟩)⟩

theorem unzip_crate : Zip.unzip crate = .ok [crateEntry] := by
  rw [crate, List.append_toArray, List.append_toArray]
  decide +kernel

/-- An archive without archives is its own tree. -/
theorem mirrors_of_forall {data : ByteArray} {es : List ArchiveEntry} (h : unzip data = .ok es)
    (hes : ∀ e ∈ es, Path.isArchive e.name = false) :
    Mirrors unzip data (.ok (es.map fun e => ⟨e, .ok []⟩)) := by
  refine .intro ?_ ?_
  · rw [h]
    exact congrArg Except.ok (List.map_map.trans (List.map_id' es)).symm
  · rintro ts hts - e he - harchive
    cases hts
    obtain ⟨a, ha, rfl⟩ := List.mem_map.mp he
    exact absurd harchive (ne_true_of_eq_false (hes a ha))

theorem among?_archive {path : String} {data : ByteArray} {es : List ArchiveEntry}
    (hpath : inputTree fs path = .file (.ok data)) (harchive : Path.isArchive path = true)
    (hes : unzip data = .ok es) (i : Nat) :
    Site.among? unzip ([path].map (inputSite fs)) [0, i] = es[i]?.map (Site.ofEntry path) := by
  have hchildren : (inputSite fs path).children unzip = es.map (Site.ofEntry path) := by
    rw [inputSite, hpath, Site.children, if_pos harchive, hes]
    rfl
  show ((inputSite fs path).children unzip)[i]?.bind some = _
  rw [hchildren, List.getElem?_map, Option.bind_fun_some]

theorem inputs_account_for_class_entries_crate :
    ∃ (s : Scan) (log : List Event), inputs Zip.unzip crateFiles ["a.jar"] = some (.ok s) ∧
      s.classCount = 1 ∧ s.failures = log.filterMap Event.failure? ∧
      ∃ site e, Site.among? Zip.unzip (["a.jar"].map (inputSite crateFiles)) [0, 0] = some site ∧
        site.IsClassEntry ∧ ¬ site.TakenForModule ∧ e ∈ log ∧
        Outcome Zip.unzip (["a.jar"].map (inputSite crateFiles)) s [0, 0] site e := by
  have hcrate : ∀ path ∈ ["a.jar"], ∀ data ∈ inputArchives crateFiles path,
      Mirrors Zip.unzip data (.ok [⟨crateEntry, .ok []⟩]) := by
    have hdata : inputArchives crateFiles "a.jar" = [crate] := rfl
    simpa [hdata] using mirrors_of_forall unzip_crate (by decide)
  have hunpacked := inputs_eq_some hcrate
  have hone : (Unpacked.inputs (fun _ => .ok [⟨crateEntry, .ok []⟩]) crateFiles ["a.jar"]).map
      classCount = .ok 1 := by decide +kernel
  obtain ⟨s, hs, hcount⟩ := map_eq_ok_iff.mp hone
  rw [hs] at hunpacked
  have hsite : Site.among? Zip.unzip (["a.jar"].map (inputSite crateFiles)) [0, 0] =
      some (Site.ofEntry "a.jar" crateEntry) :=
    among?_archive rfl rfl unzip_crate 0
  have hclass : (Site.ofEntry "a.jar" crateEntry).IsClassEntry := by
    rw [Site.ofEntry, Site.IsClassEntry]
    decide
  have hmodule : ¬ (Site.ofEntry "a.jar" crateEntry).TakenForModule := by
    rw [Site.ofEntry, Site.TakenForModule]
    decide
  obtain ⟨log, hfailures, -, -, -, hclasses⟩ := inputs_account_for_class_entries hunpacked
  obtain ⟨e, he, -, houtcome⟩ := (hclasses [0, 0] _ hsite hclass).1 hmodule
  exact ⟨s, log, hunpacked, hcount, hfailures, _, e, hsite, hclass, hmodule, he, houtcome⟩

/-- A zip file with one entry, the class `A` under the name `p/my-module-info.class`. -/
def lostCrate : ByteArray where
  data := #[
    80, 75, 3, 4, 20, 0, 0, 0, 0, 0, 0, 0, 33, 0, 74, 12, 140, 140, 38, 0, 0, 0, 38, 0, 0, 0, 22,
    0, 0, 0,
    112, 47, 109, 121, 45, 109, 111, 100, 117, 108, 101, 45, 105, 110, 102, 111, 46, 99, 108, 97,
    115, 115] ++ (Model.tinyClass 65 66).toArray ++ #[
    80, 75, 1, 2, 20, 3, 20, 0, 0, 0, 0, 0, 0, 0, 33, 0, 74, 12, 140, 140, 38, 0, 0, 0, 38, 0, 0,
    0, 22, 0, 0, 0, 0, 0, 0, 0, 0, 0, 0, 0, 128, 1, 0, 0, 0, 0,
    112, 47, 109, 121, 45, 109, 111, 100, 117, 108, 101, 45, 105, 110, 102, 111, 46, 99, 108, 97,
    115, 115,
    80, 75, 5, 6, 0, 0, 0, 0, 1, 0, 1, 0, 68, 0, 0, 0, 90, 0, 0, 0, 0, 0]

def lostFiles : FileSystem :=
  (FileTree.ofFiles [("a.jar", lostCrate)]).system "/"

def lostEntry : ArchiveEntry :=
  ⟨"p/my-module-info.class", .ok (.ok ⟨(Model.tinyClass 65 66).toArray⟩)⟩

theorem unzip_lostCrate : Zip.unzip lostCrate = .ok [lostEntry] := by
  rw [lostCrate, List.append_toArray, List.append_toArray]
  decide +kernel

/-- A class in an archive that is neither defined nor recorded. -/
theorem inputs_lose_class_entry :
    ∃ s site data d, inputs Zip.unzip lostFiles ["a.jar"] = some (.ok s) ∧
      Site.among? Zip.unzip (["a.jar"].map (inputSite lostFiles)) [0, 0] = some site ∧
      site.IsClassEntry ∧ site.content? = some data ∧
      ClassDefinition.ofBytes data.data.toList = .ok d ∧
      s.classCount = 0 ∧ s.failures = [] ∧ s.model.classContent? d.name = none := by
  have hcrate : ∀ path ∈ ["a.jar"], ∀ data ∈ inputArchives lostFiles path,
      Mirrors Zip.unzip data (.ok [⟨lostEntry, .ok []⟩]) := by
    have hdata : inputArchives lostFiles "a.jar" = [lostCrate] := rfl
    simpa [hdata] using mirrors_of_forall unzip_lostCrate (by decide)
  have hunpacked := inputs_eq_some hcrate
  have hnone : (Unpacked.inputs (fun _ => .ok [⟨lostEntry, .ok []⟩]) lostFiles ["a.jar"]).map
      (fun s => (s.classCount, s.failures, s.model.classContent? "A")) = .ok (0, [], none) := by
    decide +kernel
  obtain ⟨s, hs, hempty⟩ := map_eq_ok_iff.mp hnone
  rw [hs] at hunpacked
  have hsite : Site.among? Zip.unzip (["a.jar"].map (inputSite lostFiles)) [0, 0] =
      some (Site.ofEntry "a.jar" lostEntry) :=
    among?_archive rfl rfl unzip_lostCrate 0
  have hclass : (Site.ofEntry "a.jar" lostEntry).IsClassEntry := by
    rw [Site.ofEntry, Site.IsClassEntry]
    decide
  have hdecoded : ClassDefinition.ofBytes (Model.tinyClass 65 66) =
      .ok ⟨"A", 38, 0, none, ∅, .ofList ["B"]⟩ := by decide +kernel
  rw [Prod.mk.injEq, Prod.mk.injEq] at hempty
  exact ⟨s, _, _, _, hunpacked, hsite, hclass, rfl, hdecoded, hempty⟩

end Scan

end ClassDeps
