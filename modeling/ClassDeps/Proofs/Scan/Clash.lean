import ClassDeps.Proofs.Scan.Order

namespace ClassDeps

namespace Scan

variable {unzip : Unzip} {fs : FileSystem} {s : Scan} {paths : List String} {path : String}

/-- By its name an archive, and not a directory. There may be no such file. -/
def isArchiveFile (fs : FileSystem) (path : String) : Bool :=
  match fs.find path with
  | .ok (.directory _) | .ok (.sealed _) => false
  | .ok (.file _) | .error _ => Path.isArchive path

/-- The definition that a class has after the scan of one input on its own. -/
def InputDefines (unzip : Unzip) (fs : FileSystem) (path : String) (d : ClassDefinition) : Prop :=
  ∃ s, (input unzip fs path).run = some (.ok s) ∧
    s.model.classContent? d.name = some d.content

/-- Two of the inputs define the class called `name`, each in its own way. -/
def Clash (unzip : Unzip) (fs : FileSystem) (paths : List String) (name : String) : Prop :=
  ∃ p ∈ paths, ∃ q ∈ paths, p ≠ q ∧ ∃ d e, InputDefines unzip fs p d ∧
    InputDefines unzip fs q e ∧ d.name = name ∧ e.name = name ∧ d ≠ e

theorem exists_input_of_isArchiveFile (unpack : Unpack) (h : isArchiveFile fs path) :
    ∃ s, Unpacked.input unpack fs path = .ok s := by
  obtain ⟨content, hcontent, harchive⟩ : ∃ content, inputTree fs path = .file content ∧
      Path.isArchive path = true := by
    rw [isArchiveFile] at h
    rw [inputTree]
    split at h
    · cases h
    · cases h
    next content ht => exact ⟨content, by rw [ht], h⟩
    next e ht => exact ⟨.error e, by rw [ht], h⟩
  have hclass : ¬ Path.hasExtension path "class" = true :=
    ne_true_of_eq_false (Path.hasExtension_class_of_isArchive harchive)
  rw [Unpacked.input_eq, hcontent, Unpacked.tree, Unpacked.file, if_neg hclass, if_pos harchive]
  exact ⟨_, rfl⟩

/-- An archive is scanned without an error, or the scan never gets to an end of it. -/
theorem input_of_isArchiveFile (unzip : Unzip) (h : isArchiveFile fs path) :
    ((∃ r, (input unzip fs path).run = some r) ↔
      ∀ data ∈ inputArchives fs path, EndsIn unzip data) ∧
    ∀ r, (input unzip fs path).run = some r → ∃ s, r = .ok s := by
  obtain ⟨unpack, hunpack, -⟩ := exists_unpack unzip
  obtain ⟨s, hs⟩ := exists_input_of_isArchiveFile unpack h
  refine ⟨⟨?_, fun hends => ?_⟩, fun r hr => ⟨s, ?_⟩⟩
  · rintro ⟨r, hr⟩
    obtain ⟨hinput, hends⟩ := input_returned hunpack hr
    rw [hs] at hinput
    exact hends (hinput ▸ rfl)
  · exact ⟨_, input_eq_some path fun data hdata => hunpack data (hends data hdata)⟩
  · rw [← (input_returned hunpack hr).1, hs]

/-- What an input defines is the definition of a class in it. -/
theorem InputDefines.holds {d : ClassDefinition} (h : InputDefines unzip fs path d) :
    (inputSite fs path).Holds unzip d := by
  obtain ⟨s, hs, hd⟩ := h
  obtain ⟨log, hrun, haccount⟩ := input_accounted hs
  have hsummary := (hrun.gains Model.settled_empty).summary
  have hmem : d ∈ s.model.summary.definitions := hd
  rw [hsummary, show (empty : Scan).model.summary = ∅ from Model.summary_empty,
    Summary.empty_union] at hmem
  obtain ⟨_, hpart, hdpart⟩ := Summary.exists_of_mem_join hmem
  obtain ⟨e, he, rfl⟩ := List.mem_map.mp hpart
  obtain ⟨event, hevent, himported⟩ := List.mem_filterMap.mp he
  obtain ⟨t, ht, htells⟩ := haccount.tells event hevent
  have hresult : event.result = .ok e := by
    rw [Event.imported?] at himported
    split at himported
    · cases himported
    next d' hd' => rw [hd', Option.some.inj himported]
  have hproper := htells.proper hresult
  obtain ⟨-, hclass⟩ := htells
  rw [hresult] at hclass
  obtain ⟨hclass, data, hdata, hdecoded⟩ := hclass
  obtain rfl : d = e := hdpart.trans hproper
  exact ⟨event.place, t, data, ht, hclass, hdata, hdecoded⟩

/-- One input does not define a class in two ways. -/
theorem InputDefines.unique {d e : ClassDefinition} (hd : InputDefines unzip fs path d)
    (he : InputDefines unzip fs path e) (h : d.name = e.name) : d = e := by
  obtain ⟨s, hs, hd⟩ := hd
  obtain ⟨s', hs', he⟩ := he
  obtain rfl : s = s' := Except.ok.inj (Option.some.inj (hs.symm.trans hs'))
  exact Model.summary_consistent s.model d hd e he h

theorem append_eq_error {part : Scan} {e : ScanError} (hs : s.model.Settled)
    (hpart : part.model.Coherent) (h : s.append part = .error e) :
    ∃ name, e = .refused (.conflict ⟨name⟩) ∧ ∃ d ∈ s.model.summary.definitions,
      ∃ d' ∈ part.model.summary.definitions, d.name = name ∧ d'.name = name ∧ d ≠ d' := by
  rw [append] at h
  rcases hm : s.model.merge part.model with ⟨c | _, m⟩
  · rw [hm] at h
    cases h
    exact ⟨c.name, rfl, hs.merge_conflict hpart hm⟩
  · rw [hm] at h
    cases h

/-- Parts are joined until two of them conflict. -/
theorem foldlM_append_eq_error {parts : List Scan} {e : ScanError} (hs : s.model.Settled)
    (hparts : ∀ part ∈ parts, part.model.Settled) (h : parts.foldlM append s = .error e) :
    ∃ name, e = .refused (.conflict ⟨name⟩) ∧ ∃ d d', d.name = name ∧ d'.name = name ∧ d ≠ d' ∧
      (d ∈ s.model.summary.definitions ∨ ∃ part ∈ parts, d ∈ part.model.summary.definitions) ∧
      ∃ part ∈ parts, d' ∈ part.model.summary.definitions := by
  induction parts generalizing s with
  | nil => cases h
  | cons part parts ih =>
    obtain ⟨hpart, hrest⟩ := List.forall_mem_cons.mp hparts
    rw [List.foldlM_cons] at h
    cases hstep : s.append part with
    | error e' =>
      rw [hstep] at h
      cases h
      obtain ⟨name, rfl, d, hd, d', hd', hn, hn', hne⟩ := append_eq_error hs hpart.coherent hstep
      exact ⟨name, rfl, d, d', hn, hn', hne, .inl hd, part, List.mem_cons_self, hd'⟩
    | ok s₁ =>
      rw [hstep] at h
      have hmerge := Model.mergeModel_eq_ok_iff.mp (append_eq_ok_iff.mp hstep).1
      obtain ⟨hs₁, hsummary⟩ := hs.merge hpart.coherent hmerge
      obtain ⟨name, rfl, d, d', hn, hn', hne, hd, part', hpart', hd'⟩ := ih hs₁ hrest h
      refine ⟨name, rfl, d, d', hn, hn', hne, ?_, part', List.mem_cons_of_mem _ hpart', hd'⟩
      rw [hsummary] at hd
      rcases hd with (hd | hd) | ⟨part'', hpart'', hd⟩
      · exact .inl hd
      · exact .inr ⟨part, List.mem_cons_self, hd⟩
      · exact .inr ⟨part'', List.mem_cons_of_mem _ hpart'', hd⟩

/-- The definitions in the parts are those of the inputs. -/
theorem Parts.exists_inputDefines {parts : List Scan} (h : Parts unzip fs paths parts) {part : Scan}
    (hpart : part ∈ parts) {d : ClassDefinition} (hd : d ∈ part.model.summary.definitions) :
    ∃ path ∈ paths, InputDefines unzip fs path d := by
  obtain ⟨path, hpath, hinput⟩ := h.exists_input hpart
  exact ⟨path, hpath, part, hinput, hd⟩

/-- What every input defines is in the result. -/
theorem InputDefines.mem_inputs {d : ClassDefinition} (hd : InputDefines unzip fs path d)
    (hpath : path ∈ paths) (h : inputs unzip fs paths = some (.ok s)) :
    d ∈ s.model.summary.definitions := by
  obtain ⟨part, hpart, hd⟩ := hd
  obtain ⟨parts, hparts, hfold⟩ := inputs_eq_ok_iff.mp h
  obtain ⟨-, hsummary⟩ := hparts.mergeAll.2 _ (foldlM_append_eq_ok_iff.mp hfold).1
  rw [hsummary]
  have hmem : part ∈ parts := hparts.mem_of_input hpath hpart
  exact .inr (Summary.mem_definitions_join (List.mem_map_of_mem (List.mem_map_of_mem hmem)) hd)

/-- Inputs that are each scanned without an error are joined, unless two of them clash. -/
theorem Parts.inputs_cases {parts : List Scan} (hparts : Parts unzip fs paths parts) :
    (∃ s, inputs unzip fs paths = some (.ok s)) ∧ (∀ name, ¬Clash unzip fs paths name) ∨
      ∃ name, Clash unzip fs paths name ∧
        inputs unzip fs paths = some (.error (.refused (.conflict ⟨name⟩))) := by
  cases hfold : parts.foldlM append empty with
  | ok s =>
    have hinputs : inputs unzip fs paths = some (.ok s) := hfold ▸ hparts.inputs_eq
    refine .inl ⟨⟨s, hinputs⟩, ?_⟩
    rintro name ⟨p, hp, q, hq, -, d, e, hd, he, hdn, hen, hne⟩
    -- Both definitions would be in one model.
    exact hne (Model.summary_consistent s.model d (hd.mem_inputs hp hinputs) e
      (he.mem_inputs hq hinputs) (hdn.trans hen.symm))
  | error e =>
    have hsettled : ∀ part ∈ parts, part.model.Settled := by
      intro part hpart
      obtain ⟨path, -, hinput⟩ := hparts.exists_input hpart
      exact (input_settled hinput).1
    obtain ⟨name, rfl, d, d', hn, hn', hne, hd, part', hpart', hd'⟩ :=
      foldlM_append_eq_error Model.settled_empty hsettled hfold
    have hd : ∃ part ∈ parts, d ∈ part.model.summary.definitions := by
      refine hd.resolve_left ?_
      rw [show (empty : Scan).model.summary = ∅ from Model.summary_empty]
      exact Set.notMem_empty d
    obtain ⟨part, hpart, hd⟩ := hd
    obtain ⟨p, hp, hpd⟩ := hparts.exists_inputDefines hpart hd
    obtain ⟨q, hq, hqd⟩ := hparts.exists_inputDefines hpart' hd'
    refine .inr ⟨name, ⟨p, hp, q, hq, ?_, d, d', hpd, hqd, hn, hn', hne⟩, ?_⟩
    · rintro rfl
      exact hne (hpd.unique hqd (hn.trans hn'.symm))
    · rw [hparts.inputs_eq, hfold]

theorem exists_inputs_of_archives_iff (h : ∀ path ∈ paths, isArchiveFile fs path) :
    (∃ r, inputs unzip fs paths = some r) ↔
      ∀ path ∈ paths, ∀ data ∈ inputArchives fs path, EndsIn unzip data := by
  rw [exists_inputs_iff]
  exact forall₂_congr fun path hpath => (input_of_isArchiveFile unzip (h path hpath)).1

/-- The scan of an archive that contains itself does not return. -/
theorem inputs_eq_none_of_mem_inner (h : ∀ path ∈ paths, isArchiveFile fs path)
    (hpath : path ∈ paths) {data : ByteArray} (hdata : data ∈ inputArchives fs path)
    {es : List ArchiveEntry} (hes : unzip data = .ok es) (hself : es ∈ inner unzip es) :
    inputs unzip fs paths = none := by
  rw [Option.eq_none_iff_forall_ne_some]
  intro r hr
  have hends := (exists_inputs_of_archives_iff h).mp ⟨r, hr⟩ path hpath data hdata
  exact not_ends_of_mem_inner hself (hends es hes)

/-- Inputs that are all archives, missing and unreadable ones included, are scanned without an error
unless two of them define one class in different ways. Then the error names such a class. What an
archive defines a class by is always the content of one of its class entries. The scan returns
unless there is no end to the archives in one of the inputs. -/
theorem inputs_of_archives (h : ∀ path ∈ paths, isArchiveFile fs path) :
    ((∃ r, inputs unzip fs paths = some r) ↔
      ∀ path ∈ paths, ∀ data ∈ inputArchives fs path, EndsIn unzip data) ∧
    (∀ r, inputs unzip fs paths = some r →
      (∃ s, r = .ok s) ∧ (∀ name, ¬Clash unzip fs paths name) ∨
      ∃ name, Clash unzip fs paths name ∧ r = .error (.refused (.conflict ⟨name⟩))) ∧
    ∀ path d, InputDefines unzip fs path d → (inputSite fs path).Holds unzip d := by
  refine ⟨exists_inputs_of_archives_iff h, fun r hr => ?_, fun path d hd => hd.holds⟩
  have hinputs := exists_inputs_iff.mp ⟨r, hr⟩
  obtain ⟨parts, hparts⟩ : ∃ parts, Parts unzip fs paths parts := by
    refine exists_parts fun path hpath => ?_
    obtain ⟨result, hresult⟩ := hinputs path hpath
    obtain ⟨part, rfl⟩ := (input_of_isArchiveFile unzip (h path hpath)).2 result hresult
    exact ⟨part, hresult⟩
  rcases hparts.inputs_cases with ⟨⟨s, hs⟩, hnone⟩ | ⟨name, hclash, hs⟩
  · exact .inl ⟨⟨s, Option.some.inj (hr.symm.trans hs)⟩, hnone⟩
  · exact .inr ⟨name, hclash, Option.some.inj (hr.symm.trans hs)⟩

/-- A zip file with one entry, the class `A` with another superclass. -/
def rivalCrate : ByteArray where
  data := #[
    80, 75, 3, 4, 20, 0, 0, 0, 0, 0, 0, 0, 33, 0, 171, 186, 222, 99, 38, 0, 0, 0, 38, 0, 0, 0, 7,
    0, 0, 0,
    65, 46, 99, 108, 97, 115, 115] ++ (Model.tinyClass 65 67).toArray ++ #[
    80, 75, 1, 2, 20, 3, 20, 0, 0, 0, 0, 0, 0, 0, 33, 0, 171, 186, 222, 99, 38, 0, 0, 0, 38, 0, 0,
    0, 7, 0, 0, 0, 0, 0, 0, 0, 0, 0, 0, 0, 128, 1, 0, 0, 0, 0,
    65, 46, 99, 108, 97, 115, 115,
    80, 75, 5, 6, 0, 0, 0, 0, 1, 0, 1, 0, 53, 0, 0, 0, 75, 0, 0, 0, 0, 0]

def rivalFiles : FileSystem :=
  (FileTree.ofFiles [("a.jar", crate), ("b.jar", rivalCrate)]).system "/"

def rivalEntry : ArchiveEntry := ⟨"A.class", .ok (.ok ⟨(Model.tinyClass 65 67).toArray⟩)⟩

theorem unzip_rivalCrate : Zip.unzip rivalCrate = .ok [rivalEntry] := by
  rw [rivalCrate, List.append_toArray, List.append_toArray]
  decide +kernel

theorem inputDefines_of_mirrors (trees : Except ArchiveFault (List EntryTree)) {d : ClassDefinition}
    (hmirrors : ∀ data ∈ inputArchives fs path, Mirrors unzip data trees)
    (h : (Unpacked.input (fun _ => trees) fs path).map (·.model.classContent? d.name) =
      .ok (some d.content)) : InputDefines unzip fs path d := by
  obtain ⟨s, hs, hd⟩ := map_eq_ok_iff.mp h
  exact ⟨s, hs ▸ input_eq_some path hmirrors, hd⟩

/-- A missing archive between two that clash. -/
theorem inputs_of_archives_rivals :
    (∀ path ∈ ["a.jar", "none.jar", "b.jar"], isArchiveFile rivalFiles path) ∧
      Clash Zip.unzip rivalFiles ["a.jar", "none.jar", "b.jar"] "A" ∧
      ∃ name, inputs Zip.unzip rivalFiles ["a.jar", "none.jar", "b.jar"] =
        some (.error (.refused (.conflict ⟨name⟩))) := by
  have harchives : ∀ path ∈ ["a.jar", "none.jar", "b.jar"], isArchiveFile rivalFiles path := by
    decide +kernel
  have hfirst : InputDefines Zip.unzip rivalFiles "a.jar"
      ⟨"A", 38, 0, none, ∅, .ofList ["B"]⟩ := by
    have hdata : inputArchives rivalFiles "a.jar" = [crate] := rfl
    refine inputDefines_of_mirrors (.ok [⟨crateEntry, .ok []⟩]) ?_ (by decide +kernel)
    simpa [hdata] using mirrors_of_forall unzip_crate (by decide)
  have hsecond : InputDefines Zip.unzip rivalFiles "b.jar"
      ⟨"A", 38, 0, none, ∅, .ofList ["C"]⟩ := by
    have hdata : inputArchives rivalFiles "b.jar" = [rivalCrate] := rfl
    refine inputDefines_of_mirrors (.ok [⟨rivalEntry, .ok []⟩]) ?_ (by decide +kernel)
    simpa [hdata] using mirrors_of_forall unzip_rivalCrate (by decide)
  have hclash : Clash Zip.unzip rivalFiles ["a.jar", "none.jar", "b.jar"] "A" :=
    ⟨"a.jar", by decide, "b.jar", by decide, by decide, _, _, hfirst, hsecond, rfl, rfl, by decide⟩
  have hmissing : (input Zip.unzip rivalFiles "none.jar").run = some _ :=
    @input_eq_some Zip.unzip (fun _ => .ok []) rivalFiles "none.jar" (by
      have hdata : inputArchives rivalFiles "none.jar" = [] := rfl
      simp [hdata])
  obtain ⟨s, hs, -⟩ := hfirst
  obtain ⟨s', hs', -⟩ := hsecond
  obtain ⟨r, hr⟩ : ∃ r, inputs Zip.unzip rivalFiles ["a.jar", "none.jar", "b.jar"] = some r := by
    refine exists_inputs_iff.mpr ?_
    simp [hs, hs', hmissing]
  obtain ⟨-, hcases, -⟩ := @inputs_of_archives Zip.unzip rivalFiles _ harchives
  rcases hcases r hr with ⟨-, hnone⟩ | ⟨name, -, rfl⟩
  · exact absurd hclash (hnone "A")
  · exact ⟨harchives, hclash, name, hr⟩

/-- A reader that finds one archive in every file, the file itself. -/
def unzipEndless : Unzip := fun data => .ok [⟨"a.jar", .ok (.ok data)⟩]

/-- One archive and nothing that clashes, and the scan does not return. -/
theorem inputs_endless :
    (∀ path ∈ ["a.jar"], isArchiveFile crateFiles path) ∧
      (∀ name, ¬Clash unzipEndless crateFiles ["a.jar"] name) ∧
      inputs unzipEndless crateFiles ["a.jar"] = none := by
  have harchives : ∀ path ∈ ["a.jar"], isArchiveFile crateFiles path :=
    List.forall_mem_singleton.mpr rfl
  have hdata : crate ∈ inputArchives crateFiles "a.jar" := List.mem_singleton_self crate
  have hself : [⟨"a.jar", .ok (.ok crate)⟩] ∈ inner unzipEndless [⟨"a.jar", .ok (.ok crate)⟩] :=
    mem_inner.mpr ⟨rfl, _, List.mem_singleton_self _, by decide, by decide, crate, rfl, rfl⟩
  refine ⟨harchives, ?_, ?_⟩
  · rintro name ⟨p, hp, q, hq, hne, -⟩
    exact hne ((List.mem_singleton.mp hp).trans (List.mem_singleton.mp hq).symm)
  · exact inputs_eq_none_of_mem_inner harchives (List.mem_singleton_self _) hdata rfl hself

end Scan

end ClassDeps
