import ClassDeps.Proofs.File.Path
import ClassDeps.Proofs.Scan.Turn
import ClassDeps.Proofs.Traverse
import Mathlib.Data.List.Forall2

namespace ClassDeps

namespace Scan

variable {unzip : Unzip} {es es' : List ArchiveEntry} {data : ByteArray} {location : String}
  {index : Nat} {s : Scan}

/-- The archives that a scan of these entries goes into. -/
def inner (unzip : Unzip) (es : List ArchiveEntry) : List (List ArchiveEntry) :=
  match es.findSome? ArchiveEntry.blocked with
  | some _ => []
  | none => (es.filter fun e => isScanned e.name && Path.isArchive e.name).filterMap fun e =>
    (e.content >>= unzip).toOption

theorem mem_inner : es' ∈ inner unzip es ↔ es.findSome? ArchiveEntry.blocked = none ∧
    ∃ e ∈ es, isScanned e.name = true ∧ Path.isArchive e.name = true ∧
      ∃ data, e.content = .ok data ∧ unzip data = .ok es' := by
  rw [inner]
  cases es.findSome? ArchiveEntry.blocked with
  | some fault => simp
  | none =>
    have hread : ∀ e : ArchiveEntry, (e.content >>= unzip).toOption = some es' ↔
        ∃ data, e.content = .ok data ∧ unzip data = .ok es' := by
      intro e
      rw [← bind_eq_ok_iff]
      cases e.content >>= unzip with
      | error fault => simp [Except.toOption]
      | ok found => simp [Except.toOption]
    simp only [List.mem_filterMap, List.mem_filter, Bool.and_eq_true, hread, true_and, and_assoc]

/-- Archives lie in archives at most `n` deep, the outermost counted. -/
def nestsWithin (unzip : Unzip) : Nat → List ArchiveEntry → Bool
  | 0, _ => false
  | n + 1, es => (inner unzip es).all (nestsWithin unzip n)

/-- There is an end to the archives inside. -/
def Ends (unzip : Unzip) (es : List ArchiveEntry) : Prop :=
  ∃ n, nestsWithin unzip n es = true

theorem nestsWithin_succ {n : Nat} (h : nestsWithin unzip n es = true) :
    nestsWithin unzip (n + 1) es = true := by
  induction n generalizing es with
  | zero => cases h
  | succ n ih =>
    rw [nestsWithin, List.all_eq_true] at h ⊢
    exact fun es' hes' => ih (h es' hes')

theorem nestsWithin_mono {n k : Nat} (hle : n ≤ k) (h : nestsWithin unzip n es = true) :
    nestsWithin unzip k es = true := by
  induction hle with
  | refl => exact h
  | step _ ih => exact nestsWithin_succ ih

theorem ends_iff : Ends unzip es ↔ ∀ es' ∈ inner unzip es, Ends unzip es' := by
  constructor
  · rintro ⟨n, hn⟩ es' hes'
    cases n with
    | zero => cases hn
    | succ n => exact ⟨n, List.all_eq_true.mp hn es' hes'⟩
  · intro h
    -- The deepest of finitely many archives bounds them all.
    have hbound : ∀ l : List (List ArchiveEntry), (∀ es' ∈ l, Ends unzip es') →
        ∃ n, ∀ es' ∈ l, nestsWithin unzip n es' = true := by
      intro l
      induction l with
      | nil => exact fun _ => ⟨0, List.forall_mem_nil _⟩
      | cons first rest ih =>
        intro hl
        obtain ⟨⟨n, hn⟩, hrest⟩ := List.forall_mem_cons.mp hl
        obtain ⟨k, hk⟩ := ih hrest
        refine ⟨max n k, List.forall_mem_cons.mpr ⟨?_, ?_⟩⟩
        · exact nestsWithin_mono (Nat.le_max_left n k) hn
        · exact fun es' hes' => nestsWithin_mono (Nat.le_max_right n k) (hk es' hes')
    obtain ⟨n, hn⟩ := hbound (inner unzip es) h
    exact ⟨n + 1, List.all_eq_true.mpr hn⟩

/-- There is no end to an archive that contains itself. -/
theorem not_ends_of_mem_inner (h : es ∈ inner unzip es) : ¬Ends unzip es := by
  rintro ⟨n, hn⟩
  induction n with
  | zero => cases hn
  | succ n ih => exact ih (List.all_eq_true.mp hn es h)

/-- The same of the archive in these bytes, if they are one. -/
def EndsIn (unzip : Unzip) (data : ByteArray) : Prop :=
  ∀ es, unzip data = .ok es → Ends unzip es

/-- The trees are what the reader finds in `data` and in the archives inside, as far as a scan goes
into them. -/
inductive Mirrors (unzip : Unzip) : ByteArray → Except ArchiveFault (List EntryTree) → Prop
  | intro {data trees} : unzip data = trees.map (List.map EntryTree.toArchiveEntry) →
      (∀ ts, trees = .ok ts → ts.findSome? (·.blocked) = none → ∀ e ∈ ts,
        isScanned e.name = true → Path.isArchive e.name = true → ∀ content,
        e.content = .ok content → Mirrors unzip content e.nested) →
      Mirrors unzip data trees

theorem Mirrors.unzip_eq {trees : Except ArchiveFault (List EntryTree)}
    (h : Mirrors unzip data trees) :
    unzip data = trees.map (List.map EntryTree.toArchiveEntry) := by
  cases h with
  | intro hunzip _ => exact hunzip

/-- The archive inside an entry is mirrored, if it is one that a scan goes into. -/
def MirrorsEntry (unzip : Unzip) (e : EntryTree) : Prop :=
  Path.isArchive e.name = true → ∀ data, e.content = .ok data → Mirrors unzip data e.nested

theorem Mirrors.entry {ts : List EntryTree} (h : Mirrors unzip data (.ok ts))
    (hblocked : ts.findSome? (·.blocked) = none) {e : EntryTree} (he : e ∈ ts)
    (hscanned : isScanned e.name = true) : MirrorsEntry unzip e := by
  cases h with
  | intro _ hinside => exact hinside ts rfl hblocked e he hscanned

/-- An entry unpacked `n` levels down. -/
def unpackEntry (unzip : Unzip) : Nat → ArchiveEntry → EntryTree
  | 0, e => ⟨e, .ok []⟩
  | n + 1, e => ⟨e, (e.content >>= unzip).map (List.map (unpackEntry unzip n))⟩

def unpack (unzip : Unzip) (n : Nat) : Unpack := fun data =>
  (unzip data).map (List.map (unpackEntry unzip n))

theorem toArchiveEntry_unpackEntry (n : Nat) (e : ArchiveEntry) :
    (unpackEntry unzip n e).toArchiveEntry = e := by
  cases n <;> rfl

theorem map_toArchiveEntry_unpackEntry (n : Nat) (es : List ArchiveEntry) :
    (es.map (unpackEntry unzip n)).map EntryTree.toArchiveEntry = es := by
  rw [List.map_map]
  exact List.map_id'' (toArchiveEntry_unpackEntry n) es

/-- What is a level further down is nested less deeply. -/
theorem forall_nestsWithin_of_mem {n : Nat} (h : nestsWithin unzip (n + 1) es = true)
    (hblocked : es.findSome? ArchiveEntry.blocked = none) {e : ArchiveEntry} (he : e ∈ es)
    (hscanned : isScanned e.name = true) (harchive : Path.isArchive e.name = true)
    (hcontent : e.content = .ok data) :
    ∀ es', unzip data = .ok es' → nestsWithin unzip n es' = true := by
  intro es' hes'
  exact List.all_eq_true.mp h es'
    (mem_inner.mpr ⟨hblocked, e, he, hscanned, harchive, data, hcontent, hes'⟩)

theorem nested_unpackEntry {e : ArchiveEntry} (hcontent : e.content = .ok data) (n : Nat) :
    (unpackEntry unzip (n + 1) e).nested = unpack unzip n data := by
  show (e.content >>= unzip).map _ = _
  rw [hcontent]
  rfl

theorem mirrors_unpack {n : Nat} (h : ∀ es, unzip data = .ok es → nestsWithin unzip n es = true) :
    Mirrors unzip data (unpack unzip n data) := by
  induction n generalizing data with
  | zero =>
    rw [unpack]
    cases hdata : unzip data with
    | error fault => exact .intro hdata nofun
    | ok es => cases h es hdata
  | succ n ih =>
    rw [unpack]
    cases hdata : unzip data with
    | error fault => exact .intro hdata nofun
    | ok es =>
      refine .intro ?_ ?_
      · rw [hdata]
        exact congrArg Except.ok (map_toArchiveEntry_unpackEntry (n + 1) es).symm
      · intro ts hts hblocked e he hscanned harchive content hcontent
        cases hts
        obtain ⟨a, ha, rfl⟩ := List.mem_map.mp he
        rw [List.findSome?_map] at hblocked
        rw [nested_unpackEntry (e := a) hcontent]
        exact ih (forall_nestsWithin_of_mem (h es hdata) hblocked ha hscanned harchive hcontent)

theorem EndsIn.exists_mirrors (h : EndsIn unzip data) : ∃ trees, Mirrors unzip data trees := by
  cases hdata : unzip data with
  | error fault => exact ⟨.error fault, .intro hdata nofun⟩
  | ok es =>
    obtain ⟨n, hn⟩ := h es hdata
    refine ⟨unpack unzip n data, mirrors_unpack fun es' hes' => ?_⟩
    cases hdata.symm.trans hes'
    exact hn

/-- Whatever a class is refused for, the scan can go on. -/
theorem importClass_fst (s : Scan) (data : ByteArray) (location : String) :
    (s.importClass data location).1 = .ok () ∨
      ∃ e, (s.importClass data location).1 = .error (.refused e) := by
  unfold importClass
  rcases s.model.importClass data.data.toList location with ⟨e | _, _⟩
  · exact .inr ⟨e, rfl⟩
  · exact .inl rfl

/-- What is not an archive is imported or recorded. -/
theorem entry_eq_some_of_class {e : ArchiveEntry} (harchive : Path.isArchive e.name = false)
    (hcontent : e.content = .ok data) (location : String) (index : Nat) (s : Scan) :
    entry unzip e location index s = some (.ok (), record (location ++ "!" ++ e.name)
      (s.importClass data (location ++ "!" ++ e.name))) := by
  rw [entry, hcontent]
  simp only [harchive, Bool.false_eq_true, if_false]
  rcases hs : s.importClass data (location ++ "!" ++ e.name) with ⟨cause | _, s'⟩
  · have hfst := importClass_fst s data (location ++ "!" ++ e.name)
    rw [hs] at hfst
    obtain ⟨cause, rfl⟩ : ∃ e, cause = .refused e := by simpa using hfst
    rfl
  · rfl

/-- Entries that are scanned one after the other, if no error ends it. -/
theorem foldlM_eq_some {α : Type}
    {step : Except ScanError Unit × Scan → α → Option (Except ScanError Unit × Scan)}
    {next : Scan → α → Scan} {l : List α}
    (h : ∀ a ∈ l, ∀ s, step (.ok (), s) a = some (.ok (), next s a)) (s : Scan) :
    l.foldlM step (.ok (), s) = some (.ok (), l.foldl next s) := by
  induction l generalizing s with
  | nil => rfl
  | cons a l ih =>
    rw [List.foldlM_cons, h a List.mem_cons_self]
    exact ih (fun b hb => h b (List.mem_cons_of_mem a hb)) _

theorem scanned_map (ts : List EntryTree) : scanned (ts.map EntryTree.toArchiveEntry) =
    (Unpacked.entryTurns ts).map fun p => p.1.toArchiveEntry := by
  have hfst : (Unpacked.entryTurns ts).map (fun p => p.1.toArchiveEntry) =
      ((Unpacked.entryTurns ts).map Prod.fst).map EntryTree.toArchiveEntry := by
    rw [List.map_map]
    rfl
  rw [hfst, Unpacked.entryTurns, map_fst_turns, scanned, List.filter_map]
  refine (List.map_mergeSort ?_).symm
  intro a _ b _
  rfl

/-- An archive whose entries come to an end does. -/
theorem archive_eq_some_of_entries {medium : Medium} {ts : List EntryTree}
    (h : ts.findSome? (·.blocked) = none → ∀ e ∈ ts, isScanned e.name = true → ∀ s,
      entry unzip e.toArchiveEntry location index s =
        some (.ok (), Unpacked.entry e location index s)) (s : Scan) :
    (archive unzip medium (ts.map EntryTree.toArchiveEntry) location index s).map
      (record location) = some (Unpacked.archive medium ts location index s) := by
  have hblocked : (ts.map EntryTree.toArchiveEntry).findSome? ArchiveEntry.blocked =
      ts.findSome? (·.blocked) := by
    rw [List.findSome?_map]
    rfl
  rw [archive, hblocked]
  cases hnone : ts.findSome? (·.blocked) with
  | some fault =>
    rw [Unpacked.archive_of_blocked hnone]
    rfl
  | none =>
    have hsteps : ∀ p ∈ Unpacked.entryTurns ts, ∀ s,
        entry unzip p.1.toArchiveEntry location index s =
          some (.ok (), Unpacked.entry p.1 location index s) := by
      intro p hp
      obtain ⟨hget, hscanned⟩ := mem_turns.mp hp
      exact h hnone p.1 (List.mem_of_getElem? hget) hscanned
    rw [Unpacked.archive_eq_foldl hnone, scanned_map]
    dsimp only
    rw [List.foldlM_map, foldlM_eq_some hsteps]
    rfl

theorem entry_eq_some (e : EntryTree) (h : MirrorsEntry unzip e) (location : String)
    (index : Nat) (s : Scan) : entry unzip e.toArchiveEntry location index s =
      some (.ok (), Unpacked.entry e location index s) := by
  induction e using EntryTree.nested_induction generalizing location index s with
  | h e ih =>
  rw [Unpacked.entry_eq]
  cases hcontent : e.content with
  | error fault => rw [entry, hcontent]
  | ok data =>
    cases harchive : Path.isArchive e.name with
    | false =>
      rw [entry_eq_some_of_class harchive hcontent]
      rfl
    | true =>
      have hmirrors := h harchive data hcontent
      have hunzip := hmirrors.unzip_eq
      rw [entry, hcontent]
      simp only [harchive, if_true, hunzip]
      cases hnested : e.nested with
      | error fault =>
        rw [Unpacked.nestedArchive]
        rfl
      | ok ts =>
        rw [hnested] at hmirrors
        have harchive : ∀ index s, (archive unzip .memory (ts.map EntryTree.toArchiveEntry)
            (location ++ "!" ++ e.name) index s).map (record (location ++ "!" ++ e.name)) =
              some (Unpacked.archive .memory ts (location ++ "!" ++ e.name) index s) := by
          intro index s
          refine archive_eq_some_of_entries (fun hnone e' he' hscanned => ?_) s
          exact ih ts hnested e' he' (hmirrors.entry hnone he' hscanned) _ index
        obtain ⟨ended, hended, hrecord⟩ := Option.map_eq_some_iff.mp (harchive _ _)
        rw [Unpacked.nestedArchive]
        show (archive unzip .memory (ts.map EntryTree.toArchiveEntry) _ _ _).bind _ = _
        rw [hended, Option.bind_some, hrecord]
        rfl

/-- The same of the archives among entries that are scanned. -/
def MirrorsAll (unzip : Unzip) (ts : List EntryTree) : Prop :=
  ts.findSome? (·.blocked) = none → ∀ e ∈ ts, isScanned e.name = true → MirrorsEntry unzip e

theorem Mirrors.all {ts : List EntryTree} (h : Mirrors unzip data (.ok ts)) :
    MirrorsAll unzip ts :=
  fun hblocked _ he hscanned => h.entry hblocked he hscanned

/-- An archive that can be unpacked is scanned as if it had been. -/
theorem MirrorsAll.archive_eq_some {ts : List EntryTree} (h : MirrorsAll unzip ts)
    (medium : Medium) (location : String) (index : Nat) (s : Scan) :
    (archive unzip medium (ts.map EntryTree.toArchiveEntry) location index s).map
      (record location) = some (Unpacked.archive medium ts location index s) :=
  archive_eq_some_of_entries
    (fun hnone e he hscanned => entry_eq_some e (h hnone e he hscanned) location index) s

/-- What holds of every entry that was scanned without an error. -/
theorem forall_of_foldlM_eq_some {α : Type}
    {step : Except ScanError Unit × Scan → α → Option (Except ScanError Unit × Scan)}
    {P : α → Prop} {l : List α}
    (h : ∀ a s r, step (.ok (), s) a = some r → r.1 = .ok () ∧ P a)
    {r : Except ScanError Unit × Scan} (hr : l.foldlM step (.ok (), s) = some r) :
    r.1 = .ok () ∧ ∀ a ∈ l, P a := by
  induction l generalizing s with
  | nil =>
    cases hr
    exact ⟨rfl, List.forall_mem_nil _⟩
  | cons a l ih =>
    rw [List.foldlM_cons] at hr
    obtain ⟨⟨ended, s'⟩, hfirst, hrest⟩ := Option.bind_eq_some_iff.mp hr
    obtain ⟨rfl, ha⟩ := h a s _ hfirst
    obtain ⟨hok, hl⟩ := ih hrest
    exact ⟨hok, List.forall_mem_cons.mpr ⟨ha, hl⟩⟩

/-- A scan that returns has come to an end of the archives inside. The one error that it can return
is that the archive itself has an entry that cannot be opened: no error of an entry gets out. -/
theorem archive_returned {medium : Medium} {r : Except ScanError Unit × Scan}
    (h : archive unzip medium es location index s = some r) :
    Ends unzip es ∧ (r.1 = .ok () ∨ ∃ fault, r = (.error (.unreadable location fault), s)) := by
  have hboth := entry.mutual_partial_correctness unzip
    (fun e _ _ _ r => r.1 = .ok () ∧ (isScanned e.name = true → Path.isArchive e.name = true →
      ∀ data es, e.content = .ok data → unzip data = .ok es → Ends unzip es))
    (fun _ es location _ s r => Ends unzip es ∧
      (r.1 = .ok () ∨ ∃ fault, r = (.error (.unreadable location fault), s)))
    ?entry ?archive
  case entry =>
    intro inside ih e location index s r hr
    dsimp only at hr
    cases hcontent : e.content with
    | error fault =>
      rw [hcontent] at hr
      cases hr
      exact ⟨rfl, nofun⟩
    | ok data =>
      rw [hcontent] at hr
      dsimp only at hr
      cases harchive : Path.isArchive e.name with
      | false =>
        have hclass := @entry_eq_some_of_class unzip data e harchive hcontent location index s
        rw [entry, hcontent] at hclass
        dsimp only at hclass
        rw [harchive, if_neg Bool.false_ne_true] at hclass hr
        cases hr.symm.trans hclass
        exact ⟨rfl, nofun⟩
      | true =>
        rw [harchive, if_pos rfl] at hr
        cases hdata : unzip data with
        | error fault =>
          rw [hdata] at hr
          cases hr
          refine ⟨rfl, fun _ _ data' es hdata' hes => ?_⟩
          cases hdata'
          cases hdata.symm.trans hes
        | ok es =>
          rw [hdata] at hr
          obtain ⟨ended, hended, hr⟩ := Option.bind_eq_some_iff.mp hr
          cases hr
          refine ⟨rfl, fun _ _ data' es' hdata' hes => ?_⟩
          cases hdata'
          cases hdata.symm.trans hes
          exact (ih _ _ _ _ _ _ hended).1
  case archive =>
    intro step ih medium es location index s r hr
    cases hblocked : es.findSome? ArchiveEntry.blocked with
    | some fault =>
      rw [hblocked] at hr
      cases hr
      refine ⟨ends_iff.mpr fun es' hes' => ?_, .inr ⟨_, rfl⟩⟩
      rw [mem_inner, hblocked] at hes'
      cases hes'.1
    | none =>
      rw [hblocked] at hr
      obtain ⟨hok, hall⟩ := forall_of_foldlM_eq_some (fun e s r => ih e location index s r) hr
      refine ⟨ends_iff.mpr fun es' hes' => ?_, .inl hok⟩
      obtain ⟨-, e, he, hscanned, harchive, data, hcontent, hdata⟩ := mem_inner.mp hes'
      refine hall e ?_ hscanned harchive data es' hcontent hdata
      exact List.mem_mergeSort.mpr (List.mem_filter.mpr ⟨he, hscanned⟩)
  exact hboth.2 medium es location index s r h

theorem mirrorsAll_map_unpackEntry {n : Nat} (h : nestsWithin unzip n es = true) :
    MirrorsAll unzip (es.map (unpackEntry unzip n)) := by
  intro hblocked e he hscanned
  match n, h with
  | n + 1, h =>
    obtain ⟨a, ha, rfl⟩ := List.mem_map.mp he
    rw [List.findSome?_map] at hblocked
    intro harchive data hcontent
    rw [nested_unpackEntry (e := a) hcontent]
    exact mirrors_unpack (forall_nestsWithin_of_mem h hblocked ha hscanned harchive hcontent)

/-- The scan of an archive returns exactly if there is an end to the archives inside. -/
theorem exists_archive_iff (medium : Medium) (es : List ArchiveEntry) (location : String)
    (index : Nat) (s : Scan) :
    (∃ r, archive unzip medium es location index s = some r) ↔ Ends unzip es := by
  constructor
  · rintro ⟨r, hr⟩
    exact (archive_returned hr).1
  · rintro ⟨n, hn⟩
    have hmap := (mirrorsAll_map_unpackEntry hn).archive_eq_some medium location index s
    rw [map_toArchiveEntry_unpackEntry] at hmap
    obtain ⟨r, hr, -⟩ := Option.map_eq_some_iff.mp hmap
    exact ⟨r, hr⟩

end Scan

namespace FileTree

/-- Induction over directories in directories. -/
theorem directory_induction {P : FileTree → Prop} (hfile : ∀ content, P (.file content))
    (hsealed : ∀ e, P (.sealed e))
    (hdirectory : ∀ items, (∀ item ∈ items, P item.2) → P (.directory items)) (t : FileTree) :
    P t := by
  match t with
  | .file content => exact hfile content
  | .sealed e => exact hsealed e
  | .directory items =>
    apply hdirectory
    intro item hitem
    have hsmaller : sizeOf item.2 < 1 + sizeOf items := by
      have hmem := List.sizeOf_lt_of_mem hitem
      have hpair : sizeOf item = 1 + sizeOf item.1 + sizeOf item.2 := rfl
      omega
    exact directory_induction hfile hsealed hdirectory item.2
termination_by sizeOf t

mutual

/-- The files below, with the names that lead to them. A directory that cannot be listed counts as a
file that cannot be read. -/
def files : FileTree → List (List String × Except FileError ByteArray)
  | .file content => [([], content)]
  | .sealed e => [([], .error e)]
  | .directory items => filesIn items

def filesIn : List (String × FileTree) → List (List String × Except FileError ByteArray)
  | [] => []
  | (name, t) :: rest => t.files.map (fun f => (name :: f.1, f.2)) ++ filesIn rest

end

theorem files_directory (items : List (String × FileTree)) : (directory items).files =
    items.flatMap fun item => item.2.files.map fun f => (item.1 :: f.1, f.2) := by
  rw [files]
  induction items with
  | nil => rw [filesIn]; rfl
  | cons item items ih => rw [filesIn, ih, List.flatMap_cons]

/-- The contents of the archive files below `path` that can be read. -/
def archives (t : FileTree) (path : String) : List ByteArray :=
  t.files.filterMap fun f =>
    if Path.isArchive (f.1.foldl Path.join path) then f.2.toOption else none

theorem archives_directory (items : List (String × FileTree)) (path : String) :
    (directory items).archives path =
      items.flatMap fun item => item.2.archives (Path.join path item.1) := by
  simp only [archives, files_directory, List.filterMap_flatMap, List.filterMap_map]
  rfl

theorem mem_archives_file {content : Except FileError ByteArray} {path : String}
    {data : ByteArray} : data ∈ (file content).archives path ↔
      Path.isArchive path = true ∧ content = .ok data := by
  rw [archives, files, List.filterMap_cons, List.filterMap_nil]
  cases content with
  | error e => cases h : Path.isArchive path <;> simp [Except.toOption, h]
  | ok data' => cases h : Path.isArchive path <;> simp [Except.toOption, h, eq_comm]

end FileTree

namespace Scan

variable {unzip : Unzip} {unpack : Unpack} {fs : FileSystem} {content : Except FileError ByteArray}
  {data : ByteArray} {path : String} {isTarget : Bool} {s : Scan}

theorem archiveFile_eq_some (h : ∀ data, content = .ok data → Mirrors unzip data (unpack data))
    (path : String) (isTarget : Bool) (s : Scan) :
    archiveFile unzip fs content path isTarget s =
      some (Unpacked.archiveFile unpack fs content path isTarget s) := by
  unfold archiveFile Unpacked.archiveFile
  cases content with
  | error e => rfl
  | ok data =>
    have hmirrors := h data rfl
    dsimp only [Except.mapError]
    rw [hmirrors.unzip_eq]
    cases htrees : unpack data with
    | error fault => rfl
    | ok ts =>
      rw [htrees] at hmirrors
      obtain ⟨ended, hended, hrecord⟩ :=
        Option.map_eq_some_iff.mp (hmirrors.all.archive_eq_some .file path _ _)
      show (archive unzip .file (ts.map EntryTree.toArchiveEntry) _ _ _).bind _ = _
      rw [hended, Option.bind_some, hrecord]
      rfl

theorem archiveFile_returned {s' : Scan}
    (h : archiveFile unzip fs (.ok data) path isTarget s = some s') : EndsIn unzip data := by
  intro es hes
  rw [archiveFile] at h
  dsimp only [Except.mapError] at h
  rw [hes] at h
  obtain ⟨ended, hended, -⟩ := Option.bind_eq_some_iff.mp h
  exact (archive_returned hended).1

theorem treeSteps_eq (items : List (String × FileTree)) : treeSteps unzip fs items =
    items.map fun item =>
      ⟨item.1, fun path s => tree unzip fs item.2 (Path.join path item.1) false s⟩ := by
  induction items with
  | nil => rw [treeSteps]; rfl
  | cons item items ih =>
    rw [treeSteps, ih]
    rfl

theorem Unpacked.treeSteps_eq (items : List (String × FileTree)) :
    Unpacked.treeSteps unpack fs items = items.map fun item =>
      ⟨item.1, fun path s => Unpacked.tree unpack fs item.2 (Path.join path item.1) false s⟩ := by
  induction items with
  | nil => rw [Unpacked.treeSteps]; rfl
  | cons item items ih =>
    rw [Unpacked.treeSteps, ih]
    rfl

/-- The items of a directory in the order of their names. -/
def listing (items : List (String × FileTree)) : List (String × FileTree) :=
  items.mergeSort fun a b => a.1 ≤ b.1

theorem mem_listing {items : List (String × FileTree)} {item : String × FileTree} :
    item ∈ listing items ↔ item ∈ items :=
  List.mem_mergeSort

theorem tree_directory (items : List (String × FileTree)) (path : String) (isTarget : Bool)
    (s : Scan) : tree unzip fs (.directory items) path isTarget s = (listing items).foldlM
      (fun s item => tree unzip fs item.2 (Path.join path item.1) false s) s := by
  rw [tree, treeSteps_eq, sort_map, List.foldlM_map]
  rfl

theorem Unpacked.tree_directory (items : List (String × FileTree)) (path : String)
    (isTarget : Bool) (s : Scan) :
    Unpacked.tree unpack fs (.directory items) path isTarget s = (listing items).foldlM
      (fun s item => Unpacked.tree unpack fs item.2 (Path.join path item.1) false s) s := by
  rw [Unpacked.tree, treeSteps_eq, sort_map, List.foldlM_map]
  rfl

theorem run_foldlM_eq_some {α : Type} {f : Scan → α → ExceptT ScanError Option Scan}
    {g : Scan → α → Except ScanError Scan} {l : List α}
    (h : ∀ a ∈ l, ∀ s, (f s a).run = some (g s a)) (s : Scan) :
    (l.foldlM f s).run = some (l.foldlM g s) := by
  induction l generalizing s with
  | nil => rfl
  | cons a l ih =>
    rw [List.foldlM_cons, List.foldlM_cons, ExceptT.run_bind, h a List.mem_cons_self]
    cases g s a with
    | error e => rfl
    | ok s' => exact ih (fun b hb => h b (List.mem_cons_of_mem a hb)) s'

theorem foldlM_returned {α : Type} {f : Scan → α → ExceptT ScanError Option Scan}
    {g : Scan → α → Except ScanError Scan} {P : α → Prop} {l : List α}
    (h : ∀ a ∈ l, ∀ s r, (f s a).run = some r → g s a = r ∧ (r.isOk = true → P a))
    {r : Except ScanError Scan} (hr : (l.foldlM f s).run = some r) :
    l.foldlM g s = r ∧ (r.isOk = true → ∀ a ∈ l, P a) := by
  induction l generalizing s with
  | nil =>
    cases hr
    exact ⟨rfl, fun _ => List.forall_mem_nil _⟩
  | cons a l ih =>
    rw [List.foldlM_cons, ExceptT.run_bind] at hr
    obtain ⟨first, hfirst, hrest⟩ := Option.bind_eq_some_iff.mp hr
    obtain ⟨hg, ha⟩ := h a List.mem_cons_self s first hfirst
    rw [List.foldlM_cons, hg]
    cases first with
    | error e =>
      cases hrest
      exact ⟨rfl, nofun⟩
    | ok s' =>
      obtain ⟨hg', hl⟩ := ih (fun b hb => h b (List.mem_cons_of_mem a hb)) hrest
      exact ⟨hg', fun hok => List.forall_mem_cons.mpr ⟨ha rfl, hl hok⟩⟩

theorem file_eq_some
    (h : ∀ data ∈ (FileTree.file content).archives path, Mirrors unzip data (unpack data))
    (isTarget : Bool) (s : Scan) : (file unzip fs content path isTarget s).run =
      some (Unpacked.file unpack fs content path isTarget s) := by
  rw [file, Unpacked.file]
  split
  · rfl
  · split
    next harchive =>
      rw [archiveFile_eq_some fun data hdata =>
        h data (FileTree.mem_archives_file.mpr ⟨harchive, hdata⟩)]
      rfl
    · split
      · rfl
      · rfl

/-- Where there is an end to all archives the scan returns, with what it finds in them when they are
unpacked first. -/
theorem tree_eq_some (t : FileTree) (path : String) (isTarget : Bool) (s : Scan)
    (h : ∀ data ∈ t.archives path, Mirrors unzip data (unpack data)) :
    (tree unzip fs t path isTarget s).run =
      some (Unpacked.tree unpack fs t path isTarget s) := by
  induction t using FileTree.directory_induction generalizing path isTarget s with
  | hfile content =>
    rw [tree, Unpacked.tree]
    exact file_eq_some h isTarget s
  | hsealed e =>
    rw [tree, Unpacked.tree]
    rfl
  | hdirectory items ih =>
    rw [tree_directory, Unpacked.tree_directory]
    refine run_foldlM_eq_some (fun item hitem s => ?_) s
    have hitem : item ∈ items := mem_listing.mp hitem
    refine ih item hitem _ false s fun data hdata => h data ?_
    rw [FileTree.archives_directory]
    exact List.mem_flatMap.mpr ⟨item, hitem, hdata⟩

theorem file_returned (hunpack : ∀ data, EndsIn unzip data → Mirrors unzip data (unpack data))
    {r : Except ScanError Scan} (h : (file unzip fs content path isTarget s).run = some r) :
    Unpacked.file unpack fs content path isTarget s = r ∧
      ∀ data ∈ (FileTree.file content).archives path, EndsIn unzip data := by
  rw [file] at h
  rw [Unpacked.file]
  by_cases hclass : Path.hasExtension path "class" = true
  · rw [if_pos hclass] at h ⊢
    refine ⟨Option.some.inj h, fun data hdata => ?_⟩
    have harchive := (FileTree.mem_archives_file.mp hdata).1
    exact absurd hclass (ne_true_of_eq_false (Path.hasExtension_class_of_isArchive harchive))
  rw [if_neg hclass] at h ⊢
  by_cases harchive : Path.isArchive path = true
  · rw [if_pos harchive] at h ⊢
    obtain ⟨s', hs', hr⟩ := Option.map_eq_some_iff.mp h
    have hends : ∀ data, content = .ok data → EndsIn unzip data := by
      rintro data rfl
      exact archiveFile_returned hs'
    rw [archiveFile_eq_some fun data hdata => hunpack data (hends data hdata)] at hs'
    rw [Option.some.inj hs']
    exact ⟨hr, fun data hdata => hends data (FileTree.mem_archives_file.mp hdata).2⟩
  · rw [if_neg harchive] at h ⊢
    refine ⟨?_, fun data hdata => absurd (FileTree.mem_archives_file.mp hdata).1 harchive⟩
    cases isTarget with
    | true => exact Option.some.inj h
    | false => exact Option.some.inj h

/-- A scan that returns gives what it finds in the archives when they are unpacked first. If it ends
without an error, it has been through all of them. -/
theorem tree_returned (hunpack : ∀ data, EndsIn unzip data → Mirrors unzip data (unpack data))
    (t : FileTree) (path : String) (isTarget : Bool) (s : Scan) {r : Except ScanError Scan}
    (h : (tree unzip fs t path isTarget s).run = some r) :
    Unpacked.tree unpack fs t path isTarget s = r ∧
      (r.isOk = true → ∀ data ∈ t.archives path, EndsIn unzip data) := by
  induction t using FileTree.directory_induction generalizing path isTarget s r with
  | hfile content =>
    rw [tree] at h
    rw [Unpacked.tree]
    obtain ⟨hr, hends⟩ := file_returned hunpack h
    exact ⟨hr, fun _ => hends⟩
  | hsealed e =>
    rw [tree] at h
    rw [Unpacked.tree]
    cases h
    exact ⟨rfl, nofun⟩
  | hdirectory items ih =>
    rw [tree_directory] at h
    rw [Unpacked.tree_directory]
    obtain ⟨hr, hends⟩ := foldlM_returned
      (fun item hitem s _ hr => ih item (mem_listing.mp hitem) (Path.join path item.1) false s hr) h
    refine ⟨hr, fun hok data hdata => ?_⟩
    rw [FileTree.archives_directory] at hdata
    obtain ⟨item, hitem, hdata⟩ := List.mem_flatMap.mp hdata
    exact hends hok item (mem_listing.mpr hitem) data hdata

/-- What a path leads to. One that leads nowhere counts as a file that cannot be read. -/
def inputTree (fs : FileSystem) (path : String) : FileTree :=
  match fs.find path with
  | .ok t => t
  | .error e => .file (.error e)

/-- The archives among the files that an input leads to. -/
def inputArchives (fs : FileSystem) (path : String) : List ByteArray :=
  (inputTree fs path).archives path

theorem input_eq (path : String) :
    input unzip fs path = tree unzip fs (inputTree fs path) path true empty := by
  unfold input inputTree
  cases fs.find path with
  | ok t => rfl
  | error e => rw [tree]

theorem Unpacked.input_eq (path : String) :
    Unpacked.input unpack fs path =
      Unpacked.tree unpack fs (inputTree fs path) path true empty := by
  unfold Unpacked.input inputTree
  cases fs.find path with
  | ok t => rfl
  | error e => rw [Unpacked.tree]

theorem input_eq_some (path : String)
    (h : ∀ data ∈ inputArchives fs path, Mirrors unzip data (unpack data)) :
    (input unzip fs path).run = some (Unpacked.input unpack fs path) := by
  rw [input_eq, Unpacked.input_eq]
  exact tree_eq_some _ path true empty h

theorem input_returned (hunpack : ∀ data, EndsIn unzip data → Mirrors unzip data (unpack data))
    {r : Except ScanError Scan} (h : (input unzip fs path).run = some r) :
    Unpacked.input unpack fs path = r ∧
      (r.isOk = true → ∀ data ∈ inputArchives fs path, EndsIn unzip data) := by
  rw [input_eq] at h
  rw [Unpacked.input_eq]
  exact tree_returned hunpack _ path true empty h

/-- The results of the inputs are joined if all of them return. -/
theorem inputs_eq_some_iff {paths : List String} {r : Except ScanError Scan} :
    inputs unzip fs paths = some r ↔ ∃ parts : List (Except ScanError Scan),
      List.Forall₂ (fun path part => (input unzip fs path).run = some part) paths parts ∧
        parts.foldlM (fun s part => do s.append (← part)) empty = r := by
  have hmap : ∀ parts : List (Except ScanError Scan),
      paths.map (fun path => (input unzip fs path).run) = parts.map some ↔
        List.Forall₂ (fun path part => (input unzip fs path).run = some part) paths parts := by
    intro parts
    rw [← List.forall₂_eq_eq_eq, List.forall₂_map_left_iff, List.forall₂_map_right_iff]
  rw [inputs]
  simp only [bind, Option.bind_eq_some_iff, pure, Option.some.injEq, mapM_eq_some_iff, hmap]

theorem exists_inputs_iff {paths : List String} : (∃ r, inputs unzip fs paths = some r) ↔
    ∀ path ∈ paths, ∃ r, (input unzip fs path).run = some r := by
  simp only [inputs_eq_some_iff]
  constructor
  · rintro ⟨r, parts, hparts, -⟩ path hpath
    obtain ⟨i, hi, rfl⟩ := List.getElem_of_mem hpath
    exact ⟨_, hparts.get hi (hparts.length_eq ▸ hi)⟩
  · intro h
    suffices hparts : ∃ parts : List (Except ScanError Scan),
        List.Forall₂ (fun path part => (input unzip fs path).run = some part) paths parts by
      obtain ⟨parts, hparts⟩ := hparts
      exact ⟨_, parts, hparts, rfl⟩
    induction paths with
    | nil => exact ⟨[], .nil⟩
    | cons path paths ih =>
      obtain ⟨⟨part, hpart⟩, hrest⟩ := List.forall_mem_cons.mp h
      obtain ⟨parts, hparts⟩ := ih hrest
      exact ⟨part :: parts, .cons hpart hparts⟩

/-- Every input is scanned without an error, and `parts` are what they give. -/
def Parts (unzip : Unzip) (fs : FileSystem) : List String → List Scan → Prop :=
  List.Forall₂ fun path part => (input unzip fs path).run = some (.ok part)

/-- Parts that are there are joined in their order. -/
theorem foldlM_map_ok (parts : List Scan) (s : Scan) :
    (parts.map Except.ok).foldlM (fun (s : Scan) part => do s.append (← part)) s =
      parts.foldlM append s := by
  rw [List.foldlM_map]
  rfl

theorem Parts.inputs_eq {paths : List String} {parts : List Scan}
    (h : Parts unzip fs paths parts) :
    inputs unzip fs paths = some (parts.foldlM append empty) := by
  refine inputs_eq_some_iff.mpr ⟨parts.map .ok, ?_, foldlM_map_ok parts empty⟩
  exact List.forall₂_map_right_iff.mpr h

theorem inputs_eq_ok_iff {paths : List String} : inputs unzip fs paths = some (.ok s) ↔
    ∃ parts, Parts unzip fs paths parts ∧ parts.foldlM append empty = .ok s := by
  constructor
  · intro h
    obtain ⟨parts, hparts, hfold⟩ := inputs_eq_some_iff.mp h
    -- The fold succeeds, so that every part is there.
    have hall : ∃ found : List Scan, parts = found.map .ok := by
      clear hparts h
      generalize empty = start at hfold
      induction parts generalizing start with
      | nil => exact ⟨[], rfl⟩
      | cons part parts ih =>
        rw [List.foldlM_cons] at hfold
        obtain ⟨next, hfirst, hrest⟩ := bind_eq_ok_iff.mp hfold
        obtain ⟨first, rfl, -⟩ := bind_eq_ok_iff.mp hfirst
        obtain ⟨found, rfl⟩ := ih next hrest
        exact ⟨first :: found, rfl⟩
    obtain ⟨found, rfl⟩ := hall
    rw [foldlM_map_ok] at hfold
    rw [List.forall₂_map_right_iff] at hparts
    exact ⟨found, hparts, hfold⟩
  · rintro ⟨parts, hparts, hfold⟩
    rw [hparts.inputs_eq, hfold]

theorem Parts.exists_input {paths : List String} {parts : List Scan}
    (h : Parts unzip fs paths parts) {part : Scan} (hpart : part ∈ parts) :
    ∃ path ∈ paths, (input unzip fs path).run = some (.ok part) := by
  obtain ⟨i, hi, rfl⟩ := List.getElem_of_mem hpart
  have hpath : i < paths.length := List.Forall₂.length_eq h ▸ hi
  exact ⟨paths[i], List.getElem_mem hpath, List.Forall₂.get h hpath hi⟩

theorem Parts.mem_of_input {paths : List String} {parts : List Scan}
    (h : Parts unzip fs paths parts) {path : String} (hpath : path ∈ paths) {part : Scan}
    (hpart : (input unzip fs path).run = some (.ok part)) : part ∈ parts := by
  obtain ⟨i, hi, rfl⟩ := List.getElem_of_mem hpath
  have hi' : i < parts.length := List.Forall₂.length_eq h ▸ hi
  have hget := List.Forall₂.get h hi hi'
  cases hpart.symm.trans hget
  exact List.getElem_mem hi'

theorem exists_parts {paths : List String}
    (h : ∀ path ∈ paths, ∃ part, (input unzip fs path).run = some (.ok part)) :
    ∃ parts, Parts unzip fs paths parts := by
  induction paths with
  | nil => exact ⟨[], .nil⟩
  | cons path paths ih =>
    obtain ⟨⟨part, hpart⟩, hrest⟩ := List.forall_mem_cons.mp h
    obtain ⟨parts, hparts⟩ := ih hrest
    exact ⟨part :: parts, .cons hpart hparts⟩

theorem Unpacked.inputs_eq (paths : List String) : Unpacked.inputs unpack fs paths =
    (paths.map (Unpacked.input unpack fs)).foldlM (fun s part => do s.append (← part)) empty := by
  rw [Unpacked.inputs, List.foldlM_map]

theorem inputs_eq_some {paths : List String}
    (h : ∀ path ∈ paths, ∀ data ∈ inputArchives fs path, Mirrors unzip data (unpack data)) :
    inputs unzip fs paths = some (Unpacked.inputs unpack fs paths) := by
  refine inputs_eq_some_iff.mpr ⟨_, ?_, (Unpacked.inputs_eq paths).symm⟩
  refine List.forall₂_map_right_iff.mpr (List.forall₂_same.mpr fun path hpath => ?_)
  exact input_eq_some path (h path hpath)

/-- There are trees for all archives to which there is an end. The others count as empty. -/
theorem exists_unpack (unzip : Unzip) :
    ∃ unpack : Unpack, (∀ data, EndsIn unzip data → Mirrors unzip data (unpack data)) ∧
      ∀ data, ¬EndsIn unzip data → unpack data = .ok [] := by
  have hdata : ∀ data, ∃ trees, (EndsIn unzip data → Mirrors unzip data trees) ∧
      (¬EndsIn unzip data → trees = .ok []) := by
    intro data
    by_cases h : EndsIn unzip data
    · obtain ⟨trees, htrees⟩ := h.exists_mirrors
      exact ⟨trees, fun _ => htrees, fun hnot => absurd h hnot⟩
    · exact ⟨.ok [], fun hends => absurd hends h, fun _ => rfl⟩
  obtain ⟨unpack, hunpack⟩ := Classical.skolem.mp hdata
  exact ⟨unpack, fun data => (hunpack data).1, fun data => (hunpack data).2⟩

/-- An input that is scanned without an error gives what it gives when all archives are unpacked
first. -/
theorem exists_unpacked_input {path : String} (h : (input unzip fs path).run = some (.ok s)) :
    ∃ unpack : Unpack, Unpacked.input unpack fs path = .ok s ∧
      ∀ data ∈ inputArchives fs path, Mirrors unzip data (unpack data) := by
  obtain ⟨unpack, hunpack, -⟩ := exists_unpack unzip
  obtain ⟨hinput, hends⟩ := input_returned hunpack h
  exact ⟨unpack, hinput, fun data hdata => hunpack data (hends rfl data hdata)⟩

end Scan

end ClassDeps
