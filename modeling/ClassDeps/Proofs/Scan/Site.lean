import ClassDeps.Proofs.Scan.Ending
import ClassDeps.Proofs.Scan.Run

namespace ClassDeps.Scan

/-- A file or directory, or an entry of an archive. -/
inductive Node where
  | tree (t : FileTree)
  | entry (e : ArchiveEntry)

/-- A node with the text that says where it is. -/
structure Site where
  node : Node
  location : String

namespace Site

/-- An archive that is scanned: a file, or an entry of another archive. -/
def IsArchive : Site → Prop
  | ⟨.tree (.file _), path⟩ => Path.isArchive path
  | ⟨.entry e, _⟩ => isScanned e.name ∧ Path.isArchive e.name
  | _ => False

/-- A class in an archive. Descriptions of modules are none, and what is kept for later versions of
the platform does not count. -/
def IsClassEntry : Site → Prop
  | ⟨.entry e, _⟩ => ".class".toList <:+ e.name.toList ∧ ¬ Path.IsModuleDescription e.name ∧
      ¬ "META-INF/versions/".toList <+: e.name.toList
  | _ => False

/-- A class in a file of its own. -/
def IsClassFile : Site → Prop
  | ⟨.tree (.file _), path⟩ => Path.hasExtension path "class" ∧ ¬ Path.IsModuleDescription path
  | _ => False

def IsClass (site : Site) : Prop :=
  site.IsClassEntry ∨ site.IsClassFile

/-- The scan takes it for a module description, since that is how the name ends. -/
def TakenForModule : Site → Prop
  | ⟨.tree _, path⟩ => Path.isModuleInfo path
  | ⟨.entry e, _⟩ => Path.isModuleInfo e.name

/-- A class that the scan does not take for something else. -/
def IsRead (site : Site) : Prop :=
  site.IsClass ∧ ¬ site.TakenForModule

/-- The bytes of a file or an entry, if they can be read. -/
def content? : Site → Option ByteArray
  | ⟨.tree (.file content), _⟩ => content.toOption
  | ⟨.entry e, _⟩ => e.content.toOption
  | _ => none

/-- The entry `e` of the archive at `location`. -/
def ofEntry (location : String) (e : ArchiveEntry) : Site :=
  ⟨.entry e, location ++ "!" ++ e.name⟩

/-- What an archive holds, or nothing if it cannot be read as one. -/
def contents (location : String) : Except ArchiveFault (List ArchiveEntry) → List Site
  | .ok es => es.map (ofEntry location)
  | .error _ => []

variable (unzip : Unzip)

/-- What a directory or a scanned archive holds, in its own order. -/
def children : Site → List Site
  | ⟨.tree (.directory items), path⟩ =>
    items.map fun item => ⟨.tree item.2, Path.join path item.1⟩
  | ⟨.tree (.file (.ok data)), path⟩ =>
    if Path.isArchive path then contents path (unzip data) else []
  | ⟨.entry e, location⟩ =>
    if isScanned e.name && Path.isArchive e.name then contents location (e.content >>= unzip)
    else []
  | _ => []

/-- The site at a place, which is the way to it by position. -/
def at? : List Nat → Site → Option Site
  | [], site => some site
  | i :: place, site => (site.children unzip)[i]?.bind (at? place)

/-- The site at a place that starts with the position of one of `sites`. -/
def among? (sites : List Site) : List Nat → Option Site
  | [] => none
  | i :: place => sites[i]?.bind (at? unzip place)

/-- A class at the site or below it has the definition `d`. -/
def Holds (site : Site) (d : ClassDefinition) : Prop :=
  ∃ place t data, site.at? unzip place = some t ∧ t.IsRead ∧ t.content? = some data ∧
    ClassDefinition.ofBytes data.data.toList = .ok d

variable {unzip}

theorem eq_of_at?_eq_some {site t : Site} {place : List Nat} (hnone : site.children unzip = [])
    (h : site.at? unzip place = some t) : t = site := by
  cases place with
  | nil => exact (Option.some.inj h).symm
  | cons i place =>
    rw [at?, hnone] at h
    cases h

theorem among?_append {sites : List Site} {place rest : List Nat} {site : Site}
    (h : among? unzip sites place = some site) :
    among? unzip sites (place ++ rest) = site.at? unzip rest := by
  have hat : ∀ (place : List Nat) (start : Site), start.at? unzip place = some site →
      start.at? unzip (place ++ rest) = site.at? unzip rest := by
    intro place
    induction place with
    | nil =>
      intro start hstart
      rw [List.nil_append, Option.some.inj hstart]
    | cons i place ih =>
      intro start hstart
      obtain ⟨child, hchild, hsite⟩ := Option.bind_eq_some_iff.mp hstart
      rw [List.cons_append, at?, hchild]
      exact ih child hsite
  match place, h with
  | i :: place, h =>
    obtain ⟨start, hstart, hsite⟩ := Option.bind_eq_some_iff.mp h
    rw [List.cons_append, among?, hstart]
    exact hat place start hsite

/-- The classes in an archive are scanned, but for those that are taken for module descriptions. -/
theorem IsClassEntry.isScanned {e : ArchiveEntry} {location : String}
    (h : IsClassEntry ⟨.entry e, location⟩) (hmodule : ¬ Path.isModuleInfo e.name = true) :
    isScanned e.name = true := by
  obtain ⟨⟨front, hfront⟩, -, hversion⟩ := h
  have hlast : e.name.toList.getLast? = some 's' := by
    rw [← hfront, List.getLast?_append]
    rfl
  have hdirectory : isDirectoryEntry e.name = false := by
    rw [isDirectoryEntry, hlast]
    rfl
  have hclass : isClassEntry e.name = true := by
    rw [isClassEntry, Bool.and_eq_true, Bool.not_eq_true', Bool.eq_false_iff,
      List.isSuffixOf_iff_suffix]
    exact ⟨⟨front, hfront⟩, hmodule⟩
  have hversioned : isVersioned e.name = false := by
    rw [isVersioned, Bool.eq_false_iff, Ne, List.isPrefixOf_iff_prefix]
    exact hversion
  rw [Scan.isScanned, hdirectory, hversioned, hclass]
  rfl

/-- A scanned entry that is no archive is a class. -/
theorem isClassEntry_of_isScanned {e : ArchiveEntry} {location : String}
    (h : Scan.isScanned e.name = true) (harchive : Path.isArchive e.name = false) :
    IsClassEntry ⟨.entry e, location⟩ ∧ ¬ TakenForModule ⟨.entry e, location⟩ := by
  rw [Scan.isScanned, harchive, Bool.or_false, Bool.and_eq_true, Bool.and_eq_true, isClassEntry,
    isVersioned, Bool.and_eq_true, Bool.not_eq_true', Bool.not_eq_true', Bool.not_eq_true',
    Bool.eq_false_iff, Bool.eq_false_iff, Bool.eq_false_iff, Ne, Ne, Ne,
    List.isSuffixOf_iff_suffix, List.isPrefixOf_iff_prefix] at h
  exact ⟨⟨h.2.1, mt Path.isModuleInfo_of_isModuleDescription h.2.2, h.1.2⟩, h.2.2⟩

theorem IsArchive.not_isClass {site : Site} (h : site.IsArchive) : ¬ site.IsClass := by
  rintro (hentry | hfile)
  · match site, hentry with
    | ⟨.entry e, _⟩, hentry =>
      exact absurd h.2 (ne_true_of_eq_false (Path.isArchive_of_class hentry.1))
  · match site, hfile with
    | ⟨.tree (.file _), _⟩, hfile =>
      exact absurd hfile.1 (ne_true_of_eq_false (Path.hasExtension_class_of_isArchive h))

theorem children_file_eq_nil {content : Except FileError ByteArray} {path : String}
    (h : Path.isArchive path = false) : children unzip ⟨.tree (.file content), path⟩ = [] := by
  cases content with
  | error e => rfl
  | ok data =>
    rw [children, h]
    rfl

/-- What is in an archive that was unpacked. -/
theorem children_file_eq {data : ByteArray} {path : String} {es : List EntryTree}
    (harchive : Path.isArchive path = true) (h : Mirrors unzip data (.ok es)) :
    children unzip ⟨.tree (.file (.ok data)), path⟩ =
      es.map fun e => ofEntry path e.toArchiveEntry := by
  rw [children, if_pos harchive, h.unzip_eq]
  exact List.map_map

theorem children_entry_eq {e : ArchiveEntry} {location : String} {data : ByteArray}
    {es : List EntryTree} (hsite : (ofEntry location e).IsArchive) (hdata : e.content = .ok data)
    (h : Mirrors unzip data (.ok es)) : (ofEntry location e).children unzip =
      es.map fun e' => ofEntry (ofEntry location e).location e'.toArchiveEntry := by
  rw [ofEntry, children, Bool.and_eq_true_iff.mpr hsite, if_pos rfl, hdata]
  show contents _ (unzip data) = _
  rw [h.unzip_eq]
  exact List.map_map

/-- Nothing is below a class. -/
theorem IsClass.children_eq_nil {site : Site} (h : site.IsClass) : site.children unzip = [] := by
  have hnot : ¬ site.IsArchive := fun harchive => harchive.not_isClass h
  match site with
  | ⟨.entry e, location⟩ =>
    rw [children, if_neg]
    rwa [Bool.and_eq_true]
  | ⟨.tree (.file content), path⟩ => exact children_file_eq_nil (Bool.eq_false_iff.mpr hnot)
  | ⟨.tree (.directory items), path⟩ => exact absurd h (by rintro (h | h) <;> exact h)
  | ⟨.tree (.sealed e), path⟩ => rfl

/-- The scan reads nothing below an entry that is not scanned. -/
theorem not_isRead_of_not_isScanned {e : ArchiveEntry} {location : String} {place : List Nat}
    {t : Site} (h : ¬ Scan.isScanned e.name = true)
    (ht : at? unzip place ⟨.entry e, location⟩ = some t) : ¬ t.IsRead := by
  have hnone : children unzip ⟨.entry e, location⟩ = [] := by
    rw [children, Bool.eq_false_iff.mpr h]
    rfl
  rw [eq_of_at?_eq_some hnone ht]
  rintro ⟨hentry | hfile, hmodule⟩
  · exact h (hentry.isScanned hmodule)
  · exact hfile

end Site

/-- The event is what came of this site. Only archives and the classes in them can fail. -/
def Event.Tells (e : Event) (site : Site) : Prop :=
  e.location = site.location ∧
    match e.result with
    | .ok d => site.IsRead ∧
        ∃ data, site.content? = some data ∧ ClassDefinition.ofBytes data.data.toList = .ok d
    | .error _ => site.IsArchive ∨ site.IsClassEntry ∧ ¬ site.TakenForModule

/-- The place has one event on the way to it, its own counted. -/
def Settles (log : List Event) (place : List Nat) : Prop :=
  ∃! e, e ∈ log ∧ e.place <+: place

/-- The events tell what came of the sites below `site`, each of at most one event, and settle
every class there that is read. -/
structure Account (unzip : Unzip) (site : Site) (log : List Event) : Prop where
  nodup : (log.map Event.place).Nodup
  tells : ∀ e ∈ log, ∃ t, site.at? unzip e.place = some t ∧ e.Tells t
  settles : ∀ place t, site.at? unzip place = some t → t.IsRead → Settles log place

/-- The events account for those of `sites` whose positions are in `indices`. -/
structure AccountAmong (unzip : Unzip) (sites : List Site) (indices : List Nat)
    (log : List Event) : Prop where
  nodup : (log.map Event.place).Nodup
  tells : ∀ e ∈ log, (∃ i ∈ indices, ∃ place, e.place = i :: place) ∧
    ∃ t, Site.among? unzip sites e.place = some t ∧ e.Tells t
  settles : ∀ i ∈ indices, ∀ place t, Site.among? unzip sites (i :: place) = some t →
    t.IsRead → Settles log (i :: place)

variable {unzip : Unzip} {sites : List Site} {site : Site} {log log' : List Event}
  {indices : List Nat} {i : Nat}

theorem Account.single {e : Event} (hplace : e.place = []) (h : e.Tells site) :
    Account unzip site [e] where
  nodup := List.nodup_singleton _
  tells e' he' := by
    rw [List.mem_singleton.mp he', hplace]
    exact ⟨site, rfl, h⟩
  settles place t _ _ :=
    ⟨e, ⟨List.mem_singleton_self e, hplace ▸ List.nil_prefix⟩, fun _ he' =>
      List.mem_singleton.mp he'.1⟩

/-- Nothing needs to be told of what holds no class. -/
theorem Account.nil (h : ∀ place t, site.at? unzip place = some t → ¬ t.IsRead) :
    Account unzip site [] where
  nodup := List.nodup_nil
  tells _ he := absurd he List.not_mem_nil
  settles place t ht hclass := absurd hclass (h place t ht)

namespace AccountAmong

theorem nil : AccountAmong unzip sites [] [] where
  nodup := List.nodup_nil
  tells _ he := absurd he List.not_mem_nil
  settles _ hi := absurd hi List.not_mem_nil

theorem cons (hsite : sites[i]? = some site) (hi : i ∉ indices) (h : Account unzip site log)
    (h' : AccountAmong unzip sites indices log') :
    AccountAmong unzip sites (i :: indices) (log.map (Event.under i) ++ log') where
  nodup := by
    rw [List.map_append, List.map_map]
    refine List.Nodup.append ?_ h'.nodup ?_
    · have hplaces : log.map (Event.place ∘ Event.under i) =
          (log.map Event.place).map (List.cons i) := by
        rw [List.map_map]
        rfl
      rw [hplaces]
      exact h.nodup.map (List.cons_injective)
    · intro place hplace hplace'
      obtain ⟨e, -, rfl⟩ := List.mem_map.mp hplace
      obtain ⟨e', he', heq⟩ := List.mem_map.mp hplace'
      obtain ⟨⟨j, hj, rest, hrest⟩, -⟩ := h'.tells e' he'
      obtain rfl : j = i := (List.cons.inj (hrest.symm.trans heq)).1
      exact hi hj
  tells e he := by
    rcases List.mem_append.mp he with he | he
    · obtain ⟨e, hmem, rfl⟩ := List.mem_map.mp he
      obtain ⟨t, ht, htells⟩ := h.tells e hmem
      refine ⟨⟨i, List.mem_cons_self, e.place, rfl⟩, t, ?_, htells⟩
      show Site.among? unzip sites (i :: e.place) = some t
      rw [Site.among?, hsite]
      exact ht
    · obtain ⟨⟨j, hj, place⟩, ht⟩ := h'.tells e he
      exact ⟨⟨j, List.mem_cons_of_mem _ hj, place⟩, ht⟩
  settles j hj place t ht hclass := by
    rcases List.mem_cons.mp hj with rfl | hj
    · rw [Site.among?, hsite] at ht
      obtain ⟨e, ⟨hmem, hplace⟩, hunique⟩ := h.settles place t ht hclass
      refine ⟨e.under j, ⟨List.mem_append_left _ (List.mem_map_of_mem hmem),
        List.cons_prefix_cons.mpr ⟨rfl, hplace⟩⟩, ?_⟩
      rintro e' ⟨he', hplace'⟩
      rcases List.mem_append.mp he' with he' | he'
      · obtain ⟨e', hmem', rfl⟩ := List.mem_map.mp he'
        rw [hunique e' ⟨hmem', (List.cons_prefix_cons.mp hplace').2⟩]
      · -- Every other event is below another one of the sites.
        obtain ⟨⟨k, hk, rest, hrest⟩, -⟩ := h'.tells e' he'
        rw [hrest] at hplace'
        exact absurd ((List.cons_prefix_cons.mp hplace').1 ▸ hk) hi
    · obtain ⟨e, ⟨hmem, hplace⟩, hunique⟩ := h'.settles j hj place t ht hclass
      refine ⟨e, ⟨List.mem_append_right _ hmem, hplace⟩, ?_⟩
      rintro e' ⟨he', hplace'⟩
      rcases List.mem_append.mp he' with he' | he'
      · obtain ⟨e', -, rfl⟩ := List.mem_map.mp he'
        exact absurd ((List.cons_prefix_cons.mp hplace').1 ▸ hj) hi
      · exact hunique e' ⟨he', hplace'⟩

/-- What accounts for the children of a site accounts for the site, if nothing is left out. -/
theorem account (h : AccountAmong unzip (site.children unzip) indices log)
    (hsite : ¬ site.IsRead)
    (hrest : ∀ i child, (site.children unzip)[i]? = some child → i ∉ indices →
      ∀ place t, child.at? unzip place = some t → ¬ t.IsRead) : Account unzip site log where
  nodup := h.nodup
  tells e he := by
    obtain ⟨⟨i, -, place, hplace⟩, t, ht, htells⟩ := h.tells e he
    rw [hplace] at ht
    exact ⟨t, hplace ▸ ht, htells⟩
  settles place t ht hclass := by
    cases place with
    | nil =>
      obtain rfl : site = t := Option.some.inj ht
      exact absurd hclass hsite
    | cons i place =>
      by_cases hi : i ∈ indices
      · exact h.settles i hi place t ht hclass
      · obtain ⟨child, hchild, ht⟩ := Option.bind_eq_some_iff.mp ht
        exact absurd hclass (hrest i child hchild hi place t ht)

end AccountAmong

end ClassDeps.Scan
