import ClassDeps.Proofs.Scan.Order

namespace ClassDeps.Scan

/-- An archive file that could be opened. -/
def Site.IsOpenedFile (unzip : Unzip) : Site → Prop
  | ⟨.tree (.file (.ok data)), path⟩ => Path.isArchive path ∧ ∃ es, unzip data = .ok es
  | _ => False

/-- At this place is an archive file that could be opened, or an input that is a class file and not
taken for a module description. -/
def IsRoot (unzip : Unzip) (sites : List Site) (place : List Nat) : Prop :=
  ∃ site, Site.among? unzip sites place = some site ∧
    (site.IsOpenedFile unzip ∨ place.length = 1 ∧ site.IsClassFile ∧ ¬ site.TakenForModule)

/-- What artifact number `i`, which is at `place`, stands for: a file, or an entry of the archive
that is artifact number `p`. The places of all artifacts are `places`. -/
inductive Filed (unzip : Unzip) (fs : FileSystem) (sites : List Site) (places : List (List Nat))
    (i : Nat) (place : List Nat) (a : Artifact) : Prop
  | root {site : Site} : IsRoot unzip sites place → Site.among? unzip sites place = some site →
      a.location = site.location → a.uri = fs.uri site.location → a.parent = none →
      Filed unzip fs sites places i place a
  | inside {p k : Nat} {outer : List Nat} {around : Site} {e : ArchiveEntry} : p < i →
      places[p]? = some outer → place = outer ++ [k] →
      Site.among? unzip sites outer = some around → around.IsArchive →
      (around.children unzip)[k]? = some (Site.ofEntry around.location e) →
      a.location = around.location ++ "!" ++ e.name → a.uri = a.location → a.parent = some p →
      Filed unzip fs sites places i place a

/-- The artifacts are at these places, no two at one. -/
structure Catalogue (unzip : Unzip) (fs : FileSystem) (sites : List Site)
    (places : List (List Nat)) (artifacts : List Artifact) : Prop where
  length : places.length = artifacts.length
  nodup : places.Nodup
  filed : ∀ i place a, places[i]? = some place → artifacts[i]? = some a →
    Filed unzip fs sites places i place a

variable {unzip : Unzip} {unpack : Unpack} {fs : FileSystem} {sites : List Site} {s s' : Scan}
  {places qs : List (List Nat)} {artifacts xs ys : List Artifact} {a : Artifact}
  {here place : List Nat} {i : Nat}

theorem Filed.mono (h : Filed unzip fs sites places i place a) (new : List (List Nat)) :
    Filed unzip fs sites (places ++ new) i place a := by
  cases h with
  | root hroot hsite hlocation huri hparent => exact .root hroot hsite hlocation huri hparent
  | inside hlt hp hplace haround harchive hchild hlocation huri hparent =>
    have hold : places.length ≥ _ := (List.getElem?_eq_some_iff.mp hp).1
    exact .inside hlt ((List.getElem?_append_left hold).trans hp) hplace haround harchive hchild
      hlocation huri hparent

namespace Catalogue

theorem empty : Catalogue unzip fs sites [] [] :=
  ⟨rfl, List.nodup_nil, fun _ _ _ h => by cases h⟩

theorem push (h : Catalogue unzip fs sites places artifacts) (hnew : place ∉ places)
    (ha : Filed unzip fs sites places places.length place a) :
    Catalogue unzip fs sites (places ++ [place]) (artifacts ++ [a]) where
  length := by rw [List.length_append, List.length_append, h.length]; rfl
  nodup := List.nodup_append.mpr ⟨h.nodup, List.nodup_singleton _, by
    intro old hold new hsame
    rw [List.mem_singleton.mp hsame]
    rintro rfl
    exact hnew hold⟩
  filed i place' a' hplace ha' := by
    by_cases hi : i < places.length
    · rw [List.getElem?_append_left hi] at hplace
      rw [List.getElem?_append_left (h.length ▸ hi)] at ha'
      exact (h.filed i place' a' hplace ha').mono _
    · obtain ⟨hlt, -⟩ := List.getElem?_eq_some_iff.mp hplace
      obtain rfl : i = places.length := by
        rw [List.length_append, List.length_singleton] at hlt
        omega
      rw [List.getElem?_concat_length] at hplace
      rw [h.length, List.getElem?_concat_length] at ha'
      cases hplace
      cases ha'
      exact ha.mono _

/-- Two catalogues as one. The numbers of archives in the second one move with it. -/
theorem join (hx : Catalogue unzip fs sites places xs) (hy : Catalogue unzip fs sites qs ys)
    (hdisjoint : places.Disjoint qs) : Catalogue unzip fs sites (places ++ qs) (join xs ys) where
  length := by rw [length_join, List.length_append, hx.length, hy.length]
  nodup := hx.nodup.append hy.nodup hdisjoint
  filed i place a hplace ha := by
    by_cases hi : i < xs.length
    · rw [List.getElem?_append_left (hx.length ▸ hi)] at hplace
      rw [getElem?_join_of_lt hi] at ha
      exact (hx.filed i place a hplace ha).mono _
    · obtain ⟨j, rfl⟩ : ∃ j, i = j + xs.length := ⟨i - xs.length, by omega⟩
      have hshift : ∀ j, (places ++ qs)[j + xs.length]? = qs[j]? := by
        intro j
        rw [← hx.length, List.getElem?_append_right (Nat.le_add_left ..), Nat.add_sub_cancel]
      rw [hshift] at hplace
      rw [getElem?_join_add] at ha
      obtain ⟨b, hb, rfl⟩ := Option.map_eq_some_iff.mp ha
      cases hy.filed j place b hplace hb with
      | root hroot hsite hlocation huri hparent =>
        refine .root hroot hsite hlocation huri ?_
        rw [Artifact.rename, hparent]
        rfl
      | @inside p k outer around e hlt hp hplace' haround harchive hchild hlocation huri hparent =>
        refine .inside (p := p + xs.length) (by omega) ((hshift p).trans hp) hplace' haround
          harchive hchild hlocation huri ?_
        rw [Artifact.rename, hparent]
        rfl

end Catalogue

theorem among?_concat {site : Site} (h : Site.among? unzip sites here = some site) (k : Nat) :
    Site.among? unzip sites (here ++ [k]) = (site.children unzip)[k]? := by
  rw [Site.among?_append h, Site.at?]
  cases (site.children unzip)[k]? with
  | none => rfl
  | some child => rfl

/-- Only entries are below an entry. -/
theorem not_isRoot_of_entry {e : ArchiveEntry} {location : String}
    (h : Site.among? unzip sites here = some ⟨.entry e, location⟩) (hplace : here <+: place) :
    ¬IsRoot unzip sites place := by
  have hentry : ∀ (rest : List Nat) (e : ArchiveEntry) (location : String) (t : Site),
      Site.at? unzip rest ⟨.entry e, location⟩ = some t → ∃ e', t.node = .entry e' := by
    intro rest
    induction rest with
    | nil =>
      intro e location t ht
      cases ht
      exact ⟨e, rfl⟩
    | cons i rest ih =>
      intro e location t ht
      rw [Site.at?, Site.children] at ht
      obtain ⟨child, hchild, ht⟩ := Option.bind_eq_some_iff.mp ht
      obtain ⟨es, hes⟩ : ∃ es : List ArchiveEntry,
          child ∈ es.map (Site.ofEntry location) := by
        have hmem := List.mem_of_getElem? hchild
        split at hmem
        · cases hinside : e.content >>= unzip with
          | ok es => exact ⟨es, by rwa [hinside] at hmem⟩
          | error fault =>
            rw [hinside] at hmem
            cases hmem
        · cases hmem
      obtain ⟨e', -, rfl⟩ := List.mem_map.mp hes
      exact ih e' _ t ht
  obtain ⟨rest, rfl⟩ := hplace
  rintro ⟨t, ht, hroot⟩
  rw [Site.among?_append h] at ht
  obtain ⟨e', he'⟩ := hentry rest e location t ht
  obtain ⟨node, path⟩ := t
  cases he'
  rcases hroot with hroot | ⟨-, hroot, -⟩
  · exact hroot
  · exact hroot

theorem exists_concat_append (h : here <+: place) (hne : place ≠ here) :
    ∃ k, here ++ [k] <+: place := by
  obtain ⟨_ | ⟨k, rest⟩, rfl⟩ := h
  · exact absurd (List.append_nil here) hne
  · exact ⟨k, rest, by rw [List.append_assoc]; rfl⟩

theorem eq_of_concat_append {j k : Nat} (hj : here ++ [j] <+: place) (hk : here ++ [k] <+: place) :
    j = k := by
  obtain ⟨r, rfl⟩ := hj
  obtain ⟨r', hr⟩ := hk
  rw [List.append_assoc, List.append_assoc] at hr
  exact (List.cons.inj (List.append_cancel_left hr)).1.symm

/-- A root below a site is at one of its children or below it. -/
theorem exists_child_of_isRoot {site : Site} {k : Nat}
    (hsite : Site.among? unzip sites here = some site) (hk : here ++ [k] <+: place)
    (hroot : IsRoot unzip sites place) : ∃ child, (site.children unzip)[k]? = some child := by
  obtain ⟨rest, rfl⟩ := hk
  obtain ⟨t, ht, -⟩ := hroot
  rw [List.append_assoc, Site.among?_append hsite] at ht
  obtain ⟨child, hchild, -⟩ := Option.bind_eq_some_iff.mp ht
  exact ⟨child, hchild⟩

theorem isRoot_iff {site : Site} (hsite : Site.among? unzip sites here = some site) :
    IsRoot unzip sites here ↔
      site.IsOpenedFile unzip ∨ here.length = 1 ∧ site.IsClassFile ∧ ¬ site.TakenForModule := by
  constructor
  · rintro ⟨t, ht, hroot⟩
    cases hsite.symm.trans ht
    exact hroot
  · intro hroot
    exact ⟨site, hsite, hroot⟩

theorem eq_of_isRoot_of_childless {site : Site} (hsite : Site.among? unzip sites here = some site)
    (hchildren : site.children unzip = []) (hstart : here <+: place)
    (hroot : IsRoot unzip sites place) : place = here := by
  by_contra hne
  obtain ⟨k, hk⟩ := exists_concat_append hstart hne
  obtain ⟨child, hchild⟩ := exists_child_of_isRoot hsite hk hroot
  rw [hchildren] at hchild
  cases hchild

/-- A class file is a root where it is an input, unless its name ends as that of a module's
description. -/
theorem isRoot_classFile_iff {content : Except FileError ByteArray} {path : String}
    (hsite : Site.among? unzip sites here = some ⟨.tree (.file content), path⟩)
    (hextension : Path.hasExtension path "class" = true) :
    IsRoot unzip sites here ↔ here.length = 1 ∧ ¬Path.isModuleInfo path := by
  have harchive := Path.isArchive_of_hasExtension_class hextension
  rw [isRoot_iff hsite]
  constructor
  · rintro (hopened | ⟨hlength, -, hmodule⟩)
    · cases content with
      | error e => exact absurd hopened id
      | ok data => exact absurd hopened.1 (ne_true_of_eq_false harchive)
    · exact ⟨hlength, hmodule⟩
  · rintro ⟨hlength, hmodule⟩
    exact .inr ⟨hlength, ⟨hextension, mt Path.isModuleInfo_of_isModuleDescription hmodule⟩,
      hmodule⟩

/-- No root is in an archive. -/
theorem not_isRoot_of_archive {site : Site} {es : List EntryTree}
    (hsite : Site.among? unzip sites here = some site)
    (hchildren : site.children unzip =
      es.map fun e => Site.ofEntry site.location e.toArchiveEntry) {k : Nat}
    (hk : here ++ [k] <+: place) : ¬IsRoot unzip sites place := by
  intro hroot
  obtain ⟨child, hchild⟩ := exists_child_of_isRoot hsite hk hroot
  obtain ⟨e, -, rfl⟩ := List.mem_map.mp (hchildren ▸ List.mem_of_getElem? hchild)
  exact not_isRoot_of_entry ((among?_concat hsite k).trans hchild) hk hroot

/-- The artifacts were at `places` before what is at `here` was scanned. The new ones are below
`here`, and no root there is left out. -/
def Files (unzip : Unzip) (fs : FileSystem) (sites : List Site) (here : List Nat)
    (places : List (List Nat)) (s' : Scan) : Prop :=
  ∃ new, Catalogue unzip fs sites (places ++ new) s'.artifacts ∧ (∀ place ∈ new, here <+: place) ∧
    ∀ place, here <+: place → IsRoot unzip sites place → place ∈ new

/-- The same of what is inside of what is at `here`. -/
def FilesInside (unzip : Unzip) (fs : FileSystem) (sites : List Site) (here : List Nat)
    (places : List (List Nat)) (s' : Scan) : Prop :=
  ∃ new, Catalogue unzip fs sites (places ++ new) s'.artifacts ∧
    (∀ place ∈ new, here <+: place ∧ place ≠ here) ∧
    ∀ place, here <+: place → place ≠ here → IsRoot unzip sites place → place ∈ new

/-- Nothing at `here` or below has been filed. -/
def Fresh (here : List Nat) (places : List (List Nat)) : Prop :=
  ∀ place ∈ places, ¬here <+: place

theorem Files.nothing (h : Catalogue unzip fs sites places s.artifacts)
    (hnone : ∀ place, here <+: place → ¬IsRoot unzip sites place) :
    Files unzip fs sites here places s :=
  ⟨[], by rwa [List.append_nil], fun _ hplace => absurd hplace List.not_mem_nil,
    fun place hplace hroot => absurd hroot (hnone place hplace)⟩

theorem Files.childless {site : Site} (hsite : Site.among? unzip sites here = some site)
    (hchildren : site.children unzip = []) (hself : ¬IsRoot unzip sites here)
    (h : Catalogue unzip fs sites places s.artifacts) : Files unzip fs sites here places s := by
  refine .nothing h fun place hstart hroot => hself ?_
  exact eq_of_isRoot_of_childless hsite hchildren hstart hroot ▸ hroot

/-- Scans of several children one after the other. -/
theorem exists_files_of_foldlM {α : Type} {step : α × Nat → Scan → Except ScanError Scan}
    {base : List (List Nat)} {order : List (α × Nat)} (hnodup : (order.map Prod.snd).Nodup)
    (hstep : ∀ p ∈ order, ∀ places s s', base <+: places →
      Catalogue unzip fs sites places s.artifacts → Fresh (here ++ [p.2]) places →
      step p s = .ok s' → Files unzip fs sites (here ++ [p.2]) places s')
    (hbase : base <+: places) (hplaces : Catalogue unzip fs sites places s.artifacts)
    (hfresh : ∀ p ∈ order, Fresh (here ++ [p.2]) places)
    (h : order.foldlM (fun s p => step p s) s = .ok s') :
    ∃ new, Catalogue unzip fs sites (places ++ new) s'.artifacts ∧
      (∀ place ∈ new, here <+: place ∧ place ≠ here) ∧
      ∀ p ∈ order, ∀ place, here ++ [p.2] <+: place → IsRoot unzip sites place → place ∈ new := by
  induction order generalizing s places with
  | nil =>
    cases h
    exact ⟨[], by rwa [List.append_nil], fun _ hplace => absurd hplace List.not_mem_nil,
      fun _ hp => absurd hp List.not_mem_nil⟩
  | cons p order ih =>
    obtain ⟨hnew, hnodup⟩ := List.nodup_cons.mp hnodup
    rw [List.foldlM_cons, bind_eq_ok_iff] at h
    obtain ⟨s₁, hfirst, hrest⟩ := h
    obtain ⟨new₁, hplaces₁, hbelow₁, hroots₁⟩ :=
      hstep p List.mem_cons_self places s s₁ hbase hplaces (hfresh p List.mem_cons_self) hfirst
    -- What was filed below one child is not below another.
    have hfresh₁ : ∀ q ∈ order, Fresh (here ++ [q.2]) (places ++ new₁) := by
      intro q hq place hplace hstart
      rcases List.mem_append.mp hplace with hold | hplace
      · exact hfresh q (List.mem_cons_of_mem p hq) place hold hstart
      · rw [eq_of_concat_append (hbelow₁ place hplace) hstart] at hnew
        exact hnew (List.mem_map_of_mem hq)
    obtain ⟨new₂, hplaces₂, hbelow₂, hroots₂⟩ := ih hnodup
      (fun q hq => hstep q (List.mem_cons_of_mem p hq)) (hbase.trans (List.prefix_append ..))
      hplaces₁ hfresh₁ hrest
    refine ⟨new₁ ++ new₂, by rwa [← List.append_assoc], ?_, ?_⟩
    · intro place hplace
      rcases List.mem_append.mp hplace with hplace | hplace
      · have hstart := hbelow₁ place hplace
        refine ⟨(List.prefix_append ..).trans hstart, ?_⟩
        rintro rfl
        have hlength := hstart.length_le
        rw [List.length_append, List.length_singleton] at hlength
        omega
      · exact hbelow₂ place hplace
    · intro q hq place hstart hroot
      rcases List.mem_cons.mp hq with rfl | hq
      · exact List.mem_append_left _ (hroots₁ place hstart hroot)
      · exact List.mem_append_right _ (hroots₂ q hq place hstart hroot)

/-- The children of a site are scanned in the order of their names. Those that are passed over
hold no root. -/
theorem filesInside_of_sort {α β : Type} {l : List α} {child : α → Site} {keep : α → Bool}
    {f : α → Step β} (act : β → Scan → Except ScanError Scan) {site : Site}
    (hsite : Site.among? unzip sites here = some site)
    (hchildren : site.children unzip = l.map child)
    (hkept : ∀ a ∈ l, keep a = true → ∀ k, (site.children unzip)[k]? = some (child a) →
      ∀ rest s s', Catalogue unzip fs sites (places ++ rest) s.artifacts →
        Fresh (here ++ [k]) (places ++ rest) → act (f a).run s = .ok s' →
        Files unzip fs sites (here ++ [k]) (places ++ rest) s')
    (hrest : ∀ a, keep a = false → ∀ k, (site.children unzip)[k]? = some (child a) →
      ∀ place, here ++ [k] <+: place → ¬IsRoot unzip sites place)
    (hplaces : Catalogue unzip fs sites places s.artifacts)
    (hfresh : ∀ k, Fresh (here ++ [k]) places)
    (h : (Step.sort ((l.filter keep).map f)).foldlM (fun s step => act step.run s) s = .ok s') :
    FilesInside unzip fs sites here places s' := by
  rw [sort_map_eq, List.foldlM_map] at h
  have hchild : ∀ {k : Nat} {a : α}, l[k]? = some a →
      (site.children unzip)[k]? = some (child a) := by
    intro k a ha
    rw [hchildren, List.getElem?_map, ha]
    rfl
  have hstep : ∀ p ∈ turns (fun a => (f a).name) keep l, ∀ places' s s', places <+: places' →
      Catalogue unzip fs sites places' s.artifacts → Fresh (here ++ [p.2]) places' →
      act (f p.1).run s = .ok s' → Files unzip fs sites (here ++ [p.2]) places' s' := by
    rintro p hp _ s s' ⟨rest, rfl⟩ hcatalogue hfresh hrun
    obtain ⟨hget, hkeep⟩ := mem_turns.mp hp
    exact hkept p.1 (List.mem_of_getElem? hget) hkeep p.2 (hchild hget) rest s s' hcatalogue
      hfresh hrun
  obtain ⟨new, hnew, hbelow, hroots⟩ := exists_files_of_foldlM nodup_turns hstep
    (List.prefix_refl _) hplaces (fun p _ => hfresh p.2) h
  refine ⟨new, hnew, hbelow, ?_⟩
  intro place hstart hne hroot
  obtain ⟨k, hk⟩ := exists_concat_append hstart hne
  obtain ⟨_, hget⟩ := exists_child_of_isRoot hsite hk hroot
  obtain ⟨a, ha, -⟩ := Option.map_eq_some_iff.mp (List.getElem?_map.symm.trans (hchildren ▸ hget))
  cases hkeep : keep a with
  | true => exact hroots (a, k) (mem_turns.mpr ⟨ha, hkeep⟩) _ hk hroot
  | false => exact absurd hroot (hrest a hkeep k (hchild ha) _ hk)

theorem importClass_artifacts (s : Scan) (data : ByteArray) (location : String) :
    (s.importClass data location).2.artifacts = s.artifacts := by
  unfold importClass
  rcases s.model.importClass data.data.toList location with ⟨_ | _, _⟩
  · rfl
  · rfl

/-- The entries of the archive at `here`, which is artifact number `index`. -/
theorem archive_files {site : Site} {es : List EntryTree} {index : Nat} (medium : Medium)
    (hsite : Site.among? unzip sites here = some site)
    (hchildren : site.children unzip =
      es.map fun e => Site.ofEntry site.location e.toArchiveEntry)
    (hes : es.findSome? (·.blocked) = none → ∀ e ∈ es, isScanned e.name = true → ∀ k,
      (site.children unzip)[k]? = some (Site.ofEntry site.location e.toArchiveEntry) → ∀ places s,
      Catalogue unzip fs sites places s.artifacts → places[index]? = some here →
      Fresh (here ++ [k]) places →
      Files unzip fs sites (here ++ [k]) places (Unpacked.entry e site.location index s))
    (hplaces : Catalogue unzip fs sites places s.artifacts)
    (hindex : places[index]? = some here) (hfresh : ∀ k, Fresh (here ++ [k]) places) :
    FilesInside unzip fs sites here places
      (Unpacked.archive medium es site.location index s) := by
  have hnone : ∀ k place, here ++ [k] <+: place → ¬IsRoot unzip sites place :=
    fun _ _ hk => not_isRoot_of_archive hsite hchildren hk
  cases hblocked : es.findSome? (·.blocked) with
  | some fault =>
    rw [Unpacked.archive_of_blocked hblocked]
    refine ⟨[], by rwa [List.append_nil], fun _ hplace => absurd hplace List.not_mem_nil, ?_⟩
    intro place hstart hne hroot
    obtain ⟨k, hk⟩ := exists_concat_append hstart hne
    exact absurd hroot (hnone k place hk)
  | none =>
    unfold Unpacked.archive Unpacked.runEntries Unpacked.fault?
    rw [hblocked, Unpacked.entrySteps_eq]
    refine filesInside_of_sort (fun (run : String → Nat → Scan → Scan) s =>
      .ok (run site.location index s)) hsite hchildren ?_ (fun _ _ k _ => hnone k) hplaces hfresh
      List.foldlM_pure
    intro e he hscanned k hk rest s s' hcatalogue hfresh hrun
    cases hrun
    refine hes hblocked e he hscanned k hk _ s hcatalogue ?_ hfresh
    rwa [List.getElem?_append_left (List.getElem?_eq_some_iff.mp hindex).1]

/-- An archive that was just opened is filed, and so is what is in it. -/
theorem archive_opened_files {site : Site} {es : List EntryTree} (medium : Medium)
    (hsite : Site.among? unzip sites here = some site)
    (hchildren : site.children unzip =
      es.map fun e => Site.ofEntry site.location e.toArchiveEntry)
    (hes : es.findSome? (·.blocked) = none → ∀ e ∈ es, isScanned e.name = true → ∀ k,
      (site.children unzip)[k]? = some (Site.ofEntry site.location e.toArchiveEntry) →
      ∀ index places s, Catalogue unzip fs sites places s.artifacts →
      places[index]? = some here → Fresh (here ++ [k]) places →
      Files unzip fs sites (here ++ [k]) places (Unpacked.entry e site.location index s))
    (hplaces : Catalogue unzip fs sites places s.artifacts) (hfresh : Fresh here places)
    (ha : Filed unzip fs sites places places.length here a) :
    Files unzip fs sites here places
      (Unpacked.archive medium es site.location s.artifacts.length (s.addArtifact a)) := by
  have hnew : here ∉ places := fun hold => hfresh here hold (List.prefix_refl here)
  have hindex : (places ++ [here])[s.artifacts.length]? = some here := by
    rw [← hplaces.length, List.getElem?_concat_length]
  have hfresh' : ∀ k, Fresh (here ++ [k]) (places ++ [here]) := by
    intro k place hplace hstart
    rcases List.mem_append.mp hplace with hold | hplace
    · exact hfresh place hold ((List.prefix_append ..).trans hstart)
    · rw [List.mem_singleton.mp hplace] at hstart
      have hlength := hstart.length_le
      rw [List.length_append, List.length_singleton] at hlength
      omega
  have hpush : Catalogue unzip fs sites (places ++ [here]) (s.addArtifact a).artifacts :=
    hplaces.push hnew ha
  obtain ⟨new, hcatalogue, hbelow, hroots⟩ := archive_files medium hsite hchildren
    (fun hblocked e he hscanned k hk => hes hblocked e he hscanned k hk _) hpush hindex hfresh'
  refine ⟨here :: new, by rwa [List.append_assoc] at hcatalogue, ?_, ?_⟩
  · intro place hplace
    rcases List.mem_cons.mp hplace with rfl | hplace
    · exact List.prefix_refl _
    · exact (hbelow place hplace).1
  · intro place hstart hroot
    by_cases hne : place = here
    · rw [hne]
      exact List.mem_cons_self
    · exact List.mem_cons_of_mem _ (hroots place hstart hne hroot)

theorem entry_files (e : EntryTree) : MirrorsEntry unzip e → isScanned e.name = true →
    ∀ (outer : List Nat) (around : Site) (k index : Nat) (places : List (List Nat)) (s : Scan),
    Site.among? unzip sites outer = some around → around.IsArchive →
    (around.children unzip)[k]? = some (Site.ofEntry around.location e.toArchiveEntry) →
    Catalogue unzip fs sites places s.artifacts → places[index]? = some outer →
    Fresh (outer ++ [k]) places →
    Files unzip fs sites (outer ++ [k]) places (Unpacked.entry e around.location index s) := by
  induction e using EntryTree.nested_induction with
  | h e ih =>
  intro hmirrors hscanned outer around k index places s haround harchive hchild hplaces hindex
    hfresh
  have hsite : Site.among? unzip sites (outer ++ [k]) =
      some (Site.ofEntry around.location e.toArchiveEntry) :=
    (among?_concat haround k).trans hchild
  have hnothing : ∀ s', s'.artifacts = s.artifacts →
      Files unzip fs sites (outer ++ [k]) places s' := by
    intro s' hs'
    exact .nothing (hs' ▸ hplaces) fun place => not_isRoot_of_entry hsite
  rw [Unpacked.entry_eq]
  cases hcontent : e.content with
  | error fault => exact hnothing _ rfl
  | ok data =>
    simp only
    cases hname : Path.isArchive e.name with
    | false =>
      simp only [Bool.false_eq_true, if_false]
      have himport := importClass_artifacts s data (around.location ++ "!" ++ e.name)
      rcases he : s.importClass data (around.location ++ "!" ++ e.name) with ⟨_ | _, s₁⟩
      · rw [he] at himport
        exact hnothing _ himport
      · rw [he] at himport
        exact hnothing _ himport
    | true =>
      have hinside := hmirrors hname data hcontent
      simp only [if_true]
      cases hnested : e.nested with
      | error fault =>
        rw [Unpacked.nestedArchive]
        exact hnothing _ rfl
      | ok es =>
        have hinner : (Site.ofEntry around.location e.toArchiveEntry).IsArchive :=
          ⟨hscanned, hname⟩
        have hlt : index < places.length := (List.getElem?_eq_some_iff.mp hindex).1
        rw [hnested] at hinside
        rw [Unpacked.nestedArchive]
        refine archive_opened_files .memory hsite ?_ ?_ hplaces hfresh ?_
        · exact Site.children_entry_eq hinner hcontent hinside
        · intro hblocked e' he' hscanned' k' hk' index' places' s' hplaces' hindex' hfresh'
          exact ih es hnested e' he' (hinside.entry hblocked he' hscanned') hscanned' _ _ k' index'
            places' s' hsite hinner hk' hplaces' hindex' hfresh'
        · exact .inside hlt hindex rfl haround harchive hchild rfl rfl rfl

theorem classFile_files {content : Except FileError ByteArray} {path : String} {isTarget : Bool}
    (hsite : Site.among? unzip sites here = some ⟨.tree (.file content), path⟩)
    (htarget : isTarget = true ↔ here.length = 1)
    (hextension : Path.hasExtension path "class" = true)
    (hplaces : Catalogue unzip fs sites places s.artifacts) (hfresh : Fresh here places)
    (h : s.classFile fs content path isTarget = .ok s') :
    Files unzip fs sites here places s' := by
  have hchildren : Site.children unzip ⟨.tree (.file content), path⟩ = [] :=
    Site.children_file_eq_nil (Path.isArchive_of_hasExtension_class hextension)
  have hself := isRoot_classFile_iff hsite hextension
  unfold classFile at h
  by_cases hmodule : Path.isModuleInfo path = true
  · rw [if_pos hmodule] at h
    cases h
    refine .childless hsite hchildren ?_ hplaces
    rw [hself]
    exact fun hroot => hroot.2 hmodule
  rw [if_neg hmodule] at h
  cases content with
  | error e => cases h
  | ok data =>
    have himport := importClass_artifacts s data path
    rcases he : s.importClass data path with ⟨cause | _, s₁⟩
    · simp only [he] at h
      cases h
    simp only [he] at h
    rw [he] at himport
    cases isTarget with
    | false =>
      cases h
      refine .childless hsite hchildren ?_ (himport ▸ hplaces)
      rw [hself]
      exact fun hroot => absurd (htarget.mpr hroot.1) Bool.false_ne_true
    | true =>
      cases h
      have hroot : IsRoot unzip sites here := hself.mpr ⟨htarget.mp rfl, hmodule⟩
      have hnew : here ∉ places := fun hold => hfresh here hold (List.prefix_refl here)
      refine ⟨[here], ?_, ?_, ?_⟩
      · exact (himport ▸ hplaces).push hnew (.root hroot hsite rfl rfl rfl)
      · intro place hplace
        exact List.mem_singleton.mp hplace ▸ List.prefix_refl here
      · intro place hstart hplace
        exact List.mem_singleton.mpr (eq_of_isRoot_of_childless hsite hchildren hstart hplace)

theorem archiveFile_files {content : Except FileError ByteArray} {path : String}
    (isTarget : Bool) (hsite : Site.among? unzip sites here = some ⟨.tree (.file content), path⟩)
    (harchive : Path.isArchive path = true)
    (hmirrors : ∀ data, content = .ok data → Mirrors unzip data (unpack data))
    (hplaces : Catalogue unzip fs sites places s.artifacts) (hfresh : Fresh here places) :
    Files unzip fs sites here places (Unpacked.archiveFile unpack fs content path isTarget s) := by
  have hclass : ¬Site.IsClassFile ⟨.tree (.file content), path⟩ := fun hclass =>
    absurd hclass.1 (ne_true_of_eq_false (Path.hasExtension_class_of_isArchive harchive))
  unfold Unpacked.archiveFile
  cases content with
  | error e =>
    refine .childless hsite rfl ?_ hplaces
    rw [isRoot_iff hsite]
    exact fun hroot => hclass (hroot.resolve_left id).2.1
  | ok data =>
    have hmirrors := hmirrors data rfl
    simp only [Except.mapError]
    cases hdata : unpack data with
    | error fault =>
      have hunzip : unzip data = .error fault := by
        rw [hmirrors.unzip_eq, hdata]
        rfl
      have hchildren : Site.children unzip ⟨.tree (.file (.ok data)), path⟩ = [] := by
        rw [Site.children, if_pos harchive, hunzip]
        rfl
      refine .childless hsite hchildren ?_ hplaces
      rw [isRoot_iff hsite]
      rintro (⟨-, es, hes⟩ | hroot)
      · cases hunzip.symm.trans hes
      · exact hclass hroot.2.1
    | ok es =>
      rw [hdata] at hmirrors
      refine archive_opened_files .file hsite (Site.children_file_eq harchive hmirrors) ?_ hplaces
        hfresh ?_
      · intro hblocked e he hscanned k hk index places s hplaces hindex hfresh
        exact entry_files e (hmirrors.entry hblocked he hscanned) hscanned here _ k index places s
          hsite harchive hk hplaces hindex hfresh
      · have hroot : IsRoot unzip sites here :=
          (isRoot_iff hsite).mpr (.inl ⟨harchive, _, hmirrors.unzip_eq⟩)
        exact .root hroot hsite rfl rfl rfl

theorem tree_files (t : FileTree) : ∀ (here : List Nat) (path : String) (isTarget : Bool)
    (places : List (List Nat)) (s s' : Scan),
    Site.among? unzip sites here = some ⟨.tree t, path⟩ → (isTarget = true ↔ here.length = 1) →
    (∀ data ∈ t.archives path, Mirrors unzip data (unpack data)) →
    Catalogue unzip fs sites places s.artifacts → Fresh here places →
    Unpacked.tree unpack fs t path isTarget s = .ok s' → Files unzip fs sites here places s' := by
  induction t using FileTree.directory_induction with
  | hfile content =>
    intro here path isTarget places s s' hsite htarget hmirrors hplaces hfresh h
    rw [Unpacked.tree, Unpacked.file] at h
    by_cases hextension : Path.hasExtension path "class" = true
    · rw [if_pos hextension] at h
      exact classFile_files hsite htarget hextension hplaces hfresh h
    rw [if_neg hextension] at h
    by_cases harchive : Path.isArchive path = true
    · rw [if_pos harchive] at h
      cases h
      exact archiveFile_files isTarget hsite harchive
        (fun data hdata => hmirrors data (FileTree.mem_archives_file.mpr ⟨harchive, hdata⟩))
        hplaces hfresh
    rw [if_neg harchive] at h
    cases isTarget with
    | true => cases h
    | false =>
      cases h
      have hchildren : Site.children unzip ⟨.tree (.file content), path⟩ = [] :=
        Site.children_file_eq_nil (Bool.eq_false_iff.mpr harchive)
      refine .childless hsite hchildren ?_ hplaces
      rw [isRoot_iff hsite]
      rintro (hopened | hroot)
      · cases content with
        | error e => exact hopened
        | ok data => exact harchive hopened.1
      · exact hextension hroot.2.1.1
  | hsealed e =>
    intro here path isTarget places s s' _ _ _ _ _ h
    rw [Unpacked.tree] at h
    cases h
  | hdirectory items ih =>
    intro here path isTarget places s s' hsite _ hmirrors hplaces hfresh h
    rw [Unpacked.tree, Unpacked.treeSteps_eq, ← List.filter_true items] at h
    have hne : here ≠ [] := by
      rintro rfl
      cases hsite
    obtain ⟨new, hcatalogue, hbelow, hroots⟩ := filesInside_of_sort
      (fun (run : String → Scan → Except ScanError Scan) s => run path s) hsite rfl
      (by
        intro item hitem _ k hk rest s s' hplaces hfresh hrun
        have hchild := (among?_concat hsite k).trans hk
        refine ih item hitem _ _ false _ s s' hchild ?_ (fun data hdata => hmirrors data ?_) hplaces
          hfresh hrun
        · have hlength := List.length_pos_of_ne_nil hne
          rw [List.length_append, List.length_singleton]
          simp only [Bool.false_eq_true, false_iff]
          omega
        · rw [FileTree.archives_directory]
          exact List.mem_flatMap.mpr ⟨item, hitem, hdata⟩)
      (fun item hkeep => by cases hkeep) hplaces
      (fun k place hold hstart => hfresh place hold ((List.prefix_append ..).trans hstart)) h
    refine ⟨new, hcatalogue, fun place hplace => (hbelow place hplace).1, ?_⟩
    intro place hstart hroot
    refine hroots place hstart ?_ hroot
    rintro rfl
    rw [isRoot_iff hsite] at hroot
    rcases hroot with hroot | ⟨-, hroot, -⟩
    · exact hroot
    · exact hroot

theorem input_files {path : String} (hsite : sites[i]? = some (inputSite fs path))
    (h : (input unzip fs path).run = some (.ok s)) : Files unzip fs sites [i] [] s := by
  obtain ⟨unpack, hinput, hmirrors⟩ := exists_unpacked_input h
  rw [Unpacked.input_eq] at hinput
  refine tree_files _ [i] path true [] empty s ?_ (iff_of_true rfl rfl) hmirrors .empty ?_ hinput
  · rw [Site.among?, hsite]
    rfl
  · exact fun _ hplace => absurd hplace List.not_mem_nil

/-- The inputs from number `k` on, after others were filed. -/
theorem Parts.exists_catalogue {paths : List String} {parts : List Scan} {k : Nat}
    (hparts : Parts unzip fs paths parts)
    (hsites : ∀ j path, paths[j]? = some path → sites[k + j]? = some (inputSite fs path))
    (hplaces : Catalogue unzip fs sites places s.artifacts)
    (hfresh : ∀ j, k ≤ j → Fresh [j] places) (h : parts.foldlM append s = .ok s') :
    ∃ new, Catalogue unzip fs sites (places ++ new) s'.artifacts ∧
      ∀ j < paths.length, ∀ place, [k + j] <+: place → IsRoot unzip sites place →
        place ∈ new := by
  induction hparts generalizing s places k with
  | nil =>
    cases h
    exact ⟨[], by rwa [List.append_nil], fun j hj => absurd hj (Nat.not_lt_zero j)⟩
  | @cons path part paths parts hpart _ ih =>
    rw [List.foldlM_cons, bind_eq_ok_iff] at h
    obtain ⟨s₁, happend, hrest⟩ := h
    obtain ⟨new₁, hcatalogue₁, hbelow₁, hroots₁⟩ := input_files (hsites 0 path rfl) hpart
    rw [List.nil_append] at hcatalogue₁
    have hdisjoint : places.Disjoint new₁ := by
      intro place hold hnew
      exact hfresh k (Nat.le_refl k) place hold (hbelow₁ place hnew)
    have hplaces₁ : Catalogue unzip fs sites (places ++ new₁) s₁.artifacts := by
      rw [(append_eq_ok_iff.mp happend).2.1]
      exact hplaces.join hcatalogue₁ hdisjoint
    have hfresh₁ : ∀ j, k + 1 ≤ j → Fresh [j] (places ++ new₁) := by
      intro j hj place hplace hstart
      rcases List.mem_append.mp hplace with hold | hnew
      · exact hfresh j (by omega) place hold hstart
      · have hsame : k + 0 = j := @eq_of_concat_append [] place _ _ (hbelow₁ place hnew) hstart
        omega
    obtain ⟨new₂, hcatalogue₂, hroots₂⟩ := ih (k := k + 1)
      (fun j path hj => by
        have hsite := hsites (j + 1) path hj
        rwa [← Nat.add_assoc, Nat.add_right_comm] at hsite) hplaces₁ hfresh₁ hrest
    refine ⟨new₁ ++ new₂, by rwa [← List.append_assoc], ?_⟩
    intro j hj place hstart hroot
    cases j with
    | zero => exact List.mem_append_left _ (hroots₁ place hstart hroot)
    | succ j =>
      refine List.mem_append_right _ (hroots₂ j (Nat.lt_of_succ_lt_succ hj) place ?_ hroot)
      rwa [Nat.add_right_comm, Nat.add_assoc]

theorem Catalogue.exists_place (h : Catalogue unzip fs sites places artifacts)
    (ha : artifacts[i]? = some a) :
    ∃ place, places[i]? = some place ∧ Filed unzip fs sites places i place a := by
  have hi : i < places.length := h.length ▸ (List.getElem?_eq_some_iff.mp ha).1
  exact ⟨places[i], List.getElem?_eq_getElem hi, h.filed i _ a (List.getElem?_eq_getElem hi) ha⟩

theorem Catalogue.exists_artifact (h : Catalogue unzip fs sites places artifacts)
    (hplace : places[i]? = some place) :
    ∃ a, artifacts[i]? = some a ∧ Filed unzip fs sites places i place a := by
  have hi : i < artifacts.length := h.length ▸ (List.getElem?_eq_some_iff.mp hplace).1
  exact ⟨artifacts[i], List.getElem?_eq_getElem hi,
    h.filed i place _ hplace (List.getElem?_eq_getElem hi)⟩

theorem Filed.location_eq (h : Filed unzip fs sites places i place a) {site : Site}
    (hsite : Site.among? unzip sites place = some site) : a.location = site.location := by
  cases h with
  | root _ hsite' hlocation =>
    cases hsite.symm.trans hsite'
    exact hlocation
  | inside _ _ hplace haround _ hchild hlocation =>
    rw [hplace, among?_concat haround, hchild] at hsite
    cases hsite
    exact hlocation

/-- Whether an artifact has a parent is decided by its place. -/
theorem Filed.parent_eq_none_iff (h : Filed unzip fs sites places i place a) :
    a.parent = none ↔ IsRoot unzip sites place := by
  cases h with
  | root hroot _ _ _ hparent => exact iff_of_true hparent hroot
  | inside _ _ hplace haround _ hchild _ _ hparent =>
    refine iff_of_false (by rw [hparent]; exact nofun) ?_
    have hsite := (among?_concat haround _).trans hchild
    rw [hplace]
    exact not_isRoot_of_entry hsite (List.prefix_refl _)

/-- The artifacts of a scan are at places of their own in the inputs. One with a parent is an entry
of the archive that is its parent, which comes before it. Those without a parent are at exactly the
places of the archive files that could be opened and of the inputs that are class files, except for
class files whose names end like that of a module description. -/
theorem inputs_catalogue {paths : List String} (h : inputs unzip fs paths = some (.ok s)) :
    ∃ places : List (List Nat), places.length = s.artifacts.length ∧ places.Nodup ∧
      (∀ (i : Nat) a p, s.artifacts[i]? = some a → a.parent = some p → p < i ∧
        ∃ b outer around k e, s.artifacts[p]? = some b ∧ places[p]? = some outer ∧
          places[i]? = some (outer ++ [k]) ∧
          Site.among? unzip (paths.map (inputSite fs)) outer = some around ∧ around.IsArchive ∧
          b.location = around.location ∧
          (around.children unzip)[k]? = some (Site.ofEntry b.location e) ∧
          a.uri = b.location ++ "!" ++ e.name) ∧
      (∀ (i : Nat) a, s.artifacts[i]? = some a → a.parent = none → ∃ place site,
        places[i]? = some place ∧
        Site.among? unzip (paths.map (inputSite fs)) place = some site ∧
        a.location = site.location ∧ a.uri = fs.uri site.location) ∧
      ∀ place, (∃ (i : Nat) (a : Artifact), places[i]? = some place ∧ s.artifacts[i]? = some a ∧
        a.parent = none) ↔ ∃ site,
          Site.among? unzip (paths.map (inputSite fs)) place = some site ∧
            (site.IsOpenedFile unzip ∨
              place.length = 1 ∧ site.IsClassFile ∧ ¬ site.TakenForModule) := by
  have hsites : ∀ j path, paths[j]? = some path →
      (paths.map (inputSite fs))[0 + j]? = some (inputSite fs path) := by
    intro j path hj
    rw [Nat.zero_add, List.getElem?_map, hj]
    rfl
  obtain ⟨parts, hparts, hfold⟩ := inputs_eq_ok_iff.mp h
  obtain ⟨places, hcatalogue, hroots⟩ := hparts.exists_catalogue hsites .empty
    (fun _ _ _ hplace => absurd hplace List.not_mem_nil) hfold
  rw [List.nil_append] at hcatalogue
  refine ⟨places, hcatalogue.length, hcatalogue.nodup, ?_, ?_, ?_⟩
  · intro i a p ha hparent
    obtain ⟨place, hplace, hfiled⟩ := hcatalogue.exists_place ha
    cases hfiled with
    | root _ _ _ _ hnone => cases hnone.symm.trans hparent
    | @inside q k outer around e hlt hp hplace' haround harchive hchild hlocation huri hparent' =>
      obtain rfl : q = p := Option.some.inj (hparent'.symm.trans hparent)
      obtain ⟨b, hb, hfiled⟩ := hcatalogue.exists_artifact hp
      have hsame : b.location = around.location := hfiled.location_eq haround
      rw [hplace'] at hplace
      rw [← hsame] at hchild hlocation
      exact ⟨hlt, b, outer, around, k, e, hb, hp, hplace, haround, harchive, hsame, hchild,
        huri.trans hlocation⟩
  · intro i a ha hparent
    obtain ⟨place, hplace, hfiled⟩ := hcatalogue.exists_place ha
    cases hfiled with
    | root _ hsite hlocation huri => exact ⟨place, _, hplace, hsite, hlocation, huri⟩
    | inside _ _ _ _ _ _ _ _ hparent' => cases hparent'.symm.trans hparent
  · intro place
    constructor
    · rintro ⟨i, a, hplace, ha, hparent⟩
      exact (hcatalogue.filed i place a hplace ha).parent_eq_none_iff.mp hparent
    · intro hroot
      -- The first step of the place says which input it is in.
      have hmem : place ∈ places := by
        obtain ⟨site, hsite, -⟩ := id hroot
        cases place with
        | nil => cases hsite
        | cons j rest =>
          obtain ⟨start, hstart, -⟩ := Option.bind_eq_some_iff.mp hsite
          have hj := (List.getElem?_eq_some_iff.mp hstart).1
          rw [List.length_map] at hj
          exact hroots j hj _ ⟨rest, by rw [Nat.zero_add]; rfl⟩ hroot
      obtain ⟨i, hplace⟩ := List.getElem?_of_mem hmem
      obtain ⟨a, ha, hfiled⟩ := hcatalogue.exists_artifact hplace
      exact ⟨i, a, hplace, ha, hfiled.parent_eq_none_iff.mpr hroot⟩

/-- The nested archive is the third artifact, and the archive around it the second. -/
theorem inputs_catalogue_shelf :
    ∃ (s : Scan) (places : List (List Nat)) (a b : Artifact) (e : ArchiveEntry),
      inputs Zip.unzip shelfFiles ["B.class", "a.jar"] = some (.ok s) ∧ places.length = 3 ∧
        s.artifacts[2]? = some a ∧ a.parent = some 1 ∧ s.artifacts[1]? = some b ∧
        a.uri = b.location ++ "!" ++ e.name := by
  have hparents : (Unpacked.inputs (fun _ => .ok [doubleTree]) shelfFiles
      ["B.class", "a.jar"]).map (fun s => s.artifacts.map Artifact.parent) =
        .ok [none, none, some 1] := by decide +kernel
  obtain ⟨s, hs, hparents⟩ := map_eq_ok_iff.mp hparents
  have hinputs := inputs_shelf (.swap "a.jar" "B.class" [])
  rw [hs] at hinputs
  obtain ⟨places, hlength, -, hinside, -, -⟩ := inputs_catalogue hinputs
  have hcount : s.artifacts.length = 3 := by simpa using congrArg List.length hparents
  obtain ⟨a, ha, hparent⟩ : ∃ a, s.artifacts[2]? = some a ∧ a.parent = some 1 := by
    have hthird := congrArg (·[2]?) hparents
    simp only [List.getElem?_map] at hthird
    exact Option.map_eq_some_iff.mp hthird
  obtain ⟨-, b, -, -, -, e, hb, -, -, -, -, -, -, huri⟩ := hinside 2 a 1 ha hparent
  exact ⟨s, places, a, b, e, hinputs, hlength.trans hcount, ha, hparent, hb, huri⟩

def lostFile : FileSystem :=
  (FileTree.ofFiles [("my-module-info.class", ⟨(Model.tinyClass 65 66).toArray⟩)]).system "/"

/-- An input that is a class file and not among the artifacts. -/
theorem inputs_lose_class_file :
    ∃ s site, inputs Zip.unzip lostFile ["my-module-info.class"] = some (.ok s) ∧
      Site.among? Zip.unzip (["my-module-info.class"].map (inputSite lostFile)) [0] = some site ∧
      site.IsClassFile ∧ s.artifacts = [] ∧ s.classCount = 0 := by
  have hnoArchives : inputArchives lostFile "my-module-info.class" = [] := rfl
  have hunpacked := @inputs_eq_some Zip.unzip (fun _ => .ok []) lostFile ["my-module-info.class"]
    (by simp [hnoArchives])
  have hnone : (Unpacked.inputs (fun _ => .ok []) lostFile ["my-module-info.class"]).map
      (fun s => (s.artifacts, s.classCount)) = .ok ([], 0) := by decide +kernel
  obtain ⟨s, hs, hempty⟩ := map_eq_ok_iff.mp hnone
  rw [hs] at hunpacked
  rw [Prod.mk.injEq] at hempty
  refine ⟨s, inputSite lostFile "my-module-info.class", hunpacked, rfl, ?_, hempty⟩
  show Path.hasExtension "my-module-info.class" "class" ∧
    ¬ Path.IsModuleDescription "my-module-info.class"
  decide +kernel

end ClassDeps.Scan
