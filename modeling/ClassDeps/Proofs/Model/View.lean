import ClassDeps.Proofs.Model.Reachable
import Mathlib.Data.Set.Insert

namespace ClassDeps

/-- What is said of a class: what would define it, and whether it is defined. -/
structure ClassContent extends ClassDefinition where
  defined : Bool
deriving DecidableEq

/-- Of this class nothing is known but its name. -/
def ClassContent.mentioned (name : String) : ClassContent where
  name
  size := 0
  codeSize := 0
  outer := none
  annotations := ∅
  uses := ∅
  defined := false

structure PackageContent where
  classes : Std.ExtTreeSet String
  annotations : Std.ExtTreeSet String
deriving DecidableEq

namespace Model

def names (m : Model) (ids : Std.ExtTreeSet ClassId) : Std.ExtTreeSet String :=
  Std.ExtTreeSet.ofList (m.classNames ids)

def contentOf (m : Model) (c : ClassNode) : ClassContent :=
  { m.definitionOf c with defined := c.defined }

def classContent? (m : Model) (name : String) : Option ClassContent :=
  ((m.classes.find? name).bind m.classes.get?).map m.contentOf

/-- A class called `x` is defined. -/
def DefinesName (m : Model) (x : String) : Prop :=
  ∃ k, m.classContent? x = some k ∧ k.defined

instance (m : Model) (x : String) : Decidable (m.DefinesName x) :=
  decidable_of_iff ((m.classContent? x).any (·.defined)) <| by
    simp [DefinesName, Option.any_eq_true]

def packageContent? (m : Model) (name : String) : Option PackageContent :=
  ((m.packages.find? name).bind m.packages.get?).map fun p =>
    { classes := m.names p.classes, annotations := m.names p.annotations }

/-- The same packages and classes under the same names, whatever their numbers. -/
def SameContent (a b : Model) : Prop :=
  (∀ name, a.packageContent? name = b.packageContent? name) ∧
    ∀ name, a.classContent? name = b.classContent? name

end Model

/-- The classes, the packages and the annotations of the packages. Which classes a package holds
follows from their names. -/
@[ext] structure View where
  classes : String → Option ClassContent
  packages : Set String
  annotations : String → Std.ExtTreeSet String

namespace View

def empty : View where
  classes _ := none
  packages := ∅
  annotations _ := ∅

def addPackage (v : View) (name : String) : View :=
  { v with packages := insert name v.packages }

def mention (v : View) (name : String) : View where
  classes other := if other = name then some ((v.classes name).getD (.mentioned name))
    else v.classes other
  packages := insert (Name.packageOf name) v.packages
  annotations := v.annotations

def update (v : View) (name : String) (f : ClassContent → ClassContent) : View :=
  { v with classes := fun other => if other = name then (v.classes name).map f
      else v.classes other }

def addUse (v : View) (name target : String) : View :=
  if name = target then v
  else (v.mention target).update name fun c => { c with uses := c.uses.insert target }

def annotate (v : View) (name type : String) : View :=
  (v.mention type).update name fun c => { c with annotations := c.annotations.insert type }

def annotatePackage (v : View) (name : String) : View where
  classes := v.classes
  packages := v.packages
  annotations package :=
    if Name.isPackageInfo name ∧ package = Name.packageOf name then
      (v.annotations package).insertMany ((v.classes name).elim ∅ fun c => c.annotations).toList
    else v.annotations package

def fill (v : View) (d : ClassDefinition) : View :=
  let v := v.update d.name fun c =>
    { c with defined := true, size := d.size, codeSize := d.codeSize, outer := d.outer }
  let v := d.uses.toList.foldl (addUse · d.name ·) v
  let v := d.annotations.toList.foldl (annotate · d.name ·) v
  v.annotatePackage d.name

end View

namespace Model

variable {m : Model}

def view (m : Model) : View where
  classes := m.classContent?
  packages := { name | (m.packages.find? name).isSome }
  annotations name := (((m.packages.find? name).bind m.packages.get?).map fun p =>
    m.names p.annotations).getD ∅

theorem Coherent.mem_names (h : m.Coherent) {ids : Std.ExtTreeSet ClassId} {name : String} :
    name ∈ m.names ids ↔ ∃ i ∈ ids, m.classes.find? name = some i := by
  simp only [names, classNames, Std.ExtTreeSet.mem_ofList, List.contains_iff_mem,
    List.mem_filterMap, Std.ExtTreeSet.mem_toList, Option.map_eq_some_iff]
  constructor
  · rintro ⟨i, hi, c, hc, rfl⟩
    exact ⟨i, hi, h.classes.find?_eq hc⟩
  · rintro ⟨i, hi, hf⟩
    exact ⟨i, hi, h.classes.get?_of_find? hf⟩

theorem Coherent.classContent?_name (h : m.Coherent) {i : ClassId} {c : ClassNode}
    (hc : m.classes.get? i = some c) : m.classContent? c.name = some (m.contentOf c) := by
  rw [classContent?, h.classes.find?_eq hc, Option.bind_some, hc, Option.map_some]

theorem Coherent.classContent?_eq_some_iff (h : m.Coherent) {name : String} {x : ClassContent} :
    m.classContent? name = some x ↔
      ∃ i c, m.classes.get? i = some c ∧ c.name = name ∧ m.contentOf c = x := by
  constructor
  · intro hx
    obtain ⟨c, hc, hcx⟩ := Option.map_eq_some_iff.mp hx
    obtain ⟨i, hi, hic⟩ := Option.bind_eq_some_iff.mp hc
    obtain ⟨c', hc', hn⟩ := h.classes.get?_of_find? hi
    rw [hic, Option.some_inj] at hc'
    exact ⟨i, c, hic, hc' ▸ hn, hcx⟩
  · rintro ⟨i, c, hc, rfl, rfl⟩
    exact h.classContent?_name hc

theorem Coherent.classContent?_isSome_iff (h : m.Coherent) {name : String} :
    (m.classContent? name).isSome ↔ (m.classes.find? name).isSome := by
  simp only [Option.isSome_iff_exists, h.classContent?_eq_some_iff, h.classes _ _]
  constructor
  · rintro ⟨x, i, c, hc, hn, -⟩
    exact ⟨i, c, hc, hn⟩
  · rintro ⟨i, c, hc, hn⟩
    exact ⟨_, i, c, hc, hn, rfl⟩

theorem Coherent.definesName_iff_exists (h : m.Coherent) {x : String} :
    m.DefinesName x ↔ ∃ i c, m.classes.get? i = some c ∧ c.defined ∧ c.name = x := by
  simp only [DefinesName, h.classContent?_eq_some_iff]
  constructor
  · rintro ⟨_, ⟨i, c, hc, hn, rfl⟩, hd⟩
    exact ⟨i, c, hc, hd, hn⟩
  · rintro ⟨i, c, hc, hd, hn⟩
    exact ⟨_, ⟨i, c, hc, hn, rfl⟩, hd⟩

theorem Coherent.package_mem_view (h : m.Coherent) {i : ClassId} {c : ClassNode}
    (hc : m.classes.get? i = some c) : Name.packageOf c.name ∈ m.view.packages := by
  change (m.packages.find? (Name.packageOf c.name)).isSome
  rw [h.package hc]
  rfl

theorem names_congr {m' : Model} {ids : Std.ExtTreeSet ClassId}
    (h : ∀ i ∈ ids, (m'.classes.get? i).map (·.name) = (m.classes.get? i).map (·.name)) :
    m'.names ids = m.names ids := by
  unfold names classNames
  congr 1
  apply List.filterMap_congr
  intro i hi
  exact h i (Std.ExtTreeSet.mem_toList.mp hi)

theorem contentOf_congr {m' : Model} {c : ClassNode}
    (ha : m'.names c.annotations = m.names c.annotations)
    (hu : m'.names c.uses = m.names c.uses) : m'.contentOf c = m.contentOf c := by
  unfold names at ha hu
  simp only [contentOf, definitionOf, ha, hu]

theorem Extends.names_eq {m' : Model} (hx : m.Extends m') {ids : Std.ExtTreeSet ClassId}
    (hids : ∀ i ∈ ids, i < m.classes.size) : m'.names ids = m.names ids := by
  apply names_congr
  intro i hi
  obtain ⟨c, hc⟩ := Arena.exists_get?_of_lt_size (hids i hi)
  obtain ⟨c', hc', he⟩ := hx.classes hc
  rw [hc, hc', Option.map_some, Option.map_some, he.name]

theorem Extends.contentOf_eq {m' : Model} (hx : m.Extends m') (h : m.Coherent) {i : ClassId}
    {c : ClassNode} (hc : m.classes.get? i = some c) : m'.contentOf c = m.contentOf c :=
  contentOf_congr (hx.names_eq fun _ hj => h.annotations hc hj)
    (hx.names_eq fun _ hj => (h.uses hc hj).1)

theorem Extends.annotations_eq {m' : Model} (hx : m.Extends m') (h : m.Coherent) {j : PackageId}
    {p : PackageNode} (hp : m.packages.get? j = some p) :
    m'.names p.annotations = m.names p.annotations :=
  hx.names_eq fun _ hi => h.packageAnnotations hp hi

theorem view_empty : empty.view = .empty := by
  have hc : empty.view.classes = View.empty.classes := by
    funext name
    simp [view, classContent?, empty, View.empty]
  apply View.ext hc
  · ext name
    simp [view, empty, View.empty]
  · funext name
    simp [view, empty, View.empty]

theorem Coherent.mem_view_annotations (h : m.Coherent) {package name : String} :
    name ∈ m.view.annotations package ↔
      ∃ j p, m.packages.get? j = some p ∧ p.name = package ∧ name ∈ m.names p.annotations := by
  simp only [view]
  constructor
  · intro hn
    cases hp : (m.packages.find? package).bind m.packages.get? with
    | none => simp [hp] at hn
    | some p =>
      rw [hp] at hn
      obtain ⟨j, hj, hjp⟩ := Option.bind_eq_some_iff.mp hp
      obtain ⟨q, hq, hqn⟩ := h.packages.get?_of_find? hj
      rw [hjp, Option.some_inj] at hq
      exact ⟨j, p, hjp, hq ▸ hqn, hn⟩
  · rintro ⟨j, p, hp, rfl, hn⟩
    rw [h.packages.find?_eq hp, Option.bind_some, hp]
    exact hn

/-- Annotations of packages stay if no package gets new ones. -/
theorem Coherent.view_annotations_eq (h : m.Coherent) {m' : Model} (h' : m'.Coherent)
    (hx : m.Extends m')
    (hp : ∀ {j p'}, m'.packages.get? j = some p' →
      (∃ p, m.packages.get? j = some p ∧ p'.annotations = p.annotations) ∨ p'.annotations = ∅) :
    m'.view.annotations = m.view.annotations := by
  funext package
  apply Std.ExtTreeSet.ext_mem
  intro name
  rw [h.mem_view_annotations, h'.mem_view_annotations]
  constructor
  · rintro ⟨j, p', hj', rfl, hn⟩
    rcases hp hj' with ⟨p, hj, ha⟩ | ha
    · obtain ⟨q, hq, hext⟩ := hx.packages hj
      rw [hj', Option.some_inj] at hq
      subst hq
      rw [ha, hx.annotations_eq h hj] at hn
      exact ⟨j, p, hj, hext.name.symm, hn⟩
    · simp [h'.mem_names, ha] at hn
  · rintro ⟨j, p, hj, rfl, hn⟩
    obtain ⟨p', hj', hext⟩ := hx.packages hj
    refine ⟨j, p', hj', hext.name, ?_⟩
    obtain ⟨i, hi, hf⟩ := h'.mem_names.mp ((hx.annotations_eq h hj).symm ▸ hn)
    exact h'.mem_names.mpr ⟨i, hext.annotations i hi, hf⟩

/-- A class that an operation leaves alone keeps its content. -/
theorem Coherent.classContent?_eq (h : m.Coherent) {m' : Model} (hx : m.Extends m')
    {name : String}
    (hf : m'.classes.find? name = m.classes.find? name)
    (hc : ∀ {i}, m.classes.find? name = some i → m'.classes.get? i = m.classes.get? i) :
    m'.classContent? name = m.classContent? name := by
  unfold classContent?
  rw [hf]
  cases hi : m.classes.find? name with
  | none => rfl
  | some i =>
    obtain ⟨c, hci, -⟩ := h.classes.get?_of_find? hi
    rw [Option.bind_some, Option.bind_some, hc hi, hci, Option.map_some, Option.map_some,
      hx.contentOf_eq h hci]

theorem Coherent.view_internPackage (h : m.Coherent) (name : String) :
    (m.internPackage name).2.view = m.view.addPackage name := by
  have hx := internPackage_extends m name
  have h' := h.internPackage name
  apply View.ext
  · funext other
    exact h.classContent?_eq hx (by rw [internPackage_classes])
      fun _ => by rw [internPackage_classes]
  · ext other
    simp only [view, View.addPackage, internPackage_find?, Set.mem_ofPred_eq, Set.mem_insert_iff]
    split_ifs with ho
    · simp [ho]
    · simp [ho]
  · apply h.view_annotations_eq h' hx
    intro j p' hp'
    rcases internPackage_cases m name with ⟨k, -, he⟩ | ⟨-, he⟩
    · rw [he] at hp'
      exact .inl ⟨p', hp', rfl⟩
    · rw [he, Arena.get?_add] at hp'
      split_ifs at hp'
      · cases hp'
        exact .inr rfl
      · exact .inl ⟨p', hp', rfl⟩

theorem Coherent.view_addClass (h : m.Coherent) {name : String} {package : PackageId}
    (hn : m.classes.find? name = none)
    (hp : m.packages.find? (Name.packageOf name) = some package) :
    (m.addClass name package).view = m.view.mention name := by
  have hx := addClass_extends m name package
  have h' := h.addClass hn hp
  have hmem : Name.packageOf name ∈ m.view.packages := by
    change (m.packages.find? _).isSome
    rw [hp]
    rfl
  have hnone : m.classContent? name = none := by
    rw [classContent?, hn]
    rfl
  apply View.ext
  · funext other
    simp only [View.mention, view]
    split_ifs with ho
    · subst ho
      have hnew : (m.addClass other package).classes.get? m.classes.size =
          some (.mentioned other package) := by
        rw [Model.addClass, Arena.get?_add, if_pos rfl]
      have hcontent := h'.classContent?_name hnew
      simp only [ClassNode.mentioned] at hcontent
      rw [hnone, hcontent]
      simp [contentOf, definitionOf, ClassContent.mentioned, classNames]
    · apply h.classContent?_eq hx
      · rw [Model.addClass, Arena.find?_add, if_neg ho]
      · intro i hi
        obtain ⟨c, hc, -⟩ := h.classes.get?_of_find? hi
        rw [Model.addClass, Arena.get?_add, if_neg (Arena.lt_size_of_get? hc).ne]
  · simp only [View.mention, Set.insert_eq_of_mem hmem]
    rfl
  · apply h.view_annotations_eq h' hx
    intro j p' hp'
    rw [Model.addClass, Arena.get?_modify] at hp'
    split_ifs at hp'
    · obtain ⟨p, hj, rfl⟩ := Option.map_eq_some_iff.mp hp'
      exact .inl ⟨p, hj, rfl⟩
    · exact .inl ⟨p', hp', rfl⟩

theorem Coherent.view_internClass (h : m.Coherent) (name : String) :
    (m.internClass name).2.view = m.view.mention name := by
  rcases internClass_cases m name with ⟨i, hi, he⟩ | ⟨hn, he⟩
  · obtain ⟨c, hc, rfl⟩ := h.classes.get?_of_find? hi
    rw [he]
    apply View.ext
    · funext other
      simp only [View.mention, view]
      split_ifs with ho
      · rw [ho, h.classContent?_name hc]
        rfl
      · rfl
    · exact (Set.insert_eq_of_mem (h.package_mem_view hc)).symm
    · rfl
  · rw [he, (h.internPackage _).view_addClass, h.view_internPackage]
    · simp [View.mention, View.addPackage]
    · rw [internPackage_classes]
      exact hn
    · rw [internPackage_find?, if_pos rfl]

theorem Coherent.names_insert (h : m.Coherent) {name : String} {i : ClassId}
    (hi : m.classes.find? name = some i) (ids : Std.ExtTreeSet ClassId) :
    m.names (ids.insert i) = (m.names ids).insert name := by
  apply Std.ExtTreeSet.ext_mem
  intro other
  simp only [h.mem_names, Std.ExtTreeSet.mem_insert, Std.LawfulEqCmp.compare_eq_iff_eq]
  constructor
  · rintro ⟨j, rfl | hj, hf⟩
    · obtain ⟨c, hc, hn⟩ := h.classes.get?_of_find? hi
      obtain ⟨c', hc', hn'⟩ := h.classes.get?_of_find? hf
      rw [hc, Option.some_inj] at hc'
      subst hc'
      exact .inl (hn.symm.trans hn')
    · exact .inr ⟨j, hj, hf⟩
  · rintro (rfl | ⟨j, hj, hf⟩)
    · exact ⟨i, .inl rfl, hi⟩
    · exact ⟨j, .inr hj, hf⟩

theorem Coherent.view_updateClass (h : m.Coherent) {i : ClassId} {f : ClassNode → ClassNode}
    {g : ClassContent → ClassContent} (h' : (m.updateClass i f).Coherent) {c : ClassNode}
    (hc : m.classes.get? i = some c) (hf : (f c).name = c.name)
    (hg : m.contentOf (f c) = g (m.contentOf c)) :
    (m.updateClass i f).view = m.view.update c.name g := by
  have hnames : ∀ ids, (m.updateClass i f).names ids = m.names ids := by
    intro ids
    apply names_congr
    intro j _
    rw [Model.updateClass, Arena.get?_modify]
    split_ifs with hj
    · rw [hj, hc, Option.map_some, Option.map_some, Option.map_some, hf]
    · rfl
  have hnew : (m.updateClass i f).classes.get? i = some (f c) := by
    rw [Model.updateClass, Arena.get?_modify, if_pos rfl, hc, Option.map_some]
  apply View.ext
  · funext other
    simp only [View.update, view]
    split_ifs with ho
    · rw [ho, h.classContent?_name hc, ← hf, h'.classContent?_name hnew, Option.map_some, ← hg,
        contentOf_congr (hnames _) (hnames _)]
    · unfold classContent?
      change Option.map _ ((m.classes.find? other).bind _) = _
      cases hj : m.classes.find? other with
      | none => rfl
      | some j =>
        obtain ⟨b, hb, hbn⟩ := h.classes.get?_of_find? hj
        have hji : j ≠ i := by
          rintro rfl
          rw [hc, Option.some_inj] at hb
          exact ho (hb ▸ hbn.symm)
        rw [Option.bind_some, Option.bind_some, Model.updateClass, Arena.get?_modify,
          if_neg hji, hb, Option.map_some, Option.map_some]
        congr 1
        exact contentOf_congr (hnames _) (hnames _)
  · rfl
  · funext package
    simp only [View.update, view, hnames]
    rfl

theorem Coherent.view_addUse (h : m.Coherent) {i : ClassId} {c : ClassNode}
    (hc : m.classes.get? i = some c) (target : String) :
    (m.addUse i target).view = m.view.addUse c.name target := by
  have h' := h.addUse (Arena.lt_size_of_get? hc) target
  rw [addUse_eq] at h' ⊢
  unfold View.addUse
  by_cases hself : c.name = target
  · rw [if_pos (by simp [hc, hself]), if_pos hself]
  · have hany : ¬(m.classes.get? i).any (·.name = target) := by simp [hc, hself]
    rw [if_neg hany] at h' ⊢
    rw [if_neg hself, ← h.view_internClass]
    obtain ⟨b, hb, hext⟩ := (internClass_extends m target).classes hc
    rw [← hext.name]
    apply (h.internClass target).view_updateClass h' hb rfl
    have hfind : (m.internClass target).2.classes.find? target =
        some (m.internClass target).1 := by
      rw [internClass_find?, if_pos rfl]
    have hins := (h.internClass target).names_insert hfind b.uses
    unfold names at hins
    simp only [contentOf, definitionOf, hins]

theorem Coherent.view_annotate (h : m.Coherent) {i : ClassId} {c : ClassNode}
    (hc : m.classes.get? i = some c) (type : String) :
    (m.annotate i type).view = m.view.annotate c.name type := by
  have h' := h.annotate i type
  rw [annotate_eq] at h' ⊢
  rw [View.annotate, ← h.view_internClass]
  obtain ⟨b, hb, hext⟩ := (internClass_extends m type).classes hc
  rw [← hext.name]
  apply (h.internClass type).view_updateClass h' hb rfl
  have hfind : (m.internClass type).2.classes.find? type = some (m.internClass type).1 := by
    rw [internClass_find?, if_pos rfl]
  have hins := (h.internClass type).names_insert hfind b.annotations
  unfold names at hins
  simp only [contentOf, definitionOf, hins]

theorem Coherent.names_insertMany (h : m.Coherent) (ids more : Std.ExtTreeSet ClassId) :
    m.names (ids.insertMany more.toList) = (m.names ids).insertMany (m.names more).toList := by
  apply Std.ExtTreeSet.ext_mem
  intro name
  simp only [h.mem_names, Std.ExtTreeSet.mem_insertMany_list, List.contains_iff_mem,
    Std.ExtTreeSet.mem_toList, or_and_right, exists_or]

theorem Coherent.view_annotatePackage (h : m.Coherent) {i : ClassId} {c : ClassNode}
    (hc : m.classes.get? i = some c) :
    (m.annotatePackage i).view = m.view.annotatePackage c.name := by
  have hcls := annotatePackage_classes m i
  have hnames : (m.annotatePackage i).names = m.names := by
    unfold names classNames
    rw [hcls]
  have hclass : (m.annotatePackage i).view.classes = m.view.classes := by
    funext name
    exact h.classContent?_eq (annotatePackage_extends m i) (by rw [hcls])
      fun _ => by rw [hcls]
  rw [annotatePackage_eq hc] at hclass hnames ⊢
  by_cases hinfo : c.isPackageInfo
  · rw [if_pos hinfo] at hclass hnames ⊢
    have hname : Name.isPackageInfo c.name := hinfo
    refine View.ext hclass rfl ?_
    funext package
    simp only [view, View.annotatePackage, hname, true_and, Arena.find?_modify, hnames]
    have hann : (m.classContent? c.name).elim ∅ (fun x => x.annotations) =
        m.names c.annotations := by
      rw [h.classContent?_name hc]
      rfl
    rw [hann]
    split_ifs with hp
    · obtain ⟨p, hpc, -⟩ := h.packages.get?_of_find? (h.package hc)
      rw [hp, h.package hc, Option.bind_some, Option.bind_some, Arena.get?_modify, if_pos rfl,
        hpc, Option.map_some, Option.map_some, Option.map_some, Option.getD_some,
        Option.getD_some, h.names_insertMany]
    · cases hj : m.packages.find? package with
      | none => rfl
      | some j =>
        have hne : j ≠ c.package := by
          rintro rfl
          obtain ⟨p, hpj, hpn⟩ := h.packages.get?_of_find? hj
          obtain ⟨q, hq, hqn⟩ := h.packages.get?_of_find? (h.package hc)
          rw [hpj, Option.some_inj] at hq
          exact hp (hpn.symm.trans (hq ▸ hqn))
        rw [Option.bind_some, Option.bind_some, Arena.get?_modify, if_neg hne]
  · rw [if_neg hinfo]
    have hname : ¬Name.isPackageInfo c.name := hinfo
    refine View.ext rfl rfl ?_
    funext package
    simp [View.annotatePackage, hname]

/-- A run of additions to the class of number `i` is a run of additions to its view. -/
theorem Coherent.view_foldl (h : m.Coherent) {f : Model → String → Model}
    {g : View → String → View} {i : ClassId} {name : String}
    (hf : ∀ m t, m.Coherent → i < m.classes.size → (f m t).Coherent)
    (hx : ∀ (m : Model) t, m.Extends (f m t))
    (hg : ∀ (m : Model) t c, m.Coherent → m.classes.get? i = some c → c.name = name →
      (f m t).view = g m.view t)
    (ts : List String) {c : ClassNode} (hc : m.classes.get? i = some c) (hn : c.name = name) :
    (ts.foldl f m).view = ts.foldl g m.view := by
  induction ts generalizing m c with
  | nil => rfl
  | cons t ts ih =>
    obtain ⟨c', hc', he⟩ := (hx m t).classes hc
    rw [List.foldl_cons, List.foldl_cons, ← hg m t c h hc hn]
    exact ih (hf m t h (Arena.lt_size_of_get? hc)) hc' (he.name.trans hn)

theorem Coherent.view_fill (h : m.Coherent) {i : ClassId} {c : ClassNode} {d : ClassDefinition}
    (hc : m.classes.get? i = some c) (hd : c.defined = false) (hn : c.name = d.name) :
    (m.fill i d).view = m.view.fill d := by
  rw [fill_eq]
  have hm := h.markDefined hc hd d
  have hmark : (m.markDefined i d).view = m.view.update d.name fun c =>
      { c with defined := true, size := d.size, codeSize := d.codeSize, outer := d.outer } := by
    rw [← hn]
    exact h.view_updateClass hm hc rfl rfl
  obtain ⟨b, hb, hxb⟩ := (markDefined_extends hc hd d).classes hc
  have hbn : b.name = d.name := hxb.name.trans hn
  have huse := hm.view_foldl (f := (Model.addUse · i ·)) (g := (View.addUse · d.name ·))
    (fun m t hm hi => hm.addUse hi t) (fun m t => addUse_extends m i t)
    (fun m t c hm hc hn => by rw [← hn]; exact hm.view_addUse hc t) d.uses.toList hb hbn
  obtain ⟨hu, hxu⟩ := foldl_keeps (fun m t hm hi => hm.addUse hi t)
    (fun m t => addUse_extends m i t) d.uses.toList hm (Arena.lt_size_of_get? hb)
  obtain ⟨e, he, hxe⟩ := hxu.classes hb
  have hen : e.name = d.name := hxe.name.trans hbn
  have hann := hu.view_foldl (f := (Model.annotate · i ·)) (g := (View.annotate · d.name ·))
    (fun m t hm _ => hm.annotate i t) (fun m t => annotate_extends m i t)
    (fun m t c hm hc hn => by rw [← hn]; exact hm.view_annotate hc t) d.annotations.toList he hen
  obtain ⟨ha, hxa⟩ := foldl_keeps (fun m t hm _ => hm.annotate i t)
    (fun m t => annotate_extends m i t) d.annotations.toList hu (Arena.lt_size_of_get? he)
  obtain ⟨g, hg, hxg⟩ := hxa.classes he
  rw [ha.view_annotatePackage hg, hxg.name, hen, hann, huse, hmark]
  rfl

end Model

end ClassDeps
