import ClassDeps.Proofs.Model.Define
import Mathlib.Data.Set.Lattice

namespace ClassDeps

/-- The definitions in a model, and the names of its classes and its packages. -/
@[ext] structure Summary where
  definitions : Set ClassDefinition
  classes : Set String
  packages : Set String

namespace Summary

instance : Union Summary where
  union s t := ⟨s.definitions ∪ t.definitions, s.classes ∪ t.classes, s.packages ∪ t.packages⟩

@[simp] theorem definitions_union (s t : Summary) :
    (s ∪ t).definitions = s.definitions ∪ t.definitions := rfl

@[simp] theorem classes_union (s t : Summary) : (s ∪ t).classes = s.classes ∪ t.classes := rfl

@[simp] theorem packages_union (s t : Summary) : (s ∪ t).packages = s.packages ∪ t.packages := rfl

theorem union_comm (s t : Summary) : s ∪ t = t ∪ s :=
  Summary.ext (Set.union_comm ..) (Set.union_comm ..) (Set.union_comm ..)

theorem union_assoc (s t u : Summary) : s ∪ t ∪ u = s ∪ (t ∪ u) :=
  Summary.ext (Set.union_assoc ..) (Set.union_assoc ..) (Set.union_assoc ..)

/-- No class is defined in both with different definitions. -/
def Compatible (s t : Summary) : Prop :=
  ∀ d ∈ s.definitions, ∀ e ∈ t.definitions, d.name = e.name → d = e

theorem Compatible.symm {s t : Summary} (h : s.Compatible t) : t.Compatible s := by
  intro d hd e he hn
  exact (h e he d hd hn.symm).symm

theorem compatible_union_left {s t u : Summary} :
    (s ∪ t).Compatible u ↔ s.Compatible u ∧ t.Compatible u := by
  simp only [Compatible, definitions_union, Set.mem_union, or_imp, forall_and]

theorem compatible_union_right {s t u : Summary} :
    s.Compatible (t ∪ u) ↔ s.Compatible t ∧ s.Compatible u := by
  simp only [Compatible, definitions_union, Set.mem_union, or_imp, forall_and]

end Summary

/-- What a definition adds to a model. -/
def ClassDefinition.summary (d : ClassDefinition) : Summary where
  definitions := {d.proper}
  classes := d.mentions
  packages := Name.packageOf '' d.mentions

namespace Model

variable {m : Model}

def summary (m : Model) : Summary where
  definitions := { d | m.classContent? d.name = some d.content }
  classes := { name | (m.classContent? name).isSome }
  packages := m.view.packages

/-- Nothing is known of a class that is not defined, and the annotations of a package are those of
its defined `package-info` classes. -/
structure Settled (m : Model) : Prop where
  coherent : m.Coherent
  undefined : ∀ {name x}, m.classContent? name = some x → x.defined = false →
    x = .mentioned name
  annotations : ∀ {package name}, name ∈ m.view.annotations package ↔
    ∃ d ∈ m.summary.definitions,
      Name.isPackageInfo d.name ∧ Name.packageOf d.name = package ∧ name ∈ d.annotations

@[simp] theorem classContent?_empty (name : String) : empty.classContent? name = none := by
  simp [classContent?, empty]

theorem settled_empty : empty.Settled where
  coherent := coherent_empty
  undefined h := by simp at h
  annotations := by simp [view_empty, View.empty, summary]

theorem summary_empty : empty.summary = ⟨∅, ∅, ∅⟩ := by
  simp [summary, view_empty, View.empty]

theorem Coherent.content_name (h : m.Coherent) {name : String} {x : ClassContent}
    (hx : m.classContent? name = some x) : x.name = name := by
  obtain ⟨i, c, -, hn, rfl⟩ := h.classContent?_eq_some_iff.mp hx
  exact hn

theorem Coherent.isSome_of_mem_names (h : m.Coherent) {ids : Std.ExtTreeSet ClassId}
    {name : String} (hn : name ∈ m.names ids) : (m.classContent? name).isSome := by
  obtain ⟨i, -, hi⟩ := h.mem_names.mp hn
  rw [h.classContent?_isSome_iff, hi]
  rfl

theorem Coherent.content_uses (h : m.Coherent) {name used : String} {x : ClassContent}
    (hx : m.classContent? name = some x) (hu : used ∈ x.uses) :
    (m.classContent? used).isSome ∧ used ≠ name := by
  obtain ⟨i, c, hc, hn, rfl⟩ := h.classContent?_eq_some_iff.mp hx
  refine ⟨h.isSome_of_mem_names hu, ?_⟩
  rintro rfl
  obtain ⟨j, hj, hf⟩ := h.mem_names.mp hu
  rw [← hn, h.classes.find?_eq hc, Option.some_inj] at hf
  exact (h.uses hc hj).2 hf.symm

theorem Coherent.content_annotations (h : m.Coherent) {name type : String} {x : ClassContent}
    (hx : m.classContent? name = some x) (ht : type ∈ x.annotations) :
    (m.classContent? type).isSome := by
  obtain ⟨i, c, hc, hn, rfl⟩ := h.classContent?_eq_some_iff.mp hx
  exact h.isSome_of_mem_names ht

theorem Coherent.package_mem_summary (h : m.Coherent) {name : String}
    (hn : name ∈ m.summary.classes) : Name.packageOf name ∈ m.summary.packages := by
  obtain ⟨x, hx⟩ := Option.isSome_iff_exists.mp hn
  obtain ⟨i, c, hc, rfl, -⟩ := h.classContent?_eq_some_iff.mp hx
  exact h.package_mem_view hc

theorem Coherent.proper_of_mem (h : m.Coherent) {d : ClassDefinition}
    (hd : d ∈ m.summary.definitions) : d.proper = d := by
  apply ClassDefinition.proper_eq_self
  intro hu
  exact (h.content_uses hd hu).2 rfl

theorem Coherent.mentions_subset (h : m.Coherent) {d : ClassDefinition}
    (hd : d ∈ m.summary.definitions) : d.mentions ⊆ m.summary.classes := by
  rintro name (rfl | hn | hn)
  · exact Option.isSome_iff_exists.mpr ⟨_, hd⟩
  · exact (h.content_uses hd hn).1
  · exact h.content_annotations hd hn

/-- A definition that is in a model adds nothing to it. -/
theorem Coherent.union_summary_of_mem (h : m.Coherent) {d : ClassDefinition}
    (hd : d ∈ m.summary.definitions) : m.summary ∪ d.summary = m.summary := by
  have hm := h.mentions_subset hd
  apply Summary.ext
  · simp only [Summary.definitions_union, ClassDefinition.summary, h.proper_of_mem hd]
    exact Set.union_eq_left.mpr (Set.singleton_subset_iff.mpr hd)
  · exact Set.union_eq_left.mpr hm
  · refine Set.union_eq_left.mpr ?_
    rintro package ⟨name, hn, rfl⟩
    exact h.package_mem_summary (hm hn)

theorem mem_definitions_of_defined {name : String} {x : ClassContent}
    (h : m.Coherent) (hx : m.classContent? name = some x) (hd : x.defined = true) :
    x.toClassDefinition ∈ m.summary.definitions := by
  change m.classContent? x.name = some { x.toClassDefinition with defined := true }
  rw [h.content_name hx, hx, ← hd]

theorem Settled.known_of_undefined (h : m.Settled) {name : String}
    (hd : (m.view.known name).defined = false) : m.view.known name = .mentioned name := by
  cases hx : m.classContent? name with
  | none =>
    rw [View.known, show m.view.classes name = none from hx]
    rfl
  | some x =>
    have he : m.view.known name = x := by
      rw [View.known, show m.view.classes name = some x from hx]
      rfl
    rw [he] at hd ⊢
    exact h.undefined hx hd

theorem known_eq_content_iff {d : ClassDefinition} :
    m.view.known d.name = d.content ↔ d ∈ m.summary.definitions := by
  change _ ↔ m.classContent? d.name = some d.content
  unfold View.known
  change (m.classContent? d.name).getD _ = _ ↔ _
  cases m.classContent? d.name with
  | none =>
    refine iff_of_false ?_ (by simp)
    intro h
    exact Bool.noConfusion (congrArg ClassContent.defined h)
  | some x => simp

theorem filled_mentioned (d : ClassDefinition) :
    (ClassContent.mentioned d.name).filled d = d.proper.content := by
  have ha : (∅ : Std.ExtTreeSet String).insertMany d.annotations.toList = d.annotations := by
    apply Std.ExtTreeSet.ext_mem
    intro name
    simp
  have hu : (∅ : Std.ExtTreeSet String).insertMany (d.uses.toList.filter (· ≠ d.name)) =
      d.uses.erase d.name := by
    apply Std.ExtTreeSet.ext_mem
    intro name
    simp [and_comm, @eq_comm _ d.name]
  simp only [ClassContent.filled, ClassContent.mentioned, ha, hu]
  rfl

/-- The names after a class is defined for the first time. -/
theorem Coherent.names_define_new (h : m.Coherent) {d : ClassDefinition}
    (hd : (m.view.known d.name).defined = false) :
    (m.define d).2.summary.classes = m.summary.classes ∪ d.mentions ∧
      (m.define d).2.summary.packages = m.summary.packages ∪ Name.packageOf '' d.mentions := by
  obtain ⟨-, hview⟩ := h.define_of_undefined hd
  refine ⟨?_, congrArg View.packages hview⟩
  ext name
  change ((m.define d).2.view.classes name).isSome ↔
    (m.classContent? name).isSome ∨ (name = d.name ∨ _)
  rw [hview]
  simp only
  split_ifs with hn hm
  · simp [hn]
  · simp [hm]
  · simp only [hn, hm, or_false]
    rfl

/-- The definitions, the names and the annotations after a class is defined for the first time. -/
theorem Settled.define_new (h : m.Settled) {d : ClassDefinition}
    (hd : (m.view.known d.name).defined = false) :
    (m.define d).2.Settled ∧ (m.define d).2.summary = m.summary ∪ d.summary := by
  have hk := h.known_of_undefined hd
  obtain ⟨-, hview⟩ := h.coherent.define_of_undefined hd
  rw [hk, filled_mentioned] at hview
  have hcls : ∀ name, (m.define d).2.classContent? name =
      if name = d.name then some d.proper.content
      else if name ∈ d.uses ∨ name ∈ d.annotations then some (m.view.known name)
      else m.classContent? name := fun name => congrArg (View.classes · name) hview
  -- The class was not defined before, so no definition of it goes away.
  have hnew : ∀ e ∈ m.summary.definitions, e.name ≠ d.name := by
    intro e he hn
    rw [← hn, known_eq_content_iff.mpr he] at hd
    cases hd
  have hdefs : (m.define d).2.summary.definitions = m.summary.definitions ∪ {d.proper} := by
    ext e
    change (m.define d).2.classContent? e.name = some e.content ↔ _
    rw [hcls, Set.mem_union, Set.mem_singleton_iff]
    by_cases hn : e.name = d.name
    · have hold : e ∉ m.summary.definitions := fun he => hnew e he hn
      rw [if_pos hn, Option.some_inj, ClassDefinition.content_injective.eq_iff]
      simp only [hold, false_or, eq_comm]
    · have hne : e ≠ d.proper := by
        rintro rfl
        exact hn rfl
      rw [if_neg hn, or_iff_left hne]
      split_ifs
      · rw [Option.some_inj, known_eq_content_iff]
      · rfl
  constructor
  · refine ⟨(h.coherent.define d).1, ?_, ?_⟩
    · intro name x hx hxd
      rw [hcls] at hx
      split_ifs at hx with hn hm
      · cases hx
        cases hxd
      · cases hx
        exact h.known_of_undefined hxd
      · exact h.undefined hx hxd
    · intro package name
      rw [hdefs, hview]
      simp only [Set.mem_union, Set.mem_singleton_iff, or_and_right, exists_or, exists_eq_left]
      rw [← h.annotations]
      split_ifs with hp
      · obtain ⟨hi, rfl⟩ := hp
        simp [ClassDefinition.proper, hi, ClassContent.mentioned]
      · have hno : ¬(Name.isPackageInfo d.name ∧ Name.packageOf d.name = package ∧
            name ∈ d.annotations) := by
          rintro ⟨hi, he, -⟩
          exact hp ⟨hi, he.symm⟩
        exact (or_iff_left hno).symm
  · obtain ⟨hnames, hpackages⟩ := h.coherent.names_define_new hd
    exact Summary.ext hdefs hnames hpackages

theorem exists_of_known_defined {name : String} (hd : (m.view.known name).defined = true) :
    ∃ x, m.classContent? name = some x ∧ x.defined = true := by
  unfold View.known at hd
  change ((m.classContent? name).getD _).defined = true at hd
  cases hx : m.classContent? name with
  | none =>
    rw [hx] at hd
    cases hd
  | some x =>
    rw [hx] at hd
    exact ⟨x, rfl, hd⟩

theorem Coherent.of_define (h : m.Coherent) {d : ClassDefinition} {r : Except Conflict ClassId}
    {m' : Model} (he : m.define d = (r, m')) : m'.Coherent := by
  have h' := (h.define d).1
  rwa [he] at h'

/-- A definition that is accepted either is for a class that was not defined, or is in the model. -/
theorem Coherent.define_ok_cases (h : m.Coherent) {d : ClassDefinition} {i : ClassId} {m' : Model}
    (hok : m.define d = (.ok i, m')) :
    (m.view.known d.name).defined = false ∨ m' = m ∧ d ∈ m.summary.definitions := by
  cases hd : (m.view.known d.name).defined with
  | false => exact .inl rfl
  | true =>
    obtain ⟨x, hx, hxd⟩ := exists_of_known_defined hd
    obtain ⟨hm, ⟨-, rfl⟩ | ⟨herr, -⟩⟩ := h.define_of_defined hx hxd
    · rw [hok] at hm
      exact .inr ⟨hm, hx⟩
    · rw [hok] at herr
      cases herr

/-- A model takes a definition unless it has another one of the same class. -/
theorem Settled.define_ok_iff (h : m.Settled) (d : ClassDefinition) :
    (∃ i, (m.define d).1 = .ok i) ↔ ∀ e ∈ m.summary.definitions, e.name = d.name → e = d := by
  cases hd : (m.view.known d.name).defined with
  | false =>
    refine iff_of_true (h.coherent.define_of_undefined hd).1 ?_
    intro e he hn
    rw [← hn, known_eq_content_iff.mpr he] at hd
    cases hd
  | true =>
    obtain ⟨x, hx, hxd⟩ := exists_of_known_defined hd
    have hmem := mem_definitions_of_defined h.coherent hx hxd
    obtain ⟨-, ⟨hok, rfl⟩ | ⟨herr, hne⟩⟩ := h.coherent.define_of_defined hx hxd
    · refine iff_of_true hok ?_
      intro e he hn
      change m.classContent? e.name = some e.content at he
      rw [hn, hx, Option.some_inj] at he
      exact (ClassDefinition.content_injective he).symm
    · refine iff_of_false ?_ ?_
      · rintro ⟨i, hi⟩
        rw [herr] at hi
        cases hi
      · intro hall
        apply hne
        have he := hall _ hmem (h.coherent.content_name hx)
        rw [← he, ClassDefinition.content, ← hxd]

theorem Settled.define (h : m.Settled) {d : ClassDefinition} {i : ClassId} {m' : Model}
    (he : m.define d = (.ok i, m')) : m'.Settled ∧ m'.summary = m.summary ∪ d.summary := by
  rcases h.coherent.define_ok_cases he with hd | ⟨rfl, hmem⟩
  · have hm := h.define_new hd
    rw [he] at hm
    exact hm
  · exact ⟨h, (h.coherent.union_summary_of_mem hmem).symm⟩

theorem Settled.internPackage (h : m.Settled) (name : String) :
    (m.internPackage name).2.Settled ∧
      (m.internPackage name).2.summary = m.summary ∪ ⟨∅, ∅, {name}⟩ := by
  have hview := h.coherent.view_internPackage name
  have hcls : (m.internPackage name).2.classContent? = m.classContent? :=
    congrArg View.classes hview
  have hdefs : (m.internPackage name).2.summary.definitions = m.summary.definitions := by
    simp only [summary, hcls]
  constructor
  · refine ⟨h.coherent.internPackage name, ?_, ?_⟩
    · intro other x hx
      rw [hcls] at hx
      exact h.undefined hx
    · intro package other
      rw [hdefs, hview]
      exact h.annotations
  · apply Summary.ext
    · rw [hdefs, Summary.definitions_union, Set.union_empty]
    · simp only [summary, hcls, Summary.classes_union, Set.union_empty]
    · simp only [summary, hview, Summary.packages_union, Set.union_singleton, View.addPackage]

theorem Coherent.classContent?_internClass (h : m.Coherent) (name other : String) :
    (m.internClass name).2.classContent? other =
      if other = name then some (m.view.known name) else m.classContent? other :=
  congrArg (View.classes · other) (h.view_internClass name)

theorem Coherent.names_internClass (h : m.Coherent) (name : String) :
    (m.internClass name).2.summary.classes = m.summary.classes ∪ {name} ∧
      (m.internClass name).2.summary.packages = m.summary.packages ∪ {Name.packageOf name} := by
  constructor
  · ext other
    change ((m.internClass name).2.classContent? other).isSome ↔
      (m.classContent? other).isSome ∨ other = name
    rw [h.classContent?_internClass]
    split_ifs with hn
    · simp [hn]
    · simp [hn]
  · simp only [summary, h.view_internClass, Set.union_singleton, View.mention]

theorem Settled.internClass (h : m.Settled) (name : String) :
    (m.internClass name).2.Settled ∧
      (m.internClass name).2.summary = m.summary ∪ ⟨∅, {name}, {Name.packageOf name}⟩ := by
  have hcls := h.coherent.classContent?_internClass name
  have hdefs : (m.internClass name).2.summary.definitions = m.summary.definitions := by
    ext d
    change (m.internClass name).2.classContent? d.name = some d.content ↔ _
    rw [hcls]
    split_ifs with hn
    · rw [← hn, Option.some_inj, known_eq_content_iff]
    · rfl
  constructor
  · refine ⟨h.coherent.internClass name, ?_, ?_⟩
    · intro other x hx hxd
      rw [hcls] at hx
      split_ifs at hx with hn
      · cases hx
        rw [hn]
        exact h.known_of_undefined hxd
      · exact h.undefined hx hxd
    · intro package other
      rw [hdefs, h.coherent.view_internClass]
      exact h.annotations
  · obtain ⟨hnames, hpackages⟩ := h.coherent.names_internClass name
    refine Summary.ext ?_ hnames hpackages
    rw [hdefs, Summary.definitions_union, Set.union_empty]

theorem Coherent.packageContent?_isSome_iff (h : m.Coherent) {package : String} :
    (m.packageContent? package).isSome ↔ package ∈ m.summary.packages := by
  change _ ↔ (m.packages.find? package).isSome
  unfold packageContent?
  cases hj : m.packages.find? package with
  | none => rfl
  | some j =>
    obtain ⟨p, hp, -⟩ := h.packages.get?_of_find? hj
    simp [hp]

theorem annotations_of_packageContent? {package : String} {x : PackageContent}
    (hx : m.packageContent? package = some x) : x.annotations = m.view.annotations package := by
  obtain ⟨p, hp, rfl⟩ := Option.map_eq_some_iff.mp hx
  simp only [view, hp]
  rfl

/-- Which classes a package holds follows from their names. -/
theorem Coherent.mem_classes_of_packageContent? (h : m.Coherent) {package : String}
    {x : PackageContent} (hx : m.packageContent? package = some x) {name : String} :
    name ∈ x.classes ↔ name ∈ m.summary.classes ∧ Name.packageOf name = package := by
  obtain ⟨p, hp, rfl⟩ := Option.map_eq_some_iff.mp hx
  obtain ⟨j, hj, hjp⟩ := Option.bind_eq_some_iff.mp hp
  change name ∈ m.names p.classes ↔ (m.classContent? name).isSome ∧ _
  rw [h.mem_names, h.classContent?_isSome_iff]
  constructor
  · rintro ⟨i, hi, hf⟩
    obtain ⟨c, hc, hcj⟩ := (h.member_iff hjp).mp hi
    obtain ⟨b, hb, rfl⟩ := h.classes.get?_of_find? hf
    rw [hc, Option.some_inj] at hb
    subst hb
    have hfind := h.package hc
    obtain ⟨q, hq, hqn⟩ := h.packages.get?_of_find? hfind
    obtain ⟨r, hr, hrn⟩ := h.packages.get?_of_find? hj
    rw [hcj, hr, Option.some_inj] at hq
    subst hq
    exact ⟨by rw [hf]; rfl, hqn.symm.trans hrn⟩
  · rintro ⟨hs, rfl⟩
    obtain ⟨i, hi⟩ := Option.isSome_iff_exists.mp hs
    obtain ⟨c, hc, rfl⟩ := h.classes.get?_of_find? hi
    refine ⟨i, (h.member_iff hjp).mpr ⟨c, hc, ?_⟩, hi⟩
    rw [h.package hc] at hj
    exact Option.some_inj.mp hj

theorem Settled.classContent?_eq {a b : Model} (ha : a.Settled) (hb : b.Settled)
    (h : a.summary = b.summary) (name : String) : a.classContent? name = b.classContent? name := by
  have hsome : (a.classContent? name).isSome ↔ (b.classContent? name).isSome :=
    Set.ext_iff.mp (congrArg Summary.classes h) name
  -- A class that one of the models defines has the same definition in the other.
  have hdef : ∀ {a b : Model}, a.Coherent → a.summary = b.summary → ∀ {x},
      a.classContent? name = some x → x.defined = true → b.classContent? name = some x := by
    intro a b ha h x hx hd
    have hmem := mem_definitions_of_defined ha hx hd
    rw [h] at hmem
    change b.classContent? x.name = some { x.toClassDefinition with defined := true } at hmem
    rwa [ha.content_name hx, ← hd] at hmem
  cases hx : a.classContent? name with
  | none =>
    rw [hx] at hsome
    cases hy : b.classContent? name with
    | none => rfl
    | some y => simp [hy] at hsome
  | some x =>
    rw [hx] at hsome
    obtain ⟨y, hy⟩ := Option.isSome_iff_exists.mp (hsome.mp rfl)
    cases hxd : x.defined with
    | true => exact (hdef ha.coherent h hx hxd).symm
    | false =>
      cases hyd : y.defined with
      | true => exact hx.symm.trans (hdef hb.coherent h.symm hy hyd) |>.trans hy.symm
      | false => rw [hy, ha.undefined hx hxd, hb.undefined hy hyd]

/-- Two settled models with the same definitions and names have the same content. -/
theorem Settled.sameContent {a b : Model} (ha : a.Settled) (hb : b.Settled)
    (h : a.summary = b.summary) : a.SameContent b := by
  refine ⟨fun package => ?_, ha.classContent?_eq hb h⟩
  have hsome : (a.packageContent? package).isSome ↔ (b.packageContent? package).isSome := by
    rw [ha.coherent.packageContent?_isSome_iff, hb.coherent.packageContent?_isSome_iff, h]
  cases hx : a.packageContent? package with
  | none =>
    rw [hx] at hsome
    cases hy : b.packageContent? package with
    | none => rfl
    | some y => simp [hy] at hsome
  | some x =>
    rw [hx] at hsome
    obtain ⟨y, hy⟩ := Option.isSome_iff_exists.mp (hsome.mp rfl)
    have hcls : x.classes = y.classes := by
      apply Std.ExtTreeSet.ext_mem
      intro name
      rw [ha.coherent.mem_classes_of_packageContent? hx,
        hb.coherent.mem_classes_of_packageContent? hy, h]
    have hann : x.annotations = y.annotations := by
      apply Std.ExtTreeSet.ext_mem
      intro name
      rw [annotations_of_packageContent? hx, annotations_of_packageContent? hy, ha.annotations,
        hb.annotations, h]
    rw [hy, Option.some_inj]
    cases x
    cases y
    simp_all only

end Model

end ClassDeps
