import ClassDeps.Proofs.Model.Merge
import ClassDeps.Proofs.Model.Redefine

namespace ClassDeps.Model

variable {m m' other : Model} {d : ClassDefinition} {i : ClassId}

theorem definesName_iff_known {name : String} :
    m.DefinesName name ↔ (m.view.known name).defined = true := by
  constructor
  · rintro ⟨x, hx, hd⟩
    rwa [View.known, show m.view.classes name = some x from hx]
  · exact exists_of_known_defined

theorem Coherent.names_define (h : m.Coherent) (hok : m.define d = (.ok i, m')) :
    m'.summary.classes = m.summary.classes ∪ d.mentions ∧
      m'.summary.packages = m.summary.packages ∪ Name.packageOf '' d.mentions := by
  rcases h.define_ok_cases hok with hd | ⟨rfl, hmem⟩
  · have hnames := h.names_define_new hd
    rw [hok] at hnames
    exact hnames
  · have hunion := (h.union_summary_of_mem hmem).symm
    exact ⟨congrArg Summary.classes hunion, congrArg Summary.packages hunion⟩

theorem Coherent.definesName_define (h : m.Coherent) (hok : m.define d = (.ok i, m'))
    {name : String} : m'.DefinesName name ↔ m.DefinesName name ∨ name = d.name := by
  rcases h.define_ok_cases hok with hd | ⟨rfl, hmem⟩
  · have hknown := h.known_define hd name
    rw [hok] at hknown
    rw [definesName_iff_known, definesName_iff_known, hknown]
    split_ifs with hn
    · simp [hn, ClassContent.filled]
    · simp [hn]
  · refine (or_iff_left_of_imp ?_).symm
    rintro rfl
    exact ⟨_, hmem, rfl⟩

/-- A class that is defined keeps its links whatever is defined. -/
theorem Coherent.links_of_definesName (h : m.Coherent) (hok : m.define d = (.ok i, m'))
    {kind : LinkKind} {name target : String} (hn : m.DefinesName name)
    (hl : m'.Links kind name target) : m.Links kind name target := by
  rcases h.define_ok_cases hok with hd | ⟨rfl, -⟩
  · refine ((h.links_define hok).mp hl).resolve_right ?_
    rintro ⟨rfl, -⟩
    rw [definesName_iff_known, hd] at hn
    cases hn
  · exact hl

/-- A package takes over the annotations of its information when that is defined, not later. -/
theorem Coherent.annotations_define (h : m.Coherent) (hok : m.define d = (.ok i, m'))
    {package type : String} :
    type ∈ m'.view.annotations package ↔ type ∈ m.view.annotations package ∨
      Name.isPackageInfo d.name ∧ Name.packageOf d.name = package ∧ ¬m.DefinesName d.name ∧
        m'.Links .annotated d.name type := by
  rcases h.define_ok_cases hok with hd | ⟨rfl, hmem⟩
  · have hview := (h.define_of_undefined hd).2
    have hknown := h.known_define hd d.name
    rw [hok] at hview hknown
    rw [definesName_iff_known, hd, links_iff_known, hknown, hview]
    simp only
    split_ifs with hp
    · obtain ⟨hi, rfl⟩ := hp
      simp [hi, ClassContent.filled, ClassDefinition.targets]
    · have hno : ¬(Name.isPackageInfo d.name ∧ Name.packageOf d.name = package) := by
        rintro ⟨hi, he⟩
        exact hp ⟨hi, he.symm⟩
      simp [← and_assoc, hno]
  · have hdef : m'.DefinesName d.name := ⟨_, hmem, rfl⟩
    simp [hdef]

theorem Coherent.known_internClass (h : m.Coherent) (name : String) :
    (m.internClass name).2.view.known = m.view.known := by
  funext other
  rw [h.view_internClass]
  by_cases ho : other = name
  · simp [View.known, View.mention, ho]
  · simp [View.known, View.mention, ho]

theorem Coherent.view_addPackages (h : m.Coherent) (packages : List PackageNode) :
    (m.addPackages packages).view =
      { m.view with
        packages := m.view.packages ∪ { name | ∃ p ∈ packages, p.name = name } } := by
  unfold Model.addPackages
  induction packages generalizing m with
  | nil => simp
  | cons p rest ih =>
    rw [List.foldl_cons, ih (h.internPackage p.name), h.view_internPackage]
    apply View.ext
    · rfl
    · ext name
      simp only [View.addPackage, Set.mem_union, Set.mem_insert_iff, Set.mem_ofPred_eq,
        List.mem_cons, exists_eq_or_imp, @eq_comm _ name]
      tauto
    · rfl

/-- What the model `m'` says by name, if it is `m` with classes of `other` added. -/
structure Gains (m other : Model) (classes : List ClassNode) (m' : Model) : Prop where
  coherent : m'.Coherent
  names : m'.summary.classes = m.summary.classes ∪ (other.classesSummary classes).classes
  packages : m'.summary.packages = m.summary.packages ∪ (other.classesSummary classes).packages
  defines : ∀ {name}, m'.DefinesName name ↔
    m.DefinesName name ∨ ∃ c ∈ classes, c.defined ∧ c.name = name
  links : ∀ {kind name target}, m'.Links kind name target ↔
    m.Links kind name target ∨ ∃ c ∈ classes, c.defined ∧ c.name = name ∧
      target ∈ (other.definitionOf c).proper.targets kind
  kept : ∀ {kind name target}, m.DefinesName name → m'.Links kind name target →
    m.Links kind name target
  annotations : ∀ {package type}, type ∈ m'.view.annotations package ↔
    type ∈ m.view.annotations package ∨ ∃ c ∈ classes, c.defined ∧ Name.isPackageInfo c.name ∧
      Name.packageOf c.name = package ∧ ¬m.DefinesName c.name ∧ m'.Links .annotated c.name type

theorem Coherent.gains_nil (h : m.Coherent) (other : Model) : m.Gains other [] m where
  coherent := h
  names := by simp [classesSummary]
  packages := by simp [classesSummary]
  defines := by simp
  links := by simp
  kept _ hl := hl
  annotations := by simp

theorem Coherent.gains_define (h : m.Coherent) {c : ClassNode} (hd : c.defined = true)
    (hok : m.define (other.definitionOf c) = (.ok i, m')) : m.Gains other [c] m' := by
  obtain ⟨hnames, hpackages⟩ := h.names_define hok
  have hsummary : other.classesSummary [c] = (other.definitionOf c).summary := by
    rw [classesSummary_singleton, classSummary, if_pos hd]
  refine ⟨h.of_define hok, ?_, ?_, ?_, ?_, h.links_of_definesName hok, ?_⟩
  · rw [hsummary]
    exact hnames
  · rw [hsummary]
    exact hpackages
  · intro name
    rw [h.definesName_define hok]
    simp [hd, definitionOf, @eq_comm _ name]
  · intro kind name target
    rw [h.links_define hok]
    simp [hd, definitionOf, @eq_comm _ name]
  · intro package type
    rw [h.annotations_define hok]
    simp [hd, definitionOf]

theorem Coherent.gains_internClass (h : m.Coherent) (other : Model) {c : ClassNode}
    (hd : c.defined = false) : m.Gains other [c] (m.internClass c.name).2 := by
  obtain ⟨hnames, hpackages⟩ := h.names_internClass c.name
  have hsummary : other.classesSummary [c] = ⟨∅, {c.name}, {Name.packageOf c.name}⟩ := by
    rw [classesSummary_singleton, classSummary, if_neg (by simp [hd])]
  have hknown := h.known_internClass c.name
  refine ⟨h.internClass c.name, ?_, ?_, ?_, ?_, ?_, ?_⟩
  · rw [hsummary]
    exact hnames
  · rw [hsummary]
    exact hpackages
  · simp [definesName_iff_known, hknown, hd]
  · simp [links_iff_known, hknown, hd]
  · simp [links_iff_known, hknown]
  · simp [h.view_internClass, View.mention, hd]

theorem Gains.append {m₁ : Model} {classes more : List ClassNode} (h : m.Gains other classes m₁)
    (h' : m₁.Gains other more m') : m.Gains other (classes ++ more) m' where
  coherent := h'.coherent
  names := by
    rw [h'.names, h.names, classesSummary_append, Summary.classes_union, Set.union_assoc]
  packages := by
    rw [h'.packages, h.packages, classesSummary_append, Summary.packages_union, Set.union_assoc]
  defines := by
    intro name
    rw [h'.defines, h.defines]
    simp only [List.mem_append, or_and_right, exists_or, or_assoc]
  links := by
    intro kind name target
    rw [h'.links, h.links]
    simp only [List.mem_append, or_and_right, exists_or, or_assoc]
  kept hn hl := h.kept hn (h'.kept (h.defines.mpr (.inl hn)) hl)
  annotations := by
    intro package type
    rw [h'.annotations, h.annotations]
    constructor
    · rintro ((hold | ⟨c, hc, hd, hi, hp, hn, hl⟩) | ⟨c, hc, hd, hi, hp, hn, hl⟩)
      · exact .inl hold
      · exact .inr ⟨c, List.mem_append_left more hc, hd, hi, hp, hn, h'.links.mpr (.inl hl)⟩
      · have hold : ¬m.DefinesName c.name := fun ho => hn (h.defines.mpr (.inl ho))
        exact .inr ⟨c, List.mem_append_right classes hc, hd, hi, hp, hold, hl⟩
    · rintro (hold | ⟨c, hc, hd, hi, hp, hn, hl⟩)
      · exact .inl (.inl hold)
      · by_cases hn₁ : m₁.DefinesName c.name
        · -- One of the first classes defines it, and its links do not change after that.
          obtain ⟨b, hb, hbd, hbn⟩ := (h.defines.mp hn₁).resolve_left hn
          refine .inl (.inr ⟨b, hb, hbd, ?_⟩)
          rw [hbn]
          exact ⟨hi, hp, hn, h'.kept hn₁ hl⟩
        · have hmore : c ∈ more := (List.mem_append.mp hc).resolve_left fun hcl =>
            hn₁ (h.defines.mpr (.inr ⟨c, hcl, hd, rfl⟩))
          exact .inr ⟨c, hmore, hd, hi, hp, hn₁, hl⟩

theorem Coherent.gains_mergeClasses (h : m.Coherent) {classes : List ClassNode}
    (he : m.mergeClasses other classes = (.ok (), m')) : m.Gains other classes m' := by
  induction classes generalizing m with
  | nil =>
    cases he
    exact h.gains_nil other
  | cons c rest ih =>
    unfold Model.mergeClasses at he
    split_ifs at he with hd
    · rcases hm : m.define (other.definitionOf c) with ⟨_ | i, m₁⟩
      · rw [hm] at he
        cases he
      · rw [hm] at he
        have hc := h.gains_define hd hm
        exact hc.append (ih hc.coherent he)
    · have hc := h.gains_internClass other (Bool.eq_false_of_not_eq_true hd)
      exact hc.append (ih hc.coherent he)

/-- The links that the definitions in a model name are those of its defined classes. -/
theorem Coherent.exists_targets_iff (h : m.Coherent) {kind : LinkKind} {name target : String} :
    (∃ c ∈ m.classes.items.toList, c.defined ∧ c.name = name ∧
        target ∈ (m.definitionOf c).proper.targets kind) ↔
      m.DefinesName name ∧ m.Links kind name target := by
  rw [Arena.exists_mem_items_iff, h.definesName_iff_exists]
  constructor
  · rintro ⟨j, c, hc, hd, rfl, ht⟩
    rw [h.proper_definitionOf hc hd] at ht
    exact ⟨⟨j, c, hc, hd, rfl⟩, _, h.classContent?_name hc, ht⟩
  · rintro ⟨⟨j, c, hc, hd, rfl⟩, hl⟩
    refine ⟨j, c, hc, hd, rfl, ?_⟩
    rw [h.proper_definitionOf hc hd]
    exact (links_of_content (h.classContent?_name hc)).mp hl

theorem Coherent.names_merge (h : m.Coherent) (ho : other.Coherent)
    (he : m.merge other = (.ok (), m')) :
    m'.summary.classes = m.summary.classes ∪ other.summary.classes ∧
      m'.summary.packages = m.summary.packages ∪ other.summary.packages := by
  rw [merge_eq] at he
  have hview := h.view_addPackages other.packages.items.toList
  have hgains := (h.addPackages other.packages.items.toList).1.gains_mergeClasses he
  have hcls : (m.addPackages other.packages.items.toList).classContent? = m.classContent? :=
    congrArg View.classes hview
  constructor
  · rw [hgains.names, ← ho.classesSummary_eq, Summary.classes_union, Set.empty_union]
    simp only [summary, hcls]
  · rw [hgains.packages, ← ho.classesSummary_eq, Summary.packages_union, ← Set.union_assoc]
    simp only [summary, hview]

/-- A merge that succeeds has all classes and all packages of both models, and nothing that is
recorded in the first one is lost. Of what is recorded in the second one, it takes over the links of
the classes that are defined there, and the annotations of packages whose information the first one
does not define. -/
theorem merge_union {a b r : Model} (ha : a.Reachable) (hb : b.Reachable)
    (hr : a.merge b = (.ok (), r)) :
    (∀ name, (r.classes.find? name).isSome ↔
      (a.classes.find? name).isSome ∨ (b.classes.find? name).isSome) ∧
    (∀ name, (r.packages.find? name).isSome ↔
      (a.packages.find? name).isSome ∨ (b.packages.find? name).isSome) ∧
    (∀ kind name target, r.Links kind name target ↔
      a.Links kind name target ∨ b.DefinesName name ∧ b.Links kind name target) ∧
    ∀ package type, type ∈ r.view.annotations package ↔
      type ∈ a.view.annotations package ∨
        ∃ info, Name.isPackageInfo info ∧ Name.packageOf info = package ∧ b.DefinesName info ∧
          ¬a.DefinesName info ∧ r.Links .annotated info type := by
  have ca := ha.coherent
  have cb := hb.coherent
  have cr := (ca.merge b).1
  rw [hr] at cr
  obtain ⟨hclasses, hpackages⟩ := ca.names_merge cb hr
  rw [merge_eq] at hr
  have hview := ca.view_addPackages b.packages.items.toList
  have hgains := (ca.addPackages b.packages.items.toList).1.gains_mergeClasses hr
  have hknown : (a.addPackages b.packages.items.toList).view.known = a.view.known := by
    rw [hview]
    rfl
  have hdefines : ∀ name, (a.addPackages b.packages.items.toList).DefinesName name ↔
      a.DefinesName name := by
    simp [definesName_iff_known, hknown]
  refine ⟨fun name => ?_, Set.ext_iff.mp hpackages, fun kind name target => ?_,
    fun package type => ?_⟩
  · rw [← cr.classContent?_isSome_iff, ← ca.classContent?_isSome_iff,
      ← cb.classContent?_isSome_iff]
    exact Set.ext_iff.mp hclasses name
  · rw [hgains.links, cb.exists_targets_iff, links_iff_known, hknown, ← links_iff_known]
  · rw [hgains.annotations, hview]
    simp only [Arena.exists_mem_items_iff, cb.definesName_iff_exists, hdefines]
    refine or_congr_right ⟨?_, ?_⟩
    · rintro ⟨i, c, hc, hd, hi, hp, hn, hl⟩
      exact ⟨c.name, hi, hp, ⟨i, c, hc, hd, rfl⟩, hn, hl⟩
    · rintro ⟨_, hi, hp, ⟨i, c, hc, hd, rfl⟩, hn, hl⟩
      exact ⟨i, c, hc, hd, hi, hp, hn, hl⟩

theorem merge_union_usedAhead :
    ∃ r, usedAhead.merge (empty.define (usesOnly ["c.C"])).2 = (.ok (), r) ∧
      r.Links .use "a.A" "b.B" ∧ r.Links .use "a.A" "c.C" ∧ ¬r.Links .use "b.B" "c.C" := by
  have hok : usedAhead.merge (empty.define (usesOnly ["c.C"])).2 =
      (.ok (), (usedAhead.merge (empty.define (usesOnly ["c.C"])).2).2) :=
    Prod.ext (by decide) rfl
  obtain ⟨-, -, hlinks, -⟩ := merge_union reachable_usedAhead (.define _ .empty) hok
  refine ⟨_, hok, ?_, ?_, ?_⟩
  · rw [hlinks]
    decide
  · rw [hlinks]
    decide
  · rw [hlinks]
    decide

/-- Of `a.A`, which is not defined, a use and an annotation are known. -/
def markedAhead : Model :=
  usedAhead.annotate 0 "c.C"

/-- The information of the package `a` with the annotations `types`. -/
def infoWith (types : List String) : ClassDefinition where
  name := "a.package-info"
  size := 1
  codeSize := 0
  outer := none
  annotations := .ofList types
  uses := ∅

/-- A merge can lose links of a class that is not defined, and the annotations of a package whose
information is annotated in the first model after its definition. -/
theorem merge_loses_links :
    (markedAhead.Reachable ∧ (empty.merge markedAhead).1 = .ok () ∧
      markedAhead.Links .use "a.A" "b.B" ∧ ¬(empty.merge markedAhead).2.Links .use "a.A" "b.B" ∧
      markedAhead.Links .annotated "a.A" "c.C" ∧
      ¬(empty.merge markedAhead).2.Links .annotated "a.A" "c.C") ∧
    let late := (empty.define (infoWith [])).2.annotate 0 "c.C"
    let early := (empty.define (infoWith ["c.C"])).2
    late.Reachable ∧ early.Reachable ∧ (late.merge early).1 = .ok () ∧
      "c.C" ∈ early.view.annotations "a" ∧ "c.C" ∉ (late.merge early).2.view.annotations "a" :=
  ⟨⟨.annotate "c.C" reachable_usedAhead (by decide), by decide, by decide,
      by decide, by decide, by decide⟩,
    .annotate "c.C" (.define _ .empty) (by decide), .define _ .empty, by decide,
    by decide, by decide⟩

end ClassDeps.Model
