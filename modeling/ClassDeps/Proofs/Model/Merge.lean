import ClassDeps.Proofs.Model.Settled

namespace ClassDeps.Model

variable {m : Model}

/-- What a class of the model `other` adds to a model that it is merged into. -/
def classSummary (other : Model) (c : ClassNode) : Summary :=
  if c.defined then (other.definitionOf c).summary else ⟨∅, {c.name}, {Name.packageOf c.name}⟩

def classesSummary (other : Model) (classes : List ClassNode) : Summary where
  definitions := { d | ∃ c ∈ classes, d ∈ (other.classSummary c).definitions }
  classes := { name | ∃ c ∈ classes, name ∈ (other.classSummary c).classes }
  packages := { name | ∃ c ∈ classes, name ∈ (other.classSummary c).packages }

theorem classesSummary_singleton (other : Model) (c : ClassNode) :
    other.classesSummary [c] = other.classSummary c := by
  simp [classesSummary]

theorem classesSummary_append (other : Model) (classes more : List ClassNode) :
    other.classesSummary (classes ++ more) =
      other.classesSummary classes ∪ other.classesSummary more := by
  apply Summary.ext
  · ext d
    simp [classesSummary, or_and_right, exists_or]
  · ext name
    simp [classesSummary, or_and_right, exists_or]
  · ext name
    simp [classesSummary, or_and_right, exists_or]

theorem union_classesSummary_cons (s : Summary) (other : Model) (c : ClassNode)
    (rest : List ClassNode) :
    s ∪ other.classSummary c ∪ other.classesSummary rest =
      s ∪ other.classesSummary (c :: rest) := by
  rw [← List.singleton_append, classesSummary_append, classesSummary_singleton,
    Summary.union_assoc]

theorem Settled.mergeClasses (h : m.Settled) (other : Model) {classes : List ClassNode}
    {m' : Model} (he : m.mergeClasses other classes = (.ok (), m')) :
    m'.Settled ∧ m'.summary = m.summary ∪ other.classesSummary classes := by
  induction classes generalizing m with
  | nil =>
    cases he
    refine ⟨h, ?_⟩
    simp only [classesSummary, List.not_mem_nil, false_and, exists_false]
    exact Summary.ext (Set.union_empty _).symm (Set.union_empty _).symm (Set.union_empty _).symm
  | cons c rest ih =>
    rw [← union_classesSummary_cons]
    unfold Model.mergeClasses at he
    unfold classSummary
    split_ifs at he ⊢ with hd
    · rcases hm : m.define (other.definitionOf c) with ⟨_ | i, m₁⟩
      · rw [hm] at he
        cases he
      · rw [hm] at he
        obtain ⟨h₁, hs⟩ := h.define hm
        rw [← hs]
        exact ih h₁ he
    · obtain ⟨h₁, hs⟩ := h.internClass c.name
      rw [← hs]
      exact ih h₁ he

/-- Classes of `other` can be added if `other` defines none of them in two ways, and the model none
in another way. -/
theorem Settled.mergeClasses_ok_iff (h : m.Settled) {other : Model} {classes : List ClassNode}
    (hother : ∀ c ∈ classes, c.defined → ∀ c' ∈ classes, c'.defined → c.name = c'.name →
      other.definitionOf c = other.definitionOf c')
    (hproper : ∀ c ∈ classes, c.defined →
      (other.definitionOf c).proper = other.definitionOf c) :
    (m.mergeClasses other classes).1 = .ok () ↔
      ∀ c ∈ classes, c.defined → ∀ e ∈ m.summary.definitions, e.name = c.name →
        e = other.definitionOf c := by
  induction classes generalizing m with
  | nil => simp [Model.mergeClasses]
  | cons c rest ih =>
    have hother' : ∀ b ∈ rest, b.defined → ∀ b' ∈ rest, b'.defined → b.name = b'.name →
        other.definitionOf b = other.definitionOf b' := fun b hb hd b' hb' =>
      hother b (List.mem_cons_of_mem c hb) hd b' (List.mem_cons_of_mem c hb')
    have hproper' : ∀ b ∈ rest, b.defined → (other.definitionOf b).proper =
        other.definitionOf b := fun b hb => hproper b (List.mem_cons_of_mem c hb)
    rw [List.forall_mem_cons]
    unfold Model.mergeClasses
    split_ifs with hd
    · have hok := h.define_ok_iff (other.definitionOf c)
      rcases hm : m.define (other.definitionOf c) with ⟨e | i, m₁⟩
      · rw [hm] at hok
        simp only [reduceCtorEq, exists_false, false_iff] at hok ⊢
        exact fun hall => hok (hall.1 hd)
      · rw [hm] at hok
        have hc : ∀ e ∈ m.summary.definitions, e.name = c.name → e = other.definitionOf c :=
          hok.mp ⟨i, rfl⟩
        obtain ⟨h₁, hs⟩ := h.define hm
        change (m₁.mergeClasses other rest).1 = .ok () ↔ _
        rw [ih h₁ hother' hproper', hs]
        simp only [Summary.definitions_union, ClassDefinition.summary, Set.mem_union,
          Set.mem_singleton_iff, hproper c List.mem_cons_self hd]
        constructor
        · intro hall
          exact ⟨fun _ => hc, fun b hb hbd e he => hall b hb hbd e (.inl he)⟩
        · rintro ⟨-, hall⟩ b hb hbd e (he | rfl) hn
          · exact hall b hb hbd e he hn
          · exact hother c List.mem_cons_self hd b (List.mem_cons_of_mem c hb) hbd hn
    · obtain ⟨h₁, hs⟩ := h.internClass c.name
      rw [ih h₁ hother' hproper', hs]
      simp [hd]

theorem Settled.addPackages (h : m.Settled) (packages : List PackageNode) :
    (m.addPackages packages).Settled ∧ (m.addPackages packages).summary =
      m.summary ∪ ⟨∅, ∅, { name | ∃ p ∈ packages, p.name = name }⟩ := by
  unfold Model.addPackages
  induction packages generalizing m with
  | nil =>
    refine ⟨h, Summary.ext (Set.union_empty _).symm (Set.union_empty _).symm ?_⟩
    simp
  | cons p rest ih =>
    obtain ⟨h₁, hs⟩ := h.internPackage p.name
    obtain ⟨h₂, hs'⟩ := ih h₁
    refine ⟨h₂, ?_⟩
    rw [List.foldl_cons, hs', hs]
    apply Summary.ext
    · simp
    · simp
    · ext name
      simp only [Summary.packages_union, Set.mem_union, Set.mem_singleton_iff, Set.mem_ofPred_eq,
        List.mem_cons, exists_eq_or_imp, or_assoc, @eq_comm _ name]

theorem Coherent.mem_definitions_iff (h : m.Coherent) {d : ClassDefinition} :
    d ∈ m.summary.definitions ↔
      ∃ i c, m.classes.get? i = some c ∧ c.defined = true ∧ m.definitionOf c = d := by
  change m.classContent? d.name = some d.content ↔ _
  rw [h.classContent?_eq_some_iff]
  constructor
  · rintro ⟨i, c, hc, -, he⟩
    exact ⟨i, c, hc, congrArg ClassContent.defined he,
      congrArg ClassContent.toClassDefinition he⟩
  · rintro ⟨i, c, hc, hd, rfl⟩
    refine ⟨i, c, hc, rfl, ?_⟩
    rw [contentOf, hd]
    rfl

theorem Coherent.proper_definitionOf (h : m.Coherent) {i : ClassId} {c : ClassNode}
    (hc : m.classes.get? i = some c) (hd : c.defined = true) :
    (m.definitionOf c).proper = m.definitionOf c :=
  h.proper_of_mem (h.mem_definitions_iff.mpr ⟨i, c, hc, hd, rfl⟩)

theorem Coherent.mem_classes_iff (h : m.Coherent) {name : String} :
    name ∈ m.summary.classes ↔ ∃ i c, m.classes.get? i = some c ∧ c.name = name := by
  change (m.classContent? name).isSome ↔ _
  rw [h.classContent?_isSome_iff, Option.isSome_iff_exists]
  exact exists_congr fun i => h.classes name i

theorem Coherent.mem_packages_iff (h : m.Coherent) {name : String} :
    name ∈ m.summary.packages ↔ ∃ j p, m.packages.get? j = some p ∧ p.name = name := by
  change (m.packages.find? name).isSome ↔ _
  rw [Option.isSome_iff_exists]
  exact exists_congr fun j => h.packages name j

theorem Coherent.classSummary_classes (h : m.Coherent) {i : ClassId} {c : ClassNode}
    (hc : m.classes.get? i = some c) :
    c.name ∈ (m.classSummary c).classes ∧ (m.classSummary c).classes ⊆ m.summary.classes := by
  have hmem : c.name ∈ m.summary.classes := h.mem_classes_iff.mpr ⟨i, c, hc, rfl⟩
  unfold classSummary
  split_ifs with hd
  · exact ⟨.inl rfl, h.mentions_subset (h.mem_definitions_iff.mpr ⟨i, c, hc, hd, rfl⟩)⟩
  · exact ⟨rfl, Set.singleton_subset_iff.mpr hmem⟩

theorem classSummary_packages (m : Model) (c : ClassNode) :
    (m.classSummary c).packages = Name.packageOf '' (m.classSummary c).classes := by
  unfold classSummary
  split_ifs
  · rfl
  · exact (Set.image_singleton ..).symm

/-- All of its packages and classes make up a model. -/
theorem Coherent.classesSummary_eq (h : m.Coherent) :
    (⟨∅, ∅, { name | ∃ p ∈ m.packages.items.toList, p.name = name }⟩ : Summary) ∪
      m.classesSummary m.classes.items.toList = m.summary := by
  apply Summary.ext
  · ext d
    simp only [Summary.definitions_union, Set.empty_union, classesSummary, Set.mem_ofPred_eq,
      Arena.exists_mem_items_iff, h.mem_definitions_iff]
    refine exists_congr fun i => exists_congr fun c => and_congr_right fun hc => ?_
    unfold classSummary
    split_ifs with hd
    · simp [ClassDefinition.summary, h.proper_definitionOf hc hd, hd, eq_comm]
    · simp [hd]
  · ext name
    simp only [Summary.classes_union, Set.empty_union, classesSummary, Set.mem_ofPred_eq,
      Arena.exists_mem_items_iff]
    constructor
    · rintro ⟨i, c, hc, hn⟩
      exact (h.classSummary_classes hc).2 hn
    · intro hn
      obtain ⟨i, c, hc, rfl⟩ := h.mem_classes_iff.mp hn
      exact ⟨i, c, hc, (h.classSummary_classes hc).1⟩
  · ext name
    simp only [Summary.packages_union, classesSummary, Set.mem_union, Set.mem_ofPred_eq,
      Arena.exists_mem_items_iff, ← h.mem_packages_iff, classSummary_packages]
    refine or_iff_left_of_imp ?_
    rintro ⟨i, c, hc, other, ho, rfl⟩
    exact h.package_mem_summary ((h.classSummary_classes hc).2 ho)

theorem Settled.merge (h : m.Settled) {other m' : Model} (ho : other.Coherent)
    (he : m.merge other = (.ok (), m')) :
    m'.Settled ∧ m'.summary = m.summary ∪ other.summary := by
  rw [merge_eq] at he
  obtain ⟨h₁, hs⟩ := h.addPackages other.packages.items.toList
  obtain ⟨h₂, hs'⟩ := h₁.mergeClasses other he
  refine ⟨h₂, ?_⟩
  rw [hs', hs, Summary.union_assoc, ho.classesSummary_eq]

/-- A class has one definition in a model. -/
theorem Coherent.definitionOf_eq_of_name (h : m.Coherent) {c c' : ClassNode}
    (hc : c ∈ m.classes.items.toList) (hc' : c' ∈ m.classes.items.toList)
    (hn : c.name = c'.name) : m.definitionOf c = m.definitionOf c' := by
  obtain ⟨i, hi⟩ := Arena.mem_items_iff.mp hc
  obtain ⟨j, hj⟩ := Arena.mem_items_iff.mp hc'
  have hij := h.classes.eq_of_nameOf_eq hi hj hn
  rw [hij, hj, Option.some_inj] at hi
  rw [hi]

theorem Settled.merge_ok_iff (h : m.Settled) {other : Model} (ho : other.Coherent) :
    (∃ m', m.merge other = (.ok (), m')) ↔ m.summary.Compatible other.summary := by
  have hex : (∃ m', m.merge other = (.ok (), m')) ↔ (m.merge other).1 = .ok () := by
    constructor
    · rintro ⟨m', he⟩
      rw [he]
    · intro he
      exact ⟨(m.merge other).2, Prod.ext he rfl⟩
  obtain ⟨h₁, hs⟩ := h.addPackages other.packages.items.toList
  have hget : ∀ c ∈ other.classes.items.toList, ∃ i, other.classes.get? i = some c :=
    fun c hc => Arena.mem_items_iff.mp hc
  rw [hex, merge_eq, h₁.mergeClasses_ok_iff, hs]
  · simp only [Summary.definitions_union, Set.union_empty, Summary.Compatible]
    constructor
    · intro hall d hd e he hn
      obtain ⟨i, c, hc, hcd, rfl⟩ := ho.mem_definitions_iff.mp he
      exact hall c (Arena.mem_items_iff.mpr ⟨i, hc⟩) hcd d hd hn
    · intro hall c hc hcd d hd hn
      obtain ⟨i, hi⟩ := hget c hc
      exact hall d hd _ (ho.mem_definitions_iff.mpr ⟨i, c, hi, hcd, rfl⟩) hn
  · intro c hc _ c' hc' _ hn
    exact ho.definitionOf_eq_of_name hc hc' hn
  · intro c hc hcd
    obtain ⟨i, hi⟩ := hget c hc
    exact ho.proper_definitionOf hi hcd

/-- The conflict that ends the addition of classes is about one that the model defines in another
way. -/
theorem Settled.mergeClasses_conflict (h : m.Settled) {other : Model} {classes : List ClassNode}
    (hother : ∀ c ∈ classes, c.defined → ∀ c' ∈ classes, c'.defined → c.name = c'.name →
      other.definitionOf c = other.definitionOf c')
    (hproper : ∀ c ∈ classes, c.defined →
      (other.definitionOf c).proper = other.definitionOf c) {conflict : Conflict} {m' : Model}
    (he : m.mergeClasses other classes = (.error conflict, m')) :
    ∃ c ∈ classes, c.defined ∧ c.name = conflict.name ∧
      ∃ e ∈ m.summary.definitions, e.name = c.name ∧ e ≠ other.definitionOf c := by
  induction classes generalizing m with
  | nil => cases he
  | cons c rest ih =>
    have hother' : ∀ b ∈ rest, b.defined → ∀ b' ∈ rest, b'.defined → b.name = b'.name →
        other.definitionOf b = other.definitionOf b' := fun b hb hd b' hb' =>
      hother b (List.mem_cons_of_mem c hb) hd b' (List.mem_cons_of_mem c hb')
    have hproper' : ∀ b ∈ rest, b.defined → (other.definitionOf b).proper =
        other.definitionOf b := fun b hb => hproper b (List.mem_cons_of_mem c hb)
    unfold Model.mergeClasses at he
    split_ifs at he with hd
    · have hok := h.define_ok_iff (other.definitionOf c)
      rcases hm : m.define (other.definitionOf c) with ⟨e | i, m₁⟩
      · rw [hm] at he hok
        cases he
        simp only [reduceCtorEq, exists_false, false_iff, not_forall] at hok
        obtain ⟨e, he, hn, hne⟩ := hok
        have hname := congrArg Conflict.name (define_eq_error_iff.mp hm).2.2
        exact ⟨c, List.mem_cons_self, hd, hname.symm, e, he, hn, hne⟩
      · rw [hm] at he
        obtain ⟨h₁, hs⟩ := h.define hm
        obtain ⟨b, hb, hbd, hbn, e, hmem, hn, hne⟩ := ih h₁ hother' hproper' he
        rw [hs, ClassDefinition.summary, hproper c List.mem_cons_self hd] at hmem
        refine ⟨b, List.mem_cons_of_mem c hb, hbd, hbn, e, hmem.resolve_right ?_, hn, hne⟩
        -- Two classes of `other` are never in conflict with each other.
        rintro rfl
        exact hne (hother c List.mem_cons_self hd b (List.mem_cons_of_mem c hb) hbd hn)
    · obtain ⟨h₁, hs⟩ := h.internClass c.name
      obtain ⟨b, hb, hbd, hbn, e, hmem, hn, hne⟩ := ih h₁ hother' hproper' he
      rw [hs, Summary.definitions_union, Set.union_empty] at hmem
      exact ⟨b, List.mem_cons_of_mem c hb, hbd, hbn, e, hmem, hn, hne⟩

/-- A merge fails by a class that both models define. -/
theorem Settled.merge_conflict (h : m.Settled) {other m' : Model} (ho : other.Coherent)
    {c : Conflict} (he : m.merge other = (.error c, m')) :
    ∃ d ∈ m.summary.definitions, ∃ e ∈ other.summary.definitions,
      d.name = c.name ∧ e.name = c.name ∧ d ≠ e := by
  obtain ⟨h₁, hs⟩ := h.addPackages other.packages.items.toList
  rw [merge_eq] at he
  have hproper : ∀ c ∈ other.classes.items.toList, c.defined →
      (other.definitionOf c).proper = other.definitionOf c := by
    intro c hc hcd
    obtain ⟨i, hi⟩ := Arena.mem_items_iff.mp hc
    exact ho.proper_definitionOf hi hcd
  obtain ⟨b, hb, hbd, hbn, d, hmem, hn, hne⟩ := h₁.mergeClasses_conflict
    (fun _ hc _ _ hc' _ => ho.definitionOf_eq_of_name hc hc') hproper he
  rw [hs, Summary.definitions_union, Set.union_empty] at hmem
  obtain ⟨i, hi⟩ := Arena.mem_items_iff.mp hb
  exact ⟨d, hmem, _, ho.mem_definitions_iff.mpr ⟨i, b, hi, hbd, rfl⟩, hn.trans hbn, hbn, hne⟩

theorem internPackage_of_mem {name : String} (h : (m.packages.find? name).isSome) :
    (m.internPackage name).2 = m := by
  rcases internPackage_cases m name with ⟨j, -, he⟩ | ⟨hn, -⟩
  · rw [he]
  · rw [hn] at h
    cases h

theorem internClass_of_mem {name : String} (h : (m.classes.find? name).isSome) :
    (m.internClass name).2 = m := by
  rcases internClass_cases m name with ⟨i, -, he⟩ | ⟨hn, -⟩
  · rw [he]
  · rw [hn] at h
    cases h

theorem addPackages_of_mem {packages : List PackageNode}
    (h : ∀ p ∈ packages, (m.packages.find? p.name).isSome) : m.addPackages packages = m := by
  unfold addPackages
  induction packages with
  | nil => rfl
  | cons p rest ih =>
    rw [List.foldl_cons, internPackage_of_mem (h p List.mem_cons_self)]
    exact ih fun q hq => h q (List.mem_cons_of_mem p hq)

theorem Coherent.define_definitionOf (h : m.Coherent) {i : ClassId} {c : ClassNode}
    (hc : m.classes.get? i = some c) (hd : c.defined = true) :
    ∃ j, m.define (m.definitionOf c) = (.ok j, m) := by
  have hx : m.classContent? (m.definitionOf c).name = some (m.contentOf c) :=
    h.classContent?_name hc
  obtain ⟨hm, ⟨⟨j, hj⟩, -⟩ | ⟨-, hne⟩⟩ := h.define_of_defined hx hd
  · exact ⟨j, Prod.ext hj hm⟩
  · refine absurd ?_ hne
    rw [contentOf, hd]
    rfl

theorem Coherent.mergeClasses_self (h : m.Coherent) {classes : List ClassNode}
    (hc : ∀ c ∈ classes, ∃ i, m.classes.get? i = some c) :
    m.mergeClasses m classes = (.ok (), m) := by
  induction classes with
  | nil => rfl
  | cons c rest ih =>
    obtain ⟨i, hi⟩ := hc c List.mem_cons_self
    have hrest := ih fun b hb => hc b (List.mem_cons_of_mem c hb)
    unfold Model.mergeClasses
    split_ifs with hd
    · obtain ⟨j, hj⟩ := h.define_definitionOf hi hd
      rw [hj]
      exact hrest
    · rw [internClass_of_mem]
      · exact hrest
      · rw [h.classes.find?_eq hi]
        rfl

theorem Coherent.merge_self (h : m.Coherent) : m.merge m = (.ok (), m) := by
  rw [merge_eq, addPackages_of_mem, h.mergeClasses_self]
  · intro c hc
    exact Arena.mem_items_iff.mp hc
  · intro p hp
    obtain ⟨j, hj⟩ := Arena.mem_items_iff.mp hp
    rw [h.packages.find?_eq hj]
    rfl

theorem Settled.define_snd (h : m.Settled) (d : ClassDefinition) : (m.define d).2.Settled := by
  rcases he : m.define d with ⟨e | i, m'⟩
  · rw [(define_eq_error_iff.mp he).1]
    exact h
  · exact (h.define he).1

/-- A merge stops at the first conflict and keeps what it added before. -/
theorem Settled.mergeClasses_snd (h : m.Settled) (other : Model) (classes : List ClassNode) :
    (m.mergeClasses other classes).2.Settled := by
  induction classes generalizing m with
  | nil => exact h
  | cons c rest ih =>
    unfold Model.mergeClasses
    split_ifs
    · have hdefine := h.define_snd (other.definitionOf c)
      rcases he : m.define (other.definitionOf c) with ⟨e | i, m'⟩
      · rw [he] at hdefine
        exact hdefine
      · rw [he] at hdefine
        exact ih hdefine
    · exact ih (h.internClass c.name).1

theorem Settled.merge_snd (h : m.Settled) (other : Model) : (m.merge other).2.Settled := by
  rw [merge_eq]
  exact (h.addPackages other.packages.items.toList).1.mergeClasses_snd other _

/-- The models that operations make from the empty one, except that nothing is used or annotated
directly. An operation that fails keeps what it did before. -/
inductive Assembled : Model → Prop
  | empty : Assembled empty
  | internPackage {m : Model} (name : String) : Assembled m → Assembled (m.internPackage name).2
  | internClass {m : Model} (name : String) : Assembled m → Assembled (m.internClass name).2
  | define {m : Model} (d : ClassDefinition) : Assembled m → Assembled (m.define d).2
  | importClass {m : Model} (data : List UInt8) (location : String) :
    Assembled m → Assembled (m.importClass data location).2
  | merge {m other : Model} : Assembled m → Assembled other → Assembled (m.merge other).2

theorem Assembled.settled (h : Assembled m) : m.Settled := by
  induction h with
  | empty => exact settled_empty
  | internPackage name _ ih => exact (ih.internPackage name).1
  | internClass name _ ih => exact (ih.internClass name).1
  | define d _ ih => exact ih.define_snd d
  | @importClass m data location _ ih =>
    rcases importClass_snd m data location with he | ⟨d, -, he⟩
    · rw [he]
      exact ih
    · rw [he]
      exact ih.define_snd d
  | merge _ _ ih _ => exact ih.merge_snd _

theorem importClass_eq_ok_iff {data : List UInt8} {location : String} {i : ClassId} {m' : Model} :
    m.importClass data location = (.ok i, m') ↔
      ∃ d, ClassDefinition.ofBytes data = .ok d ∧ m.define d = (.ok i, m') := by
  unfold importClass
  cases hd : ClassDefinition.ofBytes data with
  | error e => simp
  | ok d =>
    rcases he : m.define d with ⟨_ | j, m₁⟩
    · simp [he]
    · simp [he]

theorem compatible_iff {a b : Model} (ha : a.Coherent) (hb : b.Coherent) :
    a.summary.Compatible b.summary ↔
      ∀ name x y, a.classContent? name = some x → b.classContent? name = some y →
        x.defined = true → y.defined = true → x = y := by
  constructor
  · intro h name x y hx hy hxd hyd
    have he := h _ (mem_definitions_of_defined ha hx hxd) _ (mem_definitions_of_defined hb hy hyd)
      ((ha.content_name hx).trans (hb.content_name hy).symm)
    rcases x with ⟨dx, _⟩
    rcases y with ⟨dy, _⟩
    simp_all
  · intro h d hd e he hn
    change b.classContent? e.name = some e.content at he
    rw [← hn] at he
    exact ClassDefinition.content_injective (h d.name _ _ hd he rfl rfl)

/-- Merging two models in, one after the other, succeeds if no two of the three conflict. -/
theorem Settled.merge_merge_ok_iff {a b c : Model} (ha : a.Settled) (hb : b.Coherent)
    (hc : c.Coherent) :
    (∃ ab r, a.merge b = (.ok (), ab) ∧ ab.merge c = (.ok (), r)) ↔
      a.summary.Compatible b.summary ∧ a.summary.Compatible c.summary ∧
        b.summary.Compatible c.summary := by
  constructor
  · rintro ⟨ab, r, hab, hr⟩
    obtain ⟨sab, eab⟩ := ha.merge hb hab
    have hcompat := (sab.merge_ok_iff hc).mp ⟨r, hr⟩
    rw [eab, Summary.compatible_union_left] at hcompat
    exact ⟨(ha.merge_ok_iff hb).mp ⟨ab, hab⟩, hcompat⟩
  · rintro ⟨hab, hcompat⟩
    obtain ⟨ab, hm⟩ := (ha.merge_ok_iff hb).mpr hab
    obtain ⟨sab, eab⟩ := ha.merge hb hm
    rw [← Summary.compatible_union_left, ← eab] at hcompat
    obtain ⟨r, hr⟩ := (sab.merge_ok_iff hc).mpr hcompat
    exact ⟨ab, r, hm, hr⟩

/-- The same for merging in what the second and the third give. -/
theorem Settled.merge_of_merge_ok_iff {a b c : Model} (ha : a.Settled) (hb : b.Settled)
    (hc : c.Coherent) :
    (∃ bc r, b.merge c = (.ok (), bc) ∧ a.merge bc = (.ok (), r)) ↔
      a.summary.Compatible b.summary ∧ a.summary.Compatible c.summary ∧
        b.summary.Compatible c.summary := by
  constructor
  · rintro ⟨bc, r, hbc, hr⟩
    obtain ⟨sbc, ebc⟩ := hb.merge hc hbc
    have hcompat := (ha.merge_ok_iff sbc.coherent).mp ⟨r, hr⟩
    rw [ebc, Summary.compatible_union_right] at hcompat
    exact ⟨hcompat.1, hcompat.2, (hb.merge_ok_iff hc).mp ⟨bc, hbc⟩⟩
  · rintro ⟨hab, hac, hbc⟩
    obtain ⟨bc, hm⟩ := (hb.merge_ok_iff hc).mpr hbc
    obtain ⟨sbc, ebc⟩ := hb.merge hc hm
    have hcompat := Summary.compatible_union_right.mpr ⟨hab, hac⟩
    rw [← ebc] at hcompat
    obtain ⟨r, hr⟩ := (ha.merge_ok_iff sbc.coherent).mpr hcompat
    exact ⟨bc, r, hm, hr⟩

/-- Merging is commutative, associative and idempotent up to numbers, and fails exactly if a class
is defined in both models with different content. -/
theorem merge_comm_assoc_idem {a b c : Model} (ha : Assembled a) (hb : Assembled b)
    (hc : Assembled c) :
    ((∃ r, a.merge b = (.ok (), r)) ↔
      ∀ name x y, a.classContent? name = some x → b.classContent? name = some y →
        x.defined = true → y.defined = true → x = y) ∧
    ((∃ r, a.merge b = (.ok (), r)) ↔ ∃ r, b.merge a = (.ok (), r)) ∧
    (∀ r r', a.merge b = (.ok (), r) → b.merge a = (.ok (), r') → r.SameContent r') ∧
    ((∃ ab r, a.merge b = (.ok (), ab) ∧ ab.merge c = (.ok (), r)) ↔
      ∃ bc r, b.merge c = (.ok (), bc) ∧ a.merge bc = (.ok (), r)) ∧
    (∀ ab bc r r', a.merge b = (.ok (), ab) → ab.merge c = (.ok (), r) →
      b.merge c = (.ok (), bc) → a.merge bc = (.ok (), r') → r.SameContent r') ∧
    a.merge a = (.ok (), a) := by
  have sa := ha.settled
  have sb := hb.settled
  have sc := hc.settled
  refine ⟨?_, ?_, ?_, ?_, ?_, sa.coherent.merge_self⟩
  · rw [sa.merge_ok_iff sb.coherent, compatible_iff sa.coherent sb.coherent]
  · rw [sa.merge_ok_iff sb.coherent, sb.merge_ok_iff sa.coherent]
    exact ⟨.symm, .symm⟩
  · intro r r' hr hr'
    obtain ⟨sr, er⟩ := sa.merge sb.coherent hr
    obtain ⟨sr', er'⟩ := sb.merge sa.coherent hr'
    apply sr.sameContent sr'
    rw [er, er', Summary.union_comm]
  · rw [sa.merge_merge_ok_iff sb.coherent sc.coherent, sa.merge_of_merge_ok_iff sb sc.coherent]
  · intro ab bc r r' hab hr hbc hr'
    obtain ⟨sab, eab⟩ := sa.merge sb.coherent hab
    obtain ⟨sbc, ebc⟩ := sb.merge sc.coherent hbc
    obtain ⟨sr, er⟩ := sab.merge sc.coherent hr
    obtain ⟨sr', er'⟩ := sa.merge sbc.coherent hr'
    apply sr.sameContent sr'
    rw [er, er', eab, ebc, Summary.union_assoc]

/-- The class file of a class with a superclass, both with names of one letter. -/
def tinyClass (name super : UInt8) : List UInt8 :=
  [0xCA, 0xFE, 0xBA, 0xBE, 0, 0, 0, 52, 0, 5, 1, 0, 1, name, 7, 0, 1, 1, 0, 1, super, 7, 0, 3,
    0, 0x21, 0, 2, 0, 4, 0, 0, 0, 0, 0, 0, 0, 0]

def tinyModel (name super : UInt8) : Model :=
  (empty.importClass (tinyClass name super) "").2

theorem merge_comm_assoc_idem_tiny :
    ∃ r r', (tinyModel 65 66).merge (tinyModel 66 65) = (.ok (), r) ∧
      (tinyModel 66 65).merge (tinyModel 65 66) = (.ok (), r') ∧ r.SameContent r' := by
  have ha : Assembled (tinyModel 65 66) := .importClass _ _ .empty
  have hb : Assembled (tinyModel 66 65) := .importClass _ _ .empty
  have hc : Assembled (tinyModel 67 65) := .importClass _ _ .empty
  have hab : ((tinyModel 65 66).merge (tinyModel 66 65)).1 = .ok () := by decide +kernel
  obtain ⟨-, hiff, hsame, -⟩ := merge_comm_assoc_idem ha hb hc
  obtain ⟨r', hr'⟩ := hiff.mp ⟨_, Prod.ext hab rfl⟩
  exact ⟨_, r', Prod.ext hab rfl, hr', hsame _ r' (Prod.ext hab rfl) hr'⟩

end ClassDeps.Model
