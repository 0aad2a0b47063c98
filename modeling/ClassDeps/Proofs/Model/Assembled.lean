import ClassDeps.Proofs.Model.Merge

namespace ClassDeps.Model

variable {m : Model}

theorem Coherent.mem_iff_name_mem (h : m.Coherent) {a : ClassId} {t : ClassNode}
    (ht : m.classes.get? a = some t) {ids : Std.ExtTreeSet ClassId} :
    a ∈ ids ↔ t.name ∈ m.names ids := by
  have hfind : m.classes.find? t.name = some a := h.classes.find?_eq ht
  rw [h.mem_names]
  constructor
  · intro ha
    exact ⟨a, ha, hfind⟩
  · rintro ⟨i, hi, hf⟩
    rw [hfind, Option.some_inj] at hf
    rw [hf]
    exact hi

theorem Coherent.eq_empty_of_names (h : m.Coherent) {ids : Std.ExtTreeSet ClassId}
    (hids : ∀ i ∈ ids, i < m.classes.size) (hnames : m.names ids = ∅) : ids = ∅ := by
  apply Std.ExtTreeSet.ext_mem
  intro i
  refine iff_of_false ?_ Std.ExtTreeSet.not_mem_empty
  intro hi
  obtain ⟨t, ht⟩ := Arena.exists_get?_of_lt_size (hids i hi)
  have hname : t.name ∈ m.names ids := (h.mem_iff_name_mem ht).mp hi
  rw [hnames] at hname
  exact Std.ExtTreeSet.not_mem_empty hname

theorem Settled.eq_mentioned (h : m.Settled) {i : ClassId} {c : ClassNode}
    (hc : m.classes.get? i = some c) (hd : c.defined = false) :
    c = .mentioned c.name c.package := by
  have hcontent : m.contentOf c = .mentioned c.name :=
    h.undefined (h.coherent.classContent?_name hc) hd
  have hsize : c.size = 0 := congrArg (·.size) hcontent
  have hcode : c.codeSize = 0 := congrArg (·.codeSize) hcontent
  have houter : c.outer = none := congrArg (·.outer) hcontent
  have huses : c.uses = ∅ := by
    refine h.coherent.eq_empty_of_names (fun _ hj => (h.coherent.uses hc hj).1) ?_
    exact congrArg (·.uses) hcontent
  have hannotations : c.annotations = ∅ := by
    refine h.coherent.eq_empty_of_names (fun _ hj => h.coherent.annotations hc hj) ?_
    exact congrArg (·.annotations) hcontent
  obtain ⟨name, package, size, codeSize, defined, outer, annotations, uses⟩ := c
  simp only at hd hsize hcode houter huses hannotations
  rw [ClassNode.mentioned, hd, hsize, hcode, houter, huses, hannotations]

/-- The annotations of a package are those of the `package-info` classes in it. -/
theorem Settled.mem_packageAnnotations_iff (h : m.Settled) {j : PackageId} {p : PackageNode}
    (hp : m.packages.get? j = some p) {a : ClassId} :
    a ∈ p.annotations ↔ ∃ i c, m.classes.get? i = some c ∧ c.defined = true ∧
      c.isPackageInfo = true ∧ c.package = j ∧ a ∈ c.annotations := by
  have hm := h.coherent
  have hfind : m.packages.find? p.name = some j := hm.packages.find?_eq hp
  -- Both sides hold numbers of classes only, so that they can be compared by name.
  have hname : ∀ {t : ClassNode}, t.name ∈ m.names p.annotations ↔
      ∃ i c, m.classes.get? i = some c ∧ c.defined = true ∧ c.isPackageInfo = true ∧
        c.package = j ∧ t.name ∈ m.names c.annotations := by
    intro t
    have hview : t.name ∈ m.names p.annotations ↔ t.name ∈ m.view.annotations p.name := by
      rw [hm.mem_view_annotations]
      constructor
      · intro ht
        exact ⟨j, p, hp, rfl, ht⟩
      · rintro ⟨k, q, hq, hn, ht⟩
        have hk : k = j := hm.packages.eq_of_nameOf_eq hq hp hn
        rw [hk, hp, Option.some_inj] at hq
        rw [hq]
        exact ht
    rw [hview, h.annotations]
    constructor
    · rintro ⟨d, hd, hinfo, hpackage, ht⟩
      obtain ⟨i, c, hc, hdefined, rfl⟩ := hm.mem_definitions_iff.mp hd
      exact ⟨i, c, hc, hdefined, hinfo, (hm.package_eq_iff hc hfind).mpr hpackage, ht⟩
    · rintro ⟨i, c, hc, hdefined, hinfo, hpackage, ht⟩
      exact ⟨m.definitionOf c, hm.mem_definitions_iff.mpr ⟨i, c, hc, hdefined, rfl⟩, hinfo,
        (hm.package_eq_iff hc hfind).mp hpackage, ht⟩
  constructor
  · intro ha
    obtain ⟨t, ht⟩ := Arena.exists_get?_of_lt_size (hm.packageAnnotations hp ha)
    obtain ⟨i, c, hc, hdefined, hinfo, hpackage, htc⟩ :=
      hname.mp ((hm.mem_iff_name_mem ht).mp ha)
    exact ⟨i, c, hc, hdefined, hinfo, hpackage, (hm.mem_iff_name_mem ht).mpr htc⟩
  · rintro ⟨i, c, hc, hdefined, hinfo, hpackage, ha⟩
    obtain ⟨t, ht⟩ := Arena.exists_get?_of_lt_size (hm.annotations hc ha)
    have htc := (hm.mem_iff_name_mem ht).mp ha
    exact (hm.mem_iff_name_mem ht).mpr (hname.mpr ⟨i, c, hc, hdefined, hinfo, hpackage, htc⟩)

/-- Whatever was defined, imported and merged, and whether or not it succeeded: a class that is not
defined has no sizes, no outer class, no uses and no annotations, and the annotations of a package
are exactly those of the defined `package-info` classes that lie in it. -/
theorem assembled_undefined_and_packages (h : Assembled m) :
    (∀ i c, m.classes.get? i = some c → c.defined = false →
      c.size = 0 ∧ c.codeSize = 0 ∧ c.outer = none ∧ c.uses = ∅ ∧ c.annotations = ∅) ∧
    ∀ j p, m.packages.get? j = some p → ∀ a, a ∈ p.annotations ↔
      ∃ i c, m.classes.get? i = some c ∧ c.defined = true ∧ c.isPackageInfo = true ∧
        c.package = j ∧ a ∈ c.annotations := by
  constructor
  · intro i c hc hd
    rw [h.settled.eq_mentioned hc hd]
    exact ⟨rfl, rfl, rfl, rfl, rfl⟩
  · intro j p hp a
    exact h.settled.mem_packageAnnotations_iff hp

/-- A class that uses the information of a package, and a model that has this information and then
another definition of the class. -/
def guestModel : Model :=
  (empty.define ⟨"a.A", 1, 0, none, ∅, .ofList ["b.package-info"]⟩).2

def hostModel : Model :=
  let info := (empty.define ⟨"b.package-info", 1, 0, none, .ofList ["c.Nullable"], ∅⟩).2
  (info.define ⟨"a.A", 2, 0, none, ∅, ∅⟩).2

/-- The merge fails, after the information that was only mentioned has been defined. -/
theorem assembled_undefined_and_packages_guest :
    (guestModel.merge hostModel).1 = .error ⟨"a.A"⟩ ∧
    ((guestModel.merge hostModel).2.packages.get? 1).map (fun p => (p.name, p.annotations.toList)) =
      some ("b", [2]) ∧
    ((guestModel.merge hostModel).2.classes.get? 2).map (fun c => (c.name, c.defined)) =
      some ("c.Nullable", false) ∧
    (∀ c, (guestModel.merge hostModel).2.classes.get? 2 = some c → c.defined = false →
      c.uses = ∅) ∧
    ∀ p, (guestModel.merge hostModel).2.packages.get? 1 = some p → 2 ∈ p.annotations →
      ∃ i c, (guestModel.merge hostModel).2.classes.get? i = some c ∧ c.defined = true ∧
        c.isPackageInfo = true ∧ c.package = 1 ∧ 2 ∈ c.annotations := by
  have hguest : Assembled guestModel := .define _ .empty
  have hhost : Assembled hostModel := .define _ (.define _ .empty)
  obtain ⟨hundefined, hpackages⟩ := assembled_undefined_and_packages (.merge hguest hhost)
  refine ⟨by decide, by decide, by decide, ?_, ?_⟩
  · intro c hc hd
    exact (hundefined 2 c hc hd).2.2.2.1
  · intro p hp ha
    exact (hpackages 1 p hp 2).mp ha

end ClassDeps.Model
