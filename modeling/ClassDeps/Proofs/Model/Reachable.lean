import ClassDeps.Proofs.Model.Coherent

namespace ClassDeps.Model

variable {m : Model}

/-- A class takes the sizes and the outer class of its definition. -/
def markDefined (m : Model) (i : ClassId) (d : ClassDefinition) : Model :=
  m.updateClass i fun c =>
    { c with defined := true, size := d.size, codeSize := d.codeSize, outer := d.outer }

theorem fill_eq (m : Model) (i : ClassId) (d : ClassDefinition) :
    m.fill i d = (d.annotations.toList.foldl (Model.annotate · i ·)
      (d.uses.toList.foldl (Model.addUse · i ·) (m.markDefined i d))).annotatePackage i := rfl

theorem markDefined_extends {i : ClassId} {c : ClassNode} (hc : m.classes.get? i = some c)
    (hd : c.defined = false) (d : ClassDefinition) : m.Extends (m.markDefined i d) := by
  apply updateClass_extends
  intro b hb
  rw [hc, Option.some_inj] at hb
  subst hb
  exact ⟨rfl, rfl, fun ht => absurd ht (by simp [hd]), fun _ hj => hj, fun _ hj => hj⟩

theorem Coherent.markDefined (h : m.Coherent) {i : ClassId} {c : ClassNode}
    (hc : m.classes.get? i = some c) (hd : c.defined = false) (d : ClassDefinition) :
    (m.markDefined i d).Coherent := by
  apply h.updateClass
  · intro b hb
    rw [hc, Option.some_inj] at hb
    subst hb
    exact ⟨rfl, rfl, fun ht => absurd ht (by simp [hd]), fun _ hj => hj, fun _ hj => hj⟩
  · intro b hb j hj
    exact h.uses hb hj
  · intro b hb j hj
    exact h.annotations hb hj

theorem Coherent.fill (h : m.Coherent) {i : ClassId} {c : ClassNode}
    (hc : m.classes.get? i = some c) (hd : c.defined = false) (d : ClassDefinition) :
    (m.fill i d).Coherent ∧ m.Extends (m.fill i d) := by
  rw [fill_eq]
  have hmark := markDefined_extends hc hd d
  have hi : i < (m.markDefined i d).classes.size := hmark.lt_size (Arena.lt_size_of_get? hc)
  obtain ⟨hu, heu⟩ := foldl_keeps (fun m t hm hi => hm.addUse hi t)
    (fun m t => addUse_extends m i t) d.uses.toList (h.markDefined hc hd d) hi
  obtain ⟨ha, hea⟩ := foldl_keeps (i := i) (fun m t hm _ => hm.annotate i t)
    (fun m t => annotate_extends m i t) d.annotations.toList hu (heu.lt_size hi)
  exact ⟨ha.annotatePackage i,
    ((hmark.trans heu).trans hea).trans (annotatePackage_extends ..)⟩

/-- The three ways in which a definition can go. -/
theorem Coherent.define_cases (h : m.Coherent) (d : ClassDefinition) :
    ∃ c, (m.internClass d.name).2.classes.get? (m.internClass d.name).1 = some c ∧
      c.name = d.name ∧
      ((c.defined = false ∧ m.define d = (.ok (m.internClass d.name).1,
          (m.internClass d.name).2.fill (m.internClass d.name).1 d)) ∨
        (c.defined = true ∧ (m.internClass d.name).2 = m ∧ m.definitionOf c = d ∧
          m.define d = (.ok (m.internClass d.name).1, m)) ∨
        (c.defined = true ∧ (m.internClass d.name).2 = m ∧ m.definitionOf c ≠ d ∧
          m.define d = (.error ⟨d.name⟩, m))) := by
  obtain ⟨c, hc, hn⟩ := h.internClass_get? d.name
  refine ⟨c, hc, hn, ?_⟩
  have hdef : m.define d =
      if c.defined then
        if (m.internClass d.name).2.definitionOf c = d then
          (.ok (m.internClass d.name).1, (m.internClass d.name).2)
        else (.error ⟨d.name⟩, (m.internClass d.name).2)
      else (.ok (m.internClass d.name).1,
        (m.internClass d.name).2.fill (m.internClass d.name).1 d) := by
    simp only [define, hc]
  cases hd : c.defined with
  | false => exact .inl ⟨rfl, by rw [hdef, hd]; rfl⟩
  | true =>
    right
    -- Only a class that was there before can be defined.
    have hold : (m.internClass d.name).2 = m := by
      rcases internClass_cases m d.name with ⟨i, -, he⟩ | ⟨-, he⟩
      · rw [he]
      · rw [he, Model.addClass, Arena.get?_add, internPackage_classes, if_pos rfl,
          Option.some_inj] at hc
        subst hc
        cases hd
    rw [hd, hold] at hdef
    by_cases heq : m.definitionOf c = d
    · exact .inl ⟨rfl, hold, heq, by rw [hdef, if_pos rfl, if_pos heq]⟩
    · exact .inr ⟨rfl, hold, heq, by rw [hdef, if_pos rfl, if_neg heq]⟩

theorem Coherent.define (h : m.Coherent) (d : ClassDefinition) :
    (m.define d).2.Coherent ∧ m.Extends (m.define d).2 := by
  obtain ⟨c, hc, -, ⟨hd, he⟩ | ⟨-, -, -, he⟩ | ⟨-, -, -, he⟩⟩ := h.define_cases d
  · obtain ⟨hf, hx⟩ := (h.internClass d.name).fill hc hd d
    rw [he]
    exact ⟨hf, (internClass_extends m d.name).trans hx⟩
  · rw [he]
    exact ⟨h, .refl m⟩
  · rw [he]
    exact ⟨h, .refl m⟩

theorem importClass_snd (m : Model) (data : List UInt8) (location : String) :
    (m.importClass data location).2 = m ∨
      ∃ d, ClassDefinition.ofBytes data = .ok d ∧
        (m.importClass data location).2 = (m.define d).2 := by
  unfold importClass
  cases hd : ClassDefinition.ofBytes data with
  | error e => exact .inl rfl
  | ok d =>
    refine .inr ⟨d, rfl, ?_⟩
    rcases he : m.define d with ⟨_ | _, m'⟩ <;> simp only [he]

theorem Coherent.importClass (h : m.Coherent) (data : List UInt8) (location : String) :
    (m.importClass data location).2.Coherent ∧ m.Extends (m.importClass data location).2 := by
  rcases importClass_snd m data location with he | ⟨d, -, he⟩
  · rw [he]
    exact ⟨h, .refl m⟩
  · rw [he]
    exact h.define d

theorem Coherent.mergeClasses (h : m.Coherent) (other : Model) (classes : List ClassNode) :
    (m.mergeClasses other classes).2.Coherent ∧
      m.Extends (m.mergeClasses other classes).2 := by
  induction classes generalizing m with
  | nil => exact ⟨h, .refl m⟩
  | cons c rest ih =>
    unfold Model.mergeClasses
    split_ifs
    · obtain ⟨hm, hx⟩ := h.define (other.definitionOf c)
      rcases he : m.define (other.definitionOf c) with ⟨_ | _, m'⟩
      · rw [he] at hm hx
        exact ⟨hm, hx⟩
      · rw [he] at hm hx
        exact ⟨(ih hm).1, hx.trans (ih hm).2⟩
    · obtain ⟨hm, hx⟩ := ih (h.internClass c.name)
      exact ⟨hm, (internClass_extends m c.name).trans hx⟩

/-- The model with the packages of another one. -/
def addPackages (m : Model) (packages : List PackageNode) : Model :=
  packages.foldl (fun m p => (m.internPackage p.name).2) m

theorem merge_eq (m other : Model) :
    m.merge other =
      (m.addPackages other.packages.items.toList).mergeClasses other
        other.classes.items.toList := by
  simp only [merge, addPackages, Array.foldl_toList]

theorem Coherent.addPackages (h : m.Coherent) (packages : List PackageNode) :
    (m.addPackages packages).Coherent ∧ m.Extends (m.addPackages packages) := by
  unfold Model.addPackages
  induction packages generalizing m with
  | nil => exact ⟨h, .refl m⟩
  | cons p rest ih =>
    obtain ⟨hm, hx⟩ := ih (h.internPackage p.name)
    exact ⟨hm, (internPackage_extends m p.name).trans hx⟩

theorem Coherent.merge (h : m.Coherent) (other : Model) :
    (m.merge other).2.Coherent ∧ m.Extends (m.merge other).2 := by
  rw [merge_eq]
  obtain ⟨hm, hx⟩ := h.addPackages other.packages.items.toList
  obtain ⟨hm', hx'⟩ := hm.mergeClasses other other.classes.items.toList
  exact ⟨hm', hx.trans hx'⟩

/-- The models that operations make from the empty one, in any order. An operation that fails keeps
what it did before. -/
inductive Reachable : Model → Prop
  | empty : Reachable empty
  | internPackage {m : Model} (name : String) : Reachable m → Reachable (m.internPackage name).2
  | internClass {m : Model} (name : String) : Reachable m → Reachable (m.internClass name).2
  | addUse {m : Model} {i : ClassId} (target : String) :
    Reachable m → i < m.classes.size → Reachable (m.addUse i target)
  | annotate {m : Model} {i : ClassId} (type : String) :
    Reachable m → i < m.classes.size → Reachable (m.annotate i type)
  | define {m : Model} (d : ClassDefinition) : Reachable m → Reachable (m.define d).2
  | importClass {m : Model} (data : List UInt8) (location : String) :
    Reachable m → Reachable (m.importClass data location).2
  | merge {m other : Model} : Reachable m → Reachable other → Reachable (m.merge other).2

theorem Reachable.coherent (h : Reachable m) : m.Coherent := by
  induction h with
  | empty => exact coherent_empty
  | internPackage name _ ih => exact ih.internPackage name
  | internClass name _ ih => exact ih.internClass name
  | addUse target _ hi ih => exact ih.addUse hi target
  | annotate type _ _ ih => exact ih.annotate _ type
  | define d _ ih => exact (ih.define d).1
  | importClass data location _ ih => exact (ih.importClass data location).1
  | merge _ _ ih _ => exact (ih.merge _).1

end ClassDeps.Model
