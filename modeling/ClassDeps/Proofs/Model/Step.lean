import ClassDeps.Proofs.Model.Reachable

namespace ClassDeps

/-- The index is a bijection between the names and the numbers of the items that bear them. -/
structure Arena.Bijective {α : Type} (nameOf : α → String) (a : Arena α) : Prop where
  bears : ∀ {name i}, a.find? name = some i → ∃ item, a.get? i = some item ∧ nameOf item = name
  unique : ∀ i < a.size, ∃! name, a.find? name = some i

theorem Arena.Indexed.bijective {α : Type} {nameOf : α → String} {a : Arena α}
    (h : a.Indexed nameOf) : a.Bijective nameOf where
  bears := h.get?_of_find?
  unique i hi := by
    obtain ⟨item, hitem⟩ := exists_get?_of_lt_size hi
    refine ⟨nameOf item, h.find?_eq hitem, ?_⟩
    intro name hname
    obtain ⟨x, hx, hn⟩ := h.get?_of_find? hname
    have hsame : x = item := Option.some_inj.mp (hx.symm.trans hitem)
    rw [← hn, hsame]

namespace Model

variable {m m' : Model}

/-- One operation on a model, whether it succeeds or fails. A class is changed by a number that the
model has given out, and what is merged was made by operations as well. -/
inductive Step (m : Model) : Model → Prop
  | internPackage (name : String) : Step m (m.internPackage name).2
  | internClass (name : String) : Step m (m.internClass name).2
  | addUse {i : ClassId} (target : String) : i < m.classes.size → Step m (m.addUse i target)
  | annotate {i : ClassId} (type : String) : i < m.classes.size → Step m (m.annotate i type)
  | define (d : ClassDefinition) : Step m (m.define d).2
  | importClass (data : List UInt8) (location : String) : Step m (m.importClass data location).2
  | merge {other : Model} : other.Reachable → Step m (m.merge other).2

theorem Reachable.step (h : m.Reachable) (hs : m.Step m') : m'.Reachable := by
  cases hs with
  | internPackage name => exact .internPackage name h
  | internClass name => exact .internClass name h
  | addUse target hi => exact .addUse target h hi
  | annotate type hi => exact .annotate type h hi
  | define d => exact .define d h
  | importClass data location => exact .importClass data location h
  | merge hother => exact .merge h hother

/-- No operation takes anything away. -/
theorem Coherent.extends_of_step (h : m.Coherent) (hs : m.Step m') : m.Extends m' := by
  cases hs with
  | internPackage name => exact internPackage_extends m name
  | internClass name => exact internClass_extends m name
  | addUse target _ => exact addUse_extends m _ target
  | annotate type _ => exact annotate_extends m _ type
  | define d => exact (h.define d).2
  | importClass data location => exact (h.importClass data location).2
  | merge _ => exact (h.merge _).2

/-- In every model that operations make from the empty one, names and numbers correspond one to
one, every number in a set is that of a class, no class uses itself, and packages hold exactly the
classes whose names place them there. Each further operation keeps all numbers with their names and
packages, what is known of the defined classes, and every element of every set. -/
theorem reachable_representation (h : m.Reachable) :
    m.classes.Bijective ClassNode.name ∧ m.packages.Bijective PackageNode.name ∧
    (∀ i c, m.classes.get? i = some c →
      (∀ j ∈ c.uses, j < m.classes.size ∧ j ≠ i) ∧ (∀ j ∈ c.annotations, j < m.classes.size) ∧
      ∃ p, m.packages.get? c.package = some p ∧ p.name = Name.packageOf c.name) ∧
    (∀ k p, m.packages.get? k = some p →
      (∀ i, i ∈ p.classes ↔ ∃ c, m.classes.get? i = some c ∧ c.package = k) ∧
      ∀ i ∈ p.annotations, i < m.classes.size) ∧
    ∀ m', m.Step m' → m'.Reachable ∧ m.Extends m' := by
  have hm := h.coherent
  refine ⟨hm.classes.bijective, hm.packages.bijective, ?_, ?_, ?_⟩
  · intro i c hc
    exact ⟨fun _ hj => hm.uses hc hj, fun _ hj => hm.annotations hc hj,
      hm.packages.get?_of_find? (hm.package hc)⟩
  · intro k p hp
    exact ⟨fun _ => hm.member_iff hp, fun _ hi => hm.packageAnnotations hp hi⟩
  · intro m' hs
    exact ⟨h.step hs, hm.extends_of_step hs⟩

/-- A class, and a model that has a class before it and then another definition of it. -/
def soleModel : Model :=
  (empty.define ⟨"a.A", 1, 0, none, ∅, .ofList ["b.B"]⟩).2

def rivalModel : Model :=
  let used := (empty.define ⟨"b.B", 1, 0, some "b.O", .ofList ["c.C"], ∅⟩).2
  (used.define ⟨"a.A", 2, 0, none, ∅, ∅⟩).2

theorem reachable_soleModel : soleModel.Reachable :=
  .define _ .empty

theorem reachable_rivalModel : rivalModel.Reachable :=
  .define _ (.define _ .empty)

/-- The merge defines one class before it meets the conflict, and still nothing is lost. -/
theorem reachable_representation_rivals :
    (soleModel.merge rivalModel).1 = .error ⟨"a.A"⟩ ∧
    ((soleModel.merge rivalModel).2.classes.get? 1).map (·.outer) = some (some "b.O") ∧
    (soleModel.merge rivalModel).2.Reachable ∧ soleModel.Extends (soleModel.merge rivalModel).2 :=
  ⟨by decide, by decide,
    (reachable_representation reachable_soleModel).2.2.2.2 _ (.merge reachable_rivalModel)⟩

end Model

end ClassDeps
