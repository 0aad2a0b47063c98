import ClassDeps.Model.Import
import ClassDeps.Proofs.Arena

namespace ClassDeps.Model

structure Coherent (m : Model) : Prop where
  classes : m.classes.Indexed ClassNode.name
  packages : m.packages.Indexed PackageNode.name
  package : ∀ {i c}, m.classes.get? i = some c →
    m.packages.find? (Name.packageOf c.name) = some c.package
  member_iff : ∀ {j p i}, m.packages.get? j = some p →
    (i ∈ p.classes ↔ ∃ c, m.classes.get? i = some c ∧ c.package = j)
  uses : ∀ {i c j}, m.classes.get? i = some c → j ∈ c.uses → j < m.classes.size ∧ j ≠ i
  annotations : ∀ {i c j}, m.classes.get? i = some c → j ∈ c.annotations → j < m.classes.size
  packageAnnotations : ∀ {j p i}, m.packages.get? j = some p → i ∈ p.annotations →
    i < m.classes.size

theorem coherent_empty : empty.Coherent where
  classes := .empty
  packages := .empty
  package h := by simp [empty] at h
  member_iff h := by simp [empty] at h
  uses h := by simp [empty] at h
  annotations h := by simp [empty] at h
  packageAnnotations h := by simp [empty] at h

theorem Coherent.get?_package {m : Model} (h : m.Coherent) {i : ClassId} {c : ClassNode}
    (hc : m.classes.get? i = some c) :
    ∃ p, m.packages.get? c.package = some p ∧ p.name = Name.packageOf c.name :=
  h.packages.get?_of_find? (h.package hc)

theorem Coherent.package_eq_iff {m : Model} (h : m.Coherent) {i : ClassId} {c : ClassNode}
    {p : String} {k : PackageId} (hc : m.classes.get? i = some c)
    (hk : m.packages.find? p = some k) : c.package = k ↔ Name.packageOf c.name = p := by
  constructor
  · rintro rfl
    obtain ⟨x, hx, hn⟩ := h.get?_package hc
    obtain ⟨y, hy, rfl⟩ := h.packages.get?_of_find? hk
    rw [hx, Option.some_inj] at hy
    rw [← hy, hn]
  · rintro rfl
    rw [h.package hc, Option.some_inj] at hk
    exact hk

/-- The class `c` of the model uses the class `used`. -/
def Uses (m : Model) (c used : ClassNode) : Prop :=
  ∃ i j, m.classes.get? i = some c ∧ j ∈ c.uses ∧ m.classes.get? j = some used

end Model

/-- A class keeps its name and its package, what is known of it once it is defined, and everything
it uses or is annotated with. -/
structure ClassNode.Extends (c c' : ClassNode) : Prop where
  name : c'.name = c.name
  package : c'.package = c.package
  content : c.defined = true →
    c'.defined = true ∧ c'.size = c.size ∧ c'.codeSize = c.codeSize ∧ c'.outer = c.outer
  uses : ∀ j ∈ c.uses, j ∈ c'.uses
  annotations : ∀ j ∈ c.annotations, j ∈ c'.annotations

structure PackageNode.Extends (p p' : PackageNode) : Prop where
  name : p'.name = p.name
  classes : ∀ i ∈ p.classes, i ∈ p'.classes
  annotations : ∀ i ∈ p.annotations, i ∈ p'.annotations

theorem ClassNode.Extends.refl (c : ClassNode) : c.Extends c where
  name := rfl
  package := rfl
  content h := ⟨h, rfl, rfl, rfl⟩
  uses _ h := h
  annotations _ h := h

theorem ClassNode.Extends.trans {a b c : ClassNode} (hab : a.Extends b) (hbc : b.Extends c) :
    a.Extends c where
  name := hbc.name.trans hab.name
  package := hbc.package.trans hab.package
  content h := by
    obtain ⟨hb, hs, hcs, ho⟩ := hab.content h
    obtain ⟨hc, hs', hcs', ho'⟩ := hbc.content hb
    exact ⟨hc, hs'.trans hs, hcs'.trans hcs, ho'.trans ho⟩
  uses j h := hbc.uses j (hab.uses j h)
  annotations j h := hbc.annotations j (hab.annotations j h)

theorem PackageNode.Extends.refl (p : PackageNode) : p.Extends p where
  name := rfl
  classes _ h := h
  annotations _ h := h

theorem PackageNode.Extends.trans {p q r : PackageNode} (hpq : p.Extends q) (hqr : q.Extends r) :
    p.Extends r where
  name := hqr.name.trans hpq.name
  classes i h := hqr.classes i (hpq.classes i h)
  annotations i h := hqr.annotations i (hpq.annotations i h)

namespace Model

structure Extends (m m' : Model) : Prop where
  classes : ∀ {i c}, m.classes.get? i = some c → ∃ c', m'.classes.get? i = some c' ∧ c.Extends c'
  packages : ∀ {j p}, m.packages.get? j = some p →
    ∃ p', m'.packages.get? j = some p' ∧ p.Extends p'

theorem Extends.refl (m : Model) : m.Extends m where
  classes h := ⟨_, h, .refl _⟩
  packages h := ⟨_, h, .refl _⟩

theorem Extends.trans {a b c : Model} (hab : a.Extends b) (hbc : b.Extends c) : a.Extends c where
  classes h := by
    obtain ⟨x, hx, hax⟩ := hab.classes h
    obtain ⟨y, hy, hxy⟩ := hbc.classes hx
    exact ⟨y, hy, hax.trans hxy⟩
  packages h := by
    obtain ⟨x, hx, hax⟩ := hab.packages h
    obtain ⟨y, hy, hxy⟩ := hbc.packages hx
    exact ⟨y, hy, hax.trans hxy⟩

variable {m : Model}

theorem internPackage_cases (m : Model) (name : String) :
    (∃ j, m.packages.find? name = some j ∧ m.internPackage name = (j, m)) ∨
    m.packages.find? name = none ∧
      m.internPackage name =
        (m.packages.size, { m with packages := m.packages.add name ⟨name, ∅, ∅⟩ }) := by
  unfold internPackage
  cases h : m.packages.find? name with
  | some j => exact .inl ⟨j, rfl, rfl⟩
  | none => exact .inr ⟨rfl, rfl⟩

@[simp] theorem internPackage_classes (m : Model) (name : String) :
    (m.internPackage name).2.classes = m.classes := by
  rcases internPackage_cases m name with ⟨j, -, h⟩ | ⟨-, h⟩ <;> rw [h]

theorem internPackage_find? (m : Model) (name other : String) :
    (m.internPackage name).2.packages.find? other =
      if other = name then some (m.internPackage name).1 else m.packages.find? other := by
  rcases internPackage_cases m name with ⟨j, hj, h⟩ | ⟨-, h⟩
  · rw [h]
    split_ifs with he
    · rw [he, hj]
    · rfl
  · rw [h]
    exact Arena.find?_add ..

theorem internPackage_extends (m : Model) (name : String) :
    m.Extends (m.internPackage name).2 where
  classes h := ⟨_, by rw [internPackage_classes]; exact h, .refl _⟩
  packages {j p} h := by
    rcases internPackage_cases m name with ⟨k, -, he⟩ | ⟨-, he⟩
    · rw [he]
      exact ⟨p, h, .refl p⟩
    · refine ⟨p, ?_, .refl p⟩
      rw [he, Arena.get?_add, if_neg (Arena.lt_size_of_get? h).ne]
      exact h

theorem Coherent.internPackage (h : m.Coherent) (name : String) :
    (m.internPackage name).2.Coherent := by
  rcases internPackage_cases m name with ⟨j, -, he⟩ | ⟨hn, he⟩
  · rw [he]
    exact h
  rw [he]
  -- The one package that is not old holds nothing, and no class is in it.
  have hpkg : ∀ {j p}, (m.packages.add name ⟨name, ∅, ∅⟩).get? j = some p →
      m.packages.get? j = some p ∨ j = m.packages.size ∧ p = ⟨name, ∅, ∅⟩ := by
    intro j p hj
    rw [Arena.get?_add] at hj
    split_ifs at hj with hs
    · exact .inr ⟨hs, (Option.some_inj.mp hj).symm⟩
    · exact .inl hj
  refine ⟨h.classes, h.packages.add hn, ?_, ?_, h.uses, h.annotations, ?_⟩
  · intro i c hc
    have hp := h.package hc
    rw [Arena.find?_add, if_neg ?_]
    · exact hp
    · intro hname
      rw [hname, hn] at hp
      cases hp
  · intro j p i hj
    rcases hpkg hj with hj | ⟨rfl, rfl⟩
    · exact h.member_iff hj
    · refine iff_of_false (by simp) ?_
      rintro ⟨c, hc, hs⟩
      obtain ⟨p, hp, -⟩ := h.packages.get?_of_find? (h.package hc)
      rw [hs] at hp
      exact absurd (Arena.lt_size_of_get? hp) (lt_irrefl _)
  · intro j p i hj hi
    rcases hpkg hj with hj | ⟨-, rfl⟩
    · exact h.packageAnnotations hj hi
    · simp at hi

/-- The model with a class that is only mentioned, in the package of number `package`. -/
def addClass (m : Model) (name : String) (package : PackageId) : Model where
  classes := m.classes.add name (.mentioned name package)
  packages := m.packages.modify package fun p =>
    { p with classes := p.classes.insert m.classes.size }

theorem internClass_cases (m : Model) (name : String) :
    (∃ i, m.classes.find? name = some i ∧ m.internClass name = (i, m)) ∨
    m.classes.find? name = none ∧
      m.internClass name = (m.classes.size,
        (m.internPackage (Name.packageOf name)).2.addClass name
          (m.internPackage (Name.packageOf name)).1) := by
  unfold internClass
  cases h : m.classes.find? name with
  | some i => exact .inl ⟨i, rfl, rfl⟩
  | none =>
    refine .inr ⟨rfl, ?_⟩
    simp only [addClass, internPackage_classes]

theorem addClass_extends (m : Model) (name : String) (package : PackageId) :
    m.Extends (m.addClass name package) where
  classes {i c} h := by
    refine ⟨c, ?_, .refl c⟩
    rw [addClass, Arena.get?_add, if_neg (Arena.lt_size_of_get? h).ne]
    exact h
  packages {j p} h := by
    rw [addClass, Arena.get?_modify, h]
    split_ifs
    · refine ⟨_, rfl, rfl, ?_, fun _ hi => hi⟩
      intro i hi
      simp [hi]
    · exact ⟨p, rfl, .refl p⟩

theorem Coherent.addClass (h : m.Coherent) {name : String} {package : PackageId}
    (hn : m.classes.find? name = none)
    (hp : m.packages.find? (Name.packageOf name) = some package) :
    (m.addClass name package).Coherent := by
  have hcls : ∀ {i c}, (m.addClass name package).classes.get? i = some c →
      m.classes.get? i = some c ∨ i = m.classes.size ∧ c = .mentioned name package := by
    intro i c hc
    rw [Model.addClass, Arena.get?_add] at hc
    split_ifs at hc with hs
    · exact .inr ⟨hs, (Option.some_inj.mp hc).symm⟩
    · exact .inl hc
  have hsize : (m.addClass name package).classes.size = m.classes.size + 1 := Arena.size_add ..
  have hidx : (m.addClass name package).classes.Indexed ClassNode.name :=
    @Arena.Indexed.add _ _ _ h.classes (.mentioned name package) hn
  refine ⟨hidx, h.packages.modify fun _ _ => rfl, ?_, ?_, ?_, ?_, ?_⟩
  · intro i c hc
    rcases hcls hc with hc | ⟨-, rfl⟩
    · exact h.package hc
    · exact hp
  · intro j p i hj
    have hnew : (∃ c, (m.addClass name package).classes.get? i = some c ∧ c.package = j) ↔
        (i = m.classes.size ∧ package = j) ∨ ∃ c, m.classes.get? i = some c ∧ c.package = j := by
      rw [Model.addClass, Arena.get?_add]
      split_ifs with hs
      · have hold : m.classes.get? i = none := Arena.get?_eq_none_iff.mpr hs.ge
        simp [hs ▸ hold, hs, ClassNode.mentioned]
      · simp [hs]
    rw [hnew]
    change (m.packages.modify package _).get? j = some p at hj
    rw [Arena.get?_modify] at hj
    split_ifs at hj with hs
    · obtain ⟨q, hq, rfl⟩ := Option.map_eq_some_iff.mp hj
      simp only [Std.ExtTreeSet.mem_insert, Std.LawfulEqCmp.compare_eq_iff_eq, h.member_iff hq]
      simp [hs, eq_comm]
    · rw [h.member_iff hj]
      simp [Ne.symm hs]
  · intro i c j hc hj
    rcases hcls hc with hc | ⟨-, rfl⟩
    · obtain ⟨hlt, hne⟩ := h.uses hc hj
      exact ⟨hsize ▸ Nat.lt_succ_of_lt hlt, hne⟩
    · simp [ClassNode.mentioned] at hj
  · intro i c j hc hj
    rcases hcls hc with hc | ⟨-, rfl⟩
    · exact hsize ▸ Nat.lt_succ_of_lt (h.annotations hc hj)
    · simp [ClassNode.mentioned] at hj
  · intro j p i hj hi
    change (m.packages.modify package _).get? j = some p at hj
    rw [Arena.get?_modify] at hj
    rw [hsize]
    split_ifs at hj
    · obtain ⟨q, hq, rfl⟩ := Option.map_eq_some_iff.mp hj
      exact Nat.lt_succ_of_lt (h.packageAnnotations hq hi)
    · exact Nat.lt_succ_of_lt (h.packageAnnotations hj hi)

theorem internClass_extends (m : Model) (name : String) : m.Extends (m.internClass name).2 := by
  rcases internClass_cases m name with ⟨i, -, he⟩ | ⟨-, he⟩
  · rw [he]
    exact .refl m
  · rw [he]
    exact (internPackage_extends m _).trans (addClass_extends ..)

theorem Coherent.internClass (h : m.Coherent) (name : String) :
    (m.internClass name).2.Coherent := by
  rcases internClass_cases m name with ⟨i, -, he⟩ | ⟨hn, he⟩
  · rw [he]
    exact h
  · rw [he]
    refine (h.internPackage _).addClass ?_ ?_
    · rw [internPackage_classes]
      exact hn
    · rw [internPackage_find?, if_pos rfl]

theorem internClass_find? (m : Model) (name other : String) :
    (m.internClass name).2.classes.find? other =
      if other = name then some (m.internClass name).1 else m.classes.find? other := by
  rcases internClass_cases m name with ⟨i, hi, he⟩ | ⟨-, he⟩
  · rw [he]
    split_ifs with ho
    · rw [ho, hi]
    · rfl
  · rw [he, addClass, Arena.find?_add, internPackage_classes]

theorem Coherent.internClass_get? (h : m.Coherent) (name : String) :
    ∃ c, (m.internClass name).2.classes.get? (m.internClass name).1 = some c ∧ c.name = name := by
  apply (h.internClass name).classes.get?_of_find?
  rw [internClass_find?, if_pos rfl]

theorem Extends.lt_size {m' : Model} (h : m.Extends m') {i : ClassId} (hi : i < m.classes.size) :
    i < m'.classes.size := by
  obtain ⟨c, hc⟩ := Arena.exists_get?_of_lt_size hi
  obtain ⟨c', hc', -⟩ := h.classes hc
  exact Arena.lt_size_of_get? hc'

def updateClass (m : Model) (i : ClassId) (f : ClassNode → ClassNode) : Model :=
  { m with classes := m.classes.modify i f }

theorem updateClass_extends {i : ClassId} {f : ClassNode → ClassNode}
    (hf : ∀ c, m.classes.get? i = some c → c.Extends (f c)) : m.Extends (m.updateClass i f) where
  classes {j c} hc := by
    rw [updateClass, Arena.get?_modify, hc]
    split_ifs with hj
    · exact ⟨f c, rfl, hf c (hj ▸ hc)⟩
    · exact ⟨c, rfl, .refl c⟩
  packages hp := ⟨_, hp, .refl _⟩

theorem Coherent.updateClass (h : m.Coherent) {i : ClassId} {f : ClassNode → ClassNode}
    (hf : ∀ c, m.classes.get? i = some c → c.Extends (f c))
    (hu : ∀ c, m.classes.get? i = some c → ∀ j ∈ (f c).uses, j < m.classes.size ∧ j ≠ i)
    (ha : ∀ c, m.classes.get? i = some c → ∀ j ∈ (f c).annotations, j < m.classes.size) :
    (m.updateClass i f).Coherent := by
  have hcls : ∀ {k c}, (m.updateClass i f).classes.get? k = some c →
      m.classes.get? k = some c ∨ k = i ∧ ∃ b, m.classes.get? i = some b ∧ f b = c := by
    intro k c hc
    rw [Model.updateClass, Arena.get?_modify] at hc
    split_ifs at hc with hk
    · subst hk
      exact .inr ⟨rfl, Option.map_eq_some_iff.mp hc⟩
    · exact .inl hc
  have hsize : (m.updateClass i f).classes.size = m.classes.size := Arena.size_modify ..
  refine ⟨h.classes.modify fun c hc => (hf c hc).name, h.packages, ?_, ?_, ?_, ?_, ?_⟩
  · intro k c hc
    rcases hcls hc with hc | ⟨rfl, b, hb, rfl⟩
    · exact h.package hc
    · rw [(hf b hb).name, (hf b hb).package]
      exact h.package hb
  · intro j p k hp
    rw [h.member_iff hp, Model.updateClass, Arena.get?_modify]
    split_ifs with hk
    · subst hk
      cases hb : m.classes.get? k with
      | none => simp
      | some b => simp [(hf b hb).package]
    · rfl
  · intro k c j hc hj
    rw [hsize]
    rcases hcls hc with hc | ⟨rfl, b, hb, rfl⟩
    · exact h.uses hc hj
    · exact hu b hb j hj
  · intro k c j hc hj
    rw [hsize]
    rcases hcls hc with hc | ⟨rfl, b, hb, rfl⟩
    · exact h.annotations hc hj
    · exact ha b hb j hj
  · intro j p k hp hk
    rw [hsize]
    exact h.packageAnnotations hp hk

/-- A use of another class is recorded; a use of itself is not. -/
theorem addUse_eq (m : Model) (i : ClassId) (target : String) :
    m.addUse i target =
      if (m.classes.get? i).any (·.name = target) then m
      else (m.internClass target).2.updateClass i fun c =>
        { c with uses := c.uses.insert (m.internClass target).1 } := rfl

theorem annotate_eq (m : Model) (i : ClassId) (type : String) :
    m.annotate i type = (m.internClass type).2.updateClass i fun c =>
      { c with annotations := c.annotations.insert (m.internClass type).1 } := rfl

theorem addUse_extends (m : Model) (i : ClassId) (target : String) :
    m.Extends (m.addUse i target) := by
  rw [addUse_eq]
  split_ifs
  · exact .refl m
  · refine (internClass_extends m target).trans (updateClass_extends fun c _ => ?_)
    refine ⟨rfl, rfl, fun hd => ⟨hd, rfl, rfl, rfl⟩, fun j hj => ?_, fun _ hj => hj⟩
    simp [hj]

theorem annotate_extends (m : Model) (i : ClassId) (type : String) :
    m.Extends (m.annotate i type) := by
  rw [annotate_eq]
  refine (internClass_extends m type).trans (updateClass_extends fun c _ => ?_)
  refine ⟨rfl, rfl, fun hd => ⟨hd, rfl, rfl, rfl⟩, fun _ hj => hj, fun j hj => ?_⟩
  simp [hj]

theorem Coherent.addUse (h : m.Coherent) {i : ClassId} (hi : i < m.classes.size)
    (target : String) : (m.addUse i target).Coherent := by
  rw [addUse_eq]
  split_ifs with hself
  · exact h
  have h' := h.internClass target
  obtain ⟨t, ht, htn⟩ := h.internClass_get? target
  -- The class that is used bears the name `target`, which is not that of the class using it.
  have hne : (m.internClass target).1 ≠ i := by
    intro he
    obtain ⟨c, hc⟩ := Arena.exists_get?_of_lt_size hi
    obtain ⟨c', hc', hext⟩ := (internClass_extends m target).classes hc
    rw [he, hc', Option.some_inj] at ht
    apply hself
    simp [hc, ← hext.name, ht, htn]
  apply h'.updateClass
  · intro c _
    refine ⟨rfl, rfl, fun hd => ⟨hd, rfl, rfl, rfl⟩, fun j hj => ?_, fun _ hj => hj⟩
    simp [hj]
  · intro c hc j hj
    rcases Std.ExtTreeSet.mem_insert.mp hj with hj | hj
    · rw [← Std.LawfulEqCmp.compare_eq_iff_eq.mp hj]
      exact ⟨Arena.lt_size_of_get? ht, hne⟩
    · exact h'.uses hc hj
  · intro c hc j hj
    exact h'.annotations hc hj

theorem Coherent.annotate (h : m.Coherent) (i : ClassId) (type : String) :
    (m.annotate i type).Coherent := by
  rw [annotate_eq]
  have h' := h.internClass type
  obtain ⟨t, ht, -⟩ := h.internClass_get? type
  apply h'.updateClass
  · intro c _
    refine ⟨rfl, rfl, fun hd => ⟨hd, rfl, rfl, rfl⟩, fun _ hj => hj, fun j hj => ?_⟩
    simp [hj]
  · intro c hc j hj
    exact h'.uses hc hj
  · intro c hc j hj
    rcases Std.ExtTreeSet.mem_insert.mp hj with hj | hj
    · rw [← Std.LawfulEqCmp.compare_eq_iff_eq.mp hj]
      exact Arena.lt_size_of_get? ht
    · exact h'.annotations hc hj

/-- What a whole run of additions keeps, from what each of them keeps. -/
theorem foldl_keeps {f : Model → String → Model} {i : ClassId}
    (hf : ∀ m name, m.Coherent → i < m.classes.size → (f m name).Coherent)
    (hx : ∀ (m : Model) name, m.Extends (f m name)) (names : List String) (h : m.Coherent)
    (hi : i < m.classes.size) :
    (names.foldl f m).Coherent ∧ m.Extends (names.foldl f m) := by
  induction names generalizing m with
  | nil => exact ⟨h, .refl m⟩
  | cons name names ih =>
    obtain ⟨hc, he⟩ := ih (hf m name h hi) ((hx m name).lt_size hi)
    exact ⟨hc, (hx m name).trans he⟩

theorem annotatePackage_eq {i : ClassId} {c : ClassNode} (hc : m.classes.get? i = some c) :
    m.annotatePackage i =
      if c.isPackageInfo then
        { m with packages := m.packages.modify c.package fun p =>
            { p with annotations := p.annotations.insertMany c.annotations.toList } }
      else m := by
  simp only [annotatePackage, hc]

theorem annotatePackage_classes (m : Model) (i : ClassId) :
    (m.annotatePackage i).classes = m.classes := by
  unfold annotatePackage
  split
  · split_ifs <;> rfl
  · rfl

theorem annotatePackage_extends (m : Model) (i : ClassId) : m.Extends (m.annotatePackage i) where
  classes h := ⟨_, by rw [annotatePackage_classes]; exact h, .refl _⟩
  packages {j p} h := by
    unfold annotatePackage
    split
    · split_ifs
      · rw [Arena.get?_modify, h]
        split_ifs
        · exact ⟨_, rfl, rfl, fun _ hk => hk, fun k hk => by simp [hk]⟩
        · exact ⟨p, rfl, .refl p⟩
      · exact ⟨p, h, .refl p⟩
    · exact ⟨p, h, .refl p⟩

theorem Coherent.annotatePackage (h : m.Coherent) (i : ClassId) :
    (m.annotatePackage i).Coherent := by
  unfold Model.annotatePackage
  split
  · rename_i c hc
    split_ifs
    · have hpkg : ∀ {j p}, (m.packages.modify c.package fun p =>
            { p with annotations := p.annotations.insertMany c.annotations.toList }).get? j =
            some p →
          ∃ q, m.packages.get? j = some q ∧ p.classes = q.classes ∧
            ∀ k ∈ p.annotations, k ∈ q.annotations ∨ k ∈ c.annotations := by
        intro j p hj
        rw [Arena.get?_modify] at hj
        split_ifs at hj
        · obtain ⟨q, hq, rfl⟩ := Option.map_eq_some_iff.mp hj
          exact ⟨q, hq, rfl, fun k hk => by simpa using hk⟩
        · exact ⟨p, hj, rfl, fun k hk => .inl hk⟩
      refine ⟨h.classes, h.packages.modify fun _ _ => rfl, h.package, ?_, h.uses,
        h.annotations, ?_⟩
      · intro j p k hj
        obtain ⟨q, hq, hcl, -⟩ := hpkg hj
        rw [hcl]
        exact h.member_iff hq
      · intro j p k hj hk
        obtain ⟨q, hq, -, han⟩ := hpkg hj
        rcases han k hk with hk | hk
        · exact h.packageAnnotations hq hk
        · exact h.annotations hc hk
    · exact h
  · exact h

end ClassDeps.Model
