import ClassDeps.Proofs.Model.Settled

namespace ClassDeps

namespace Model

/-- An import or a definition fails exactly for its causes, and then the model is as before. -/
theorem failure_changes_nothing (m : Model) :
    (∀ data location e m', m.importClass data location = (.error e, m') ↔
      m' = m ∧ m.ImportFault data location e) ∧
    ∀ d e m', m.define d = (.error e, m') ↔ m' = m ∧ m.Conflicts d ∧ e = ⟨d.name⟩ :=
  ⟨fun _ _ _ _ => importClass_eq_error_iff, fun _ _ _ => define_eq_error_iff⟩

end Model

/-- How a class can name another one. -/
inductive LinkKind where
  | use
  | annotated

def ClassDefinition.targets (d : ClassDefinition) : LinkKind → Std.ExtTreeSet String
  | .use => d.uses
  | .annotated => d.annotations

theorem ClassDefinition.eq_of_targets {d e : ClassDefinition} (hn : d.name = e.name)
    (hs : d.size = e.size) (hc : d.codeSize = e.codeSize) (ho : d.outer = e.outer)
    (ht : ∀ kind target, target ∈ d.targets kind ↔ target ∈ e.targets kind) : d = e := by
  have hu : d.uses = e.uses := Std.ExtTreeSet.ext_mem (ht .use)
  have ha : d.annotations = e.annotations := Std.ExtTreeSet.ext_mem (ht .annotated)
  cases d
  cases e
  simp_all

theorem ClassContent.mem_targets_filled {c : ClassContent} {d : ClassDefinition} {kind : LinkKind}
    {target : String} :
    target ∈ (c.filled d).targets kind ↔
      target ∈ c.targets kind ∨ target ∈ d.proper.targets kind := by
  cases kind with
  | use =>
    simp [filled, ClassDefinition.targets, ClassDefinition.proper, and_comm, @eq_comm _ d.name]
  | annotated => simp [filled, ClassDefinition.targets, ClassDefinition.proper]

namespace Model

variable {m m' : Model} {d : ClassDefinition} {i : ClassId}

/-- The model records that the class `name` uses the class `target`, or is annotated with it. -/
def Links (m : Model) (kind : LinkKind) (name target : String) : Prop :=
  ∃ x, m.classContent? name = some x ∧ target ∈ x.targets kind

instance (kind : LinkKind) (name target : String) : Decidable (m.Links kind name target) :=
  decidable_of_iff ((m.classContent? name).any fun x => decide (target ∈ x.targets kind)) <| by
    simp [Links, Option.any_eq_true]

theorem links_iff_known {kind : LinkKind} {name target : String} :
    m.Links kind name target ↔ target ∈ (m.view.known name).targets kind := by
  unfold Links View.known
  change _ ↔ target ∈ ((m.classContent? name).getD _).targets kind
  cases m.classContent? name with
  | none => cases kind <;> simp [ClassContent.mentioned, ClassDefinition.targets]
  | some x => simp

theorem links_of_content {x : ClassContent} {name : String} (hx : m.classContent? name = some x)
    {kind : LinkKind} {target : String} :
    m.Links kind name target ↔ target ∈ x.targets kind := by
  simp [Links, hx]

/-- What is known of each class once a class is defined for the first time. -/
theorem Coherent.known_define (h : m.Coherent) (hd : (m.view.known d.name).defined = false)
    (name : String) :
    (m.define d).2.view.known name =
      if name = d.name then (m.view.known d.name).filled d else m.view.known name := by
  rw [View.known, (h.define_of_undefined hd).2]
  split_ifs with hn
  · simp [hn]
  · by_cases hm : name ∈ d.uses ∨ name ∈ d.annotations
    · simp [hn, hm]
    · simp [hn, hm, View.known]

/-- A definition adds the links that it names, save those of the class to itself, to the links that
are there. -/
theorem Coherent.links_define (h : m.Coherent) (hok : m.define d = (.ok i, m')) {kind : LinkKind}
    {name target : String} :
    m'.Links kind name target ↔
      m.Links kind name target ∨ name = d.name ∧ target ∈ d.proper.targets kind := by
  rcases h.define_ok_cases hok with hd | ⟨rfl, hmem⟩
  · have hknown := h.known_define hd name
    rw [hok] at hknown
    rw [links_iff_known, links_iff_known, hknown]
    split_ifs with hn
    · simp [hn, ClassContent.mem_targets_filled]
    · simp [hn]
  · refine (or_iff_left_of_imp ?_).symm
    rintro ⟨rfl, ht⟩
    rw [h.proper_of_mem hmem] at ht
    exact ⟨_, hmem, ht⟩

/-- The class that a definition is for takes its sizes and its outer class. -/
theorem Coherent.content_define (h : m.Coherent) (hok : m.define d = (.ok i, m')) :
    ∃ x, m'.classContent? d.name = some x ∧ x.defined = true ∧ x.name = d.name ∧
      x.size = d.size ∧ x.codeSize = d.codeSize ∧ x.outer = d.outer := by
  have h' := h.of_define hok
  rcases h.define_ok_cases hok with hd | ⟨rfl, hmem⟩
  · have hview := congrArg (View.classes · d.name) (h.define_of_undefined hd).2
    rw [hok] at hview
    simp only [if_true] at hview
    exact ⟨_, hview, rfl, h'.content_name hview, rfl, rfl, rfl⟩
  · exact ⟨_, hmem, rfl, rfl, rfl, rfl, rfl⟩

theorem Coherent.find?_define (h : m.Coherent) (hok : m.define d = (.ok i, m')) :
    m'.classes.find? d.name = some i := by
  have h' := h.of_define hok
  obtain ⟨c, hc, hn, ⟨hd, he⟩ | ⟨-, hold, -, he⟩ | ⟨-, -, -, he⟩⟩ := h.define_cases d
  · cases he.symm.trans hok
    obtain ⟨b, hb, hext⟩ := ((h.internClass d.name).fill hc hd d).2.classes hc
    have hfind := h'.classes.find?_eq hb
    rwa [show b.name = d.name from hext.name.trans hn] at hfind
  · cases he.symm.trans hok
    rw [hold] at hc
    have hfind := h'.classes.find?_eq hc
    rwa [hn] at hfind
  · cases he.symm.trans hok

/-- The definition says no less of its class than the model does, and a model can say all of it. -/
structure Repeatable (m : Model) (d : ClassDefinition) : Prop where
  proper : d.name ∉ d.uses
  covers : ∀ kind target, m.Links kind d.name target → target ∈ d.targets kind

theorem Coherent.content_define_eq_iff (h : m.Coherent) (hok : m.define d = (.ok i, m'))
    {x : ClassContent} (hx : m'.classContent? d.name = some x) :
    x = d.content ↔ m.Repeatable d := by
  have h' := h.of_define hok
  have hlinks : ∀ kind target, target ∈ x.targets kind ↔
      m.Links kind d.name target ∨ target ∈ d.proper.targets kind := by
    intro kind target
    rw [← links_of_content hx, h.links_define hok]
    simp
  constructor
  · rintro rfl
    refine ⟨fun hself => (h'.content_uses hx hself).2 rfl, fun kind target ht => ?_⟩
    exact (hlinks kind target).mpr (.inl ht)
  · intro hr
    obtain ⟨y, hy, hd, hn, hs, hc, ho⟩ := h.content_define hok
    rw [hx, Option.some_inj] at hy
    subst hy
    have hdef : x.toClassDefinition = d := by
      refine ClassDefinition.eq_of_targets hn hs hc ho fun kind target => ?_
      rw [hlinks, ClassDefinition.proper_eq_self hr.proper]
      exact or_iff_right_of_imp (hr.covers kind target)
    rw [← hdef, ClassDefinition.content, ← hd]

/-- A definition that was accepted is accepted again if it can be repeated, with the same number and
no effect, and refused if not. The class is defined by it in the first case only. -/
theorem define_twice (hm : m.Reachable) (hok : m.define d = (.ok i, m')) :
    (m.Repeatable d → m'.define d = (.ok i, m')) ∧
    (¬m.Repeatable d → m'.define d = (.error ⟨d.name⟩, m')) ∧
    ∃ c, m'.classes.get? i = some c ∧ c.name = d.name ∧ c.defined = true ∧
      (m'.definitionOf c = d ↔ m.Repeatable d) := by
  have h := hm.coherent
  have h' := h.of_define hok
  obtain ⟨x, hx, hxd, -⟩ := h.content_define hok
  have hiff := h.content_define_eq_iff hok hx
  obtain ⟨hsnd, hfst⟩ := h'.define_of_defined hx hxd
  refine ⟨fun hr => ?_, fun hr => ?_, ?_⟩
  · obtain ⟨⟨j, hj⟩, -⟩ | ⟨-, hne⟩ := hfst
    · have hagain : m'.define d = (.ok j, m') := Prod.ext hj hsnd
      have hij := (h.find?_define hok).symm.trans (h'.find?_define hagain)
      rw [hagain, Option.some_inj.mp hij]
    · exact absurd (hiff.mpr hr) hne
  · obtain ⟨-, heq⟩ | ⟨herr, -⟩ := hfst
    · exact absurd (hiff.mp heq) hr
    · exact Prod.ext herr hsnd
  · obtain ⟨c, hc, hn⟩ := h'.classes.get?_of_find? (h.find?_define hok)
    have hcx := h'.classContent?_name hc
    change c.name = d.name at hn
    rw [hn, hx, Option.some_inj] at hcx
    subst hcx
    exact ⟨c, hc, hn, hxd, (contentOf_eq_content_iff hxd).symm.trans hiff⟩

/-- A definition of the class `a.A` that names the classes `uses`. -/
def usesOnly (uses : List String) : ClassDefinition where
  name := "a.A"
  size := 1
  codeSize := 0
  outer := none
  annotations := ∅
  uses := .ofList uses

/-- The class `a.A` is not defined, but known to use `b.B`. -/
def usedAhead : Model :=
  (empty.internClass "a.A").2.addUse 0 "b.B"

theorem reachable_usedAhead : usedAhead.Reachable :=
  .addUse "b.B" (.internClass "a.A" .empty) (by decide)

theorem define_twice_usedAhead :
    usedAhead.Repeatable (usesOnly ["b.B"]) ∧
      (usedAhead.define (usesOnly ["b.B"])).2.define (usesOnly ["b.B"]) =
        (.ok 0, (usedAhead.define (usesOnly ["b.B"])).2) := by
  have hok : usedAhead.define (usesOnly ["b.B"]) =
      (.ok 0, (usedAhead.define (usesOnly ["b.B"])).2) := Prod.ext (by decide) rfl
  have hagain : ((usedAhead.define (usesOnly ["b.B"])).2.define (usesOnly ["b.B"])).1 = .ok 0 := by
    decide
  obtain ⟨haccept, hrefuse, -⟩ := define_twice reachable_usedAhead hok
  have hr : usedAhead.Repeatable (usesOnly ["b.B"]) := by
    by_contra hr
    rw [hrefuse hr] at hagain
    cases hagain
  exact ⟨hr, haccept hr⟩

/-- An accepted definition can be refused the second time, in the same model: one that leaves out
what was recorded before, and one of a class that names itself. -/
theorem define_twice_refused :
    (usedAhead.Reachable ∧ (usedAhead.define (usesOnly [])).1 = .ok 0 ∧
      ((usedAhead.define (usesOnly [])).2.define (usesOnly [])).1 = .error ⟨"a.A"⟩) ∧
    (empty.Reachable ∧ (empty.define (usesOnly ["a.A"])).1 = .ok 0 ∧
      ((empty.define (usesOnly ["a.A"])).2.define (usesOnly ["a.A"])).1 = .error ⟨"a.A"⟩) :=
  ⟨⟨reachable_usedAhead, by decide, by decide⟩,
    .empty, by decide, by decide⟩

end Model

end ClassDeps
