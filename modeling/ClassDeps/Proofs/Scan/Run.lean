import ClassDeps.Proofs.Model.Partition
import ClassDeps.Scan.Basic

namespace ClassDeps

/-- The artifact with another number for its parent. -/
def Artifact.rename (f : Nat → Nat) (a : Artifact) : Artifact :=
  { a with parent := a.parent.map f }

namespace Scan

/-- What came of one place in the input: a class was defined or a failure was recorded. A place is
the way to it, by position. -/
structure Event where
  place : List Nat
  location : String
  result : Except String ClassDefinition

namespace Event

def failure? (e : Event) : Option ScanFailure :=
  match e.result with
  | .error message => some ⟨e.location, message⟩
  | .ok _ => none

def imported? (e : Event) : Option ClassDefinition :=
  match e.result with
  | .error _ => none
  | .ok d => some d

/-- The event as seen from one level further up. -/
def under (i : Nat) (e : Event) : Event :=
  { e with place := i :: e.place }

end Event

/-- What a scan gained by these events. Artifacts are left open. -/
structure Gains (s : Scan) (log : List Event) (s' : Scan) : Prop where
  failures : s'.failures = s.failures ++ log.filterMap Event.failure?
  classCount : s'.classCount = s.classCount + (log.filterMap Event.imported?).length
  settled : s'.model.Settled
  summary : s'.model.summary = s.model.summary ∪
    Summary.join ((log.filterMap Event.imported?).map ClassDefinition.summary)

namespace Gains

variable {s s' s'' : Scan} {log log' : List Event}

theorem trans (h : Gains s log s') (h' : Gains s' log' s'') : Gains s (log ++ log') s'' where
  failures := by rw [h'.failures, h.failures, List.filterMap_append, List.append_assoc]
  classCount := by
    rw [h'.classCount, h.classCount, List.filterMap_append, List.length_append, Nat.add_assoc]
  settled := h'.settled
  summary := by
    rw [h'.summary, h.summary, List.filterMap_append, List.map_append, Summary.join_append,
      Summary.union_assoc]

theorem under (h : Gains s log s') (i : Nat) : Gains s (log.map (Event.under i)) s' := by
  have hfailures : (log.map (Event.under i)).filterMap Event.failure? =
      log.filterMap Event.failure? := List.filterMap_map
  have himported : (log.map (Event.under i)).filterMap Event.imported? =
      log.filterMap Event.imported? := List.filterMap_map
  exact ⟨hfailures ▸ h.failures, himported ▸ h.classCount, h.settled, himported ▸ h.summary⟩

theorem refl (hs : s.model.Settled) : Gains s [] s where
  failures := by rw [List.filterMap_nil, List.append_nil]
  classCount := rfl
  settled := hs
  summary := (Summary.union_empty _).symm

theorem addArtifact (hs : s.model.Settled) (artifact : Artifact) :
    Gains s [] (s.addArtifact artifact) :=
  ⟨(refl hs).failures, (refl hs).classCount, hs, (refl hs).summary⟩

theorem fail (hs : s.model.Settled) (place : List Nat) (location message : String) :
    Gains s [⟨place, location, .error message⟩] (s.fail location message) where
  failures := rfl
  classCount := rfl
  settled := hs
  summary := (Summary.union_empty _).symm

theorem define (hs : s.model.Settled) (place : List Nat) (location : String)
    {d : ClassDefinition} {i : ClassId} {m : Model} (h : s.model.define d = (.ok i, m)) :
    Gains s [⟨place, location, .ok d⟩]
      { s with model := m, classCount := s.classCount + 1 } where
  failures := (List.append_nil _).symm
  classCount := rfl
  settled := (hs.define h).1
  summary := by
    rw [(hs.define h).2]
    exact congrArg (s.model.summary ∪ ·) (Summary.union_empty _).symm

/-- Every class that was defined is in the model at the end. -/
theorem classContent?_eq (h : Gains s log s') {e : Event} (he : e ∈ log) {d : ClassDefinition}
    (hd : e.result = .ok d) (hproper : d.proper = d) :
    s'.model.classContent? d.name = some d.content := by
  have hmem : d ∈ log.filterMap Event.imported? := by
    refine List.mem_filterMap.mpr ⟨e, he, ?_⟩
    rw [Event.imported?, hd]
  have hdefinition : d ∈ d.summary.definitions := by
    rw [ClassDefinition.summary, hproper]
    rfl
  show d ∈ s'.model.summary.definitions
  rw [h.summary]
  exact .inr (Summary.mem_definitions_join (List.mem_map_of_mem hmem) hdefinition)

end Gains

/-- The scan goes from one state to another with these events. -/
inductive Run : Scan → List Event → Scan → Prop
  | done {s} : Run s [] s
  /-- An archive or a class file becomes an artifact. Its parent is already there. -/
  | opened {s s' artifact log} : (∀ parent, artifact.parent = some parent →
      parent < s.artifacts.length) → Run (s.addArtifact artifact) log s' → Run s log s'
  | failed {s s' place location message log} : Run (s.fail location message) log s' →
      Run s (⟨place, location, .error message⟩ :: log) s'
  | imported {s s' place location d i m log} : s.model.define d = (.ok i, m) →
      Run { s with model := m, classCount := s.classCount + 1 } log s' →
      Run s (⟨place, location, .ok d⟩ :: log) s'

namespace Run

variable {s s' s'' : Scan} {log log' : List Event}

theorem trans (h : Run s log s') (h' : Run s' log' s'') : Run s (log ++ log') s'' := by
  induction h with
  | done => exact h'
  | opened hparent _ ih => exact .opened hparent (ih h')
  | failed _ ih => exact .failed (ih h')
  | imported hdefine _ ih => exact .imported hdefine (ih h')

/-- Where the events happened makes no difference to the run. -/
theorem under (h : Run s log s') (i : Nat) : Run s (log.map (Event.under i)) s' := by
  induction h with
  | done => exact .done
  | opened hparent _ ih => exact .opened hparent ih
  | failed _ ih => exact .failed ih
  | imported hdefine _ ih => exact .imported hdefine ih

theorem gains (h : Run s log s') (hs : s.model.Settled) : Gains s log s' := by
  induction h with
  | done => exact .refl hs
  | opened _ _ ih => exact (Gains.addArtifact hs _).trans (ih hs)
  | failed _ ih => exact (Gains.fail hs ..).trans (ih hs)
  | imported hdefine _ ih => exact (Gains.define hs _ _ hdefine).trans (ih (hs.define hdefine).1)

theorem length_artifacts_le (h : Run s log s') : s.artifacts.length ≤ s'.artifacts.length := by
  induction h with
  | done => exact Nat.le_refl _
  | opened _ _ ih =>
    rw [addArtifact, List.length_append] at ih
    omega
  | failed _ ih | imported _ _ ih => exact ih

end Run

/-- Every parent is the place of an artifact. -/
def ParentsInRange (artifacts : List Artifact) : Prop :=
  ∀ a ∈ artifacts, ∀ parent, a.parent = some parent → parent < artifacts.length

theorem Run.parentsInRange {s s' : Scan} {log : List Event} (h : Run s log s')
    (hs : ParentsInRange s.artifacts) : ParentsInRange s'.artifacts := by
  induction h with
  | done => exact hs
  | opened hparent _ ih =>
    apply ih
    intro a ha parent hp
    rw [addArtifact, List.length_append]
    rcases List.mem_append.mp ha with ha | ha
    · exact Nat.lt_add_right _ (hs a ha parent hp)
    · rw [List.mem_singleton.mp ha] at hp
      exact Nat.lt_add_right _ (hparent parent hp)
  | failed _ ih | imported _ _ ih => exact ih hs

/-- A class is defined and counted, or it is refused and the scan stays as it is. -/
theorem importClass_cases {s : Scan} (h : s.model.Settled) (data : ByteArray) (location : String) :
    (∃ d i m, ClassDefinition.ofBytes data.data.toList = .ok d ∧ s.model.define d = (.ok i, m) ∧
      s.importClass data location =
        (.ok (), { s with model := m, classCount := s.classCount + 1 })) ∨
    ∃ e, s.importClass data location = (.error e, s) := by
  unfold importClass Model.importClass
  cases hd : ClassDefinition.ofBytes data.data.toList with
  | error cause => exact .inr ⟨_, rfl⟩
  | ok d =>
    obtain ⟨c, -, -, ⟨-, he⟩ | ⟨-, -, -, he⟩ | ⟨-, -, -, he⟩⟩ := h.coherent.define_cases d
    · exact .inl ⟨d, _, _, rfl, he, by simp only [he]⟩
    · exact .inl ⟨d, _, _, rfl, he, by simp only [he]⟩
    · refine .inr ⟨.refused (.conflict ⟨d.name⟩), ?_⟩
      simp only [he]

/-- Two lists of artifacts as one. The parents in the second one move with it. -/
def join (xs ys : List Artifact) : List Artifact :=
  xs ++ ys.map (Artifact.rename (· + xs.length))

theorem append_eq_ok_iff {s s' part : Scan} : s.append part = .ok s' ↔
    s.model.mergeModel part.model = .ok s'.model ∧
      s'.artifacts = join s.artifacts part.artifacts ∧
      s'.classCount = s.classCount + part.classCount ∧
      s'.failures = s.failures ++ part.failures := by
  rw [append, Model.mergeModel]
  rcases s.model.merge part.model with ⟨_ | _, m⟩
  · constructor
    · intro h
      cases h
    · rintro ⟨h, -⟩
      cases h
  · rw [Except.ok.injEq, Except.ok.injEq]
    constructor
    · rintro rfl
      exact ⟨rfl, rfl, rfl, rfl⟩
    · rintro ⟨rfl, hartifacts, hcount, hfailures⟩
      show _ = (⟨s'.model, s'.artifacts, s'.classCount, s'.failures⟩ : Scan)
      rw [hartifacts, hcount, hfailures]
      rfl

/-- What was gained apart is gained together. -/
theorem Gains.append {s s' part : Scan} {log : List Event} (hs : s.model.Settled)
    (hpart : Gains empty log part) (h : s.append part = .ok s') : Gains s log s' := by
  obtain ⟨hmodel, -, hcount, hfailures⟩ := append_eq_ok_iff.mp h
  obtain ⟨hm, hsummary⟩ := hs.merge hpart.settled.coherent (Model.mergeModel_eq_ok_iff.mp hmodel)
  have hempty : Model.empty.summary = ∅ := Model.summary_empty
  constructor
  · rw [hfailures, hpart.failures]
    rfl
  · rw [hcount, hpart.classCount]
    exact congrArg _ (Nat.zero_add _)
  · exact hm
  · rw [hsummary, hpart.summary]
    show _ ∪ (Model.empty.summary ∪ _) = _
    rw [hempty, Summary.empty_union]

end Scan

end ClassDeps
