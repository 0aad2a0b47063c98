import Mathlib.Data.List.Perm.Basic
import Mathlib.Data.String.Basic
import ClassDeps.Report.Basic

namespace ClassDeps

/-- A thing that is reported. -/
inductive Found where
  | cycle (cycle : Cycle)
  | violation (violation : Violation)
  | emptySubject (name : String)
  | failure (failure : ScanFailure)
  | unusedRule (rule : UnusedRule)

namespace Found

/-- All that an evaluation and a scan found, in that order. -/
def all (e : Evaluation) (failures : List ScanFailure) : List Found :=
  e.cycles.map cycle ++ e.violations.map violation ++ e.emptySubjects.map emptySubject ++
    failures.map failure ++ e.unusedRules.map unusedRule

def rule : Found → Rule
  | cycle _ => .dependencyCycle
  | violation _ => .dependencyViolation
  | emptySubject _ => .emptySubject
  | failure _ => .unreadableInput
  | unusedRule _ => .unusedRule

def message : Found → String
  | cycle c => c.text
  | violation v =>
    if v.kind = .forbidden then v.text ++ "; remove the reference."
    else v.text ++ "; declare the dependency or remove the reference."
  | emptySubject name => "Subject " ++ name ++ " matches no analyzed class; check its pattern."
  | failure f => "Skipped " ++ f.location ++ ": " ++ f.message
  | unusedRule r => r.text ++ "; drop the rule."

def places (mode : CycleMode) : Found → List Place
  | cycle c => c.members.map (if mode = .subjects then .subject else .package)
  | violation v => [.classNamed v.edge.source, .classNamed v.edge.target]
  | emptySubject name => [.subject name]
  | failure f => [.input f.location]
  | unusedRule r => [.subject r.subject]

def finding (mode : CycleMode) (x : Found) : Finding := ⟨x.rule, x.message, x.places mode⟩

/-- What a report is sorted by. -/
def key (x : Found) : String × String := (x.rule.id, x.message)

/-- By id, then by message. -/
def Before (x y : Found) : Prop :=
  x.key.1 < y.key.1 ∨ x.key.1 = y.key.1 ∧ x.key.2 ≤ y.key.2

instance : DecidableRel Before := fun x y => by
  unfold Before
  infer_instance

variable {mode : CycleMode} {e : Evaluation} {failures : List ScanFailure} {x y : Found}

theorem decide_before_trans (x y z : Found) (hxy : decide (x.Before y) = true)
    (hyz : decide (y.Before z) = true) : decide (x.Before z) = true := by
  refine decide_eq_true ?_
  rcases of_decide_eq_true hxy with hxy | ⟨hxy, hxy'⟩ <;>
    rcases of_decide_eq_true hyz with hyz | ⟨hyz, hyz'⟩
  · exact .inl (hxy.trans hyz)
  · exact .inl (hyz ▸ hxy)
  · exact .inl (hxy ▸ hyz)
  · exact .inr ⟨hxy.trans hyz, hxy'.trans hyz'⟩

theorem decide_before_total (x y : Found) :
    (decide (x.Before y) || decide (y.Before x)) = true := by
  rw [Bool.or_eq_true, decide_eq_true_iff, decide_eq_true_iff]
  rcases lt_trichotomy x.key.1 y.key.1 with hlt | heq | hgt
  · exact .inl (.inl hlt)
  · rcases le_total x.key.2 y.key.2 with hle | hle
    · exact .inl (.inr ⟨heq, hle⟩)
    · exact .inr (.inr ⟨heq.symm, hle⟩)
  · exact .inr (.inl hgt)

theorem before_of_key_eq (h : x.key = y.key) : x.Before y :=
  .inr ⟨congrArg Prod.fst h, (congrArg Prod.snd h).le⟩

/-- What was found, in the order of a report. -/
def sorted (e : Evaluation) (failures : List ScanFailure) : List Found :=
  (all e failures).mergeSort fun x y => x.Before y

theorem sorted_perm : (sorted e failures).Perm (all e failures) := List.mergeSort_perm ..

theorem sorted_pairwise : (sorted e failures).Pairwise Before := by
  have h := List.pairwise_mergeSort decide_before_trans decide_before_total (all e failures)
  exact h.imp of_decide_eq_true

/-- Things with the same id and message stay in the order they were found in. -/
theorem sorted_filter_key (k : String × String) :
    (sorted e failures).filter (·.key = k) = (all e failures).filter (·.key = k) := by
  have hequal : ((all e failures).filter (·.key = k)).Pairwise fun x y => decide (x.Before y) := by
    refine List.pairwise_of_forall_mem_list fun x hx y hy => ?_
    have hxk : x.key = k := by simpa using List.of_mem_filter hx
    have hyk : y.key = k := by simpa using List.of_mem_filter hy
    exact decide_eq_true (before_of_key_eq (hxk.trans hyk.symm))
  have hsub : ((all e failures).filter (·.key = k)).Sublist (sorted e failures) :=
    List.sublist_mergeSort decide_before_trans decide_before_total hequal List.filter_sublist
  have hfilter := hsub.filter fun x => x.key = k
  simp only [List.filter_filter, Bool.and_self] at hfilter
  exact (hfilter.eq_of_length (sorted_perm.filter _).length_eq.symm).symm

theorem collect_eq : Finding.collect mode e failures = (all e failures).map (finding mode) := by
  have hviolation : Finding.ofViolation = finding mode ∘ violation := by
    funext v
    rcases v with ⟨_, _, _, _ | _⟩ <;> rfl
  simp only [Finding.collect, all, List.map_append, List.map_map, hviolation]
  rfl

/-- One finding is reported for each thing that was found. -/
theorem findings_eq : findings mode e failures = (sorted e failures).map (finding mode) := by
  rw [findings, collect_eq, sorted]
  refine (List.map_mergeSort fun x _ y _ => ?_).symm
  rw [Bool.eq_iff_iff, decide_eq_true_iff]
  simp only [Finding.before, Bool.or_eq_true, Bool.and_eq_true, decide_eq_true_iff]
  exact Iff.rfl

theorem findings_eq_nil_iff : findings mode e failures = [] ↔
    e.cycles = [] ∧ e.violations = [] ∧ e.emptySubjects = [] ∧ failures = [] ∧
      e.unusedRules = [] := by
  rw [findings_eq, List.map_eq_nil_iff, ← List.length_eq_zero_iff, sorted_perm.length_eq,
    List.length_eq_zero_iff]
  simp [all]

end Found

end ClassDeps
