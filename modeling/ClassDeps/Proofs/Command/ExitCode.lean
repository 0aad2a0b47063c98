import ClassDeps.Archive.Zip
import ClassDeps.Command.Run
import ClassDeps.Proofs.Report.Findings
import ClassDeps.Proofs.Traverse

namespace ClassDeps

namespace Options

variable {o o' : Options} {pending : Pending} {text : String}

theorem ofText_failOnFindings_iff :
    Word.ofText text = .long "fail-on-findings" none ↔ text = "--fail-on-findings" := by
  constructor
  · intro h
    unfold Word.ofText at h
    split at h
    · cases h
    · rename_i rest _ htext
      split at h
      · simp at h
      · rw [Word.long.injEq] at h
        have hrest : rest = "fail-on-findings".toList := by rw [← h.1, String.toList_ofList]
        rw [← String.toList_inj, htext, hrest]
        rfl
    · cases h
    · cases h
  · rintro rfl
    decide

theorem name?_eq_failOnFindings_iff {name : String} :
    name? name = some (.flag .failOnFindings) ↔ name = "fail-on-findings" := by
  constructor
  · intro h
    unfold name? at h
    split at h
    case h_6 => rfl
    all_goals cases h
  · rintro rfl
    rfl

/-- The options after a word: the flag is set if it was before or the word sets it. Where the
command line ends early there is nothing to run. -/
def Follows (o : Options) (sets : Prop) : Except Request Options → Prop
  | .ok o' => o'.failOnFindings = true ↔ o.failOnFindings = true ∨ sets
  | .error request => ∀ o', request ≠ .run o'

theorem follows_addInput : o.Follows False (o.addInput text) := by
  unfold addInput
  split <;> simp [Follows]

theorem follows_set {slot : Slot} : o.Follows False (o.set text slot) := by
  have honce {α : Type} (old new : Option α) (f : Option α → Options)
      (hf : ∀ a, (f a).failOnFindings = o.failOnFindings) :
      o.Follows False (once old new >>= fun a => pure (f a)) := by
    unfold once
    split
    · exact fun _ => Request.noConfusion
    · simp [Follows, bind, Except.bind, pure, Except.pure, hf]
  cases slot with
  | policy => exact honce _ _ _ fun _ => rfl
  | output => exact honce _ _ _ fun _ => rfl
  | cycles => exact honce _ _ _ fun _ => rfl
  | otel => exact honce _ _ _ fun _ => rfl

theorem follows_raise {flag : Flag} : o.Follows (flag = .failOnFindings) (o.raise flag) := by
  cases flag with
  | failOnFindings | quiet | timing =>
    simp only [raise]
    split <;> simp [Follows]
  | version | help => exact fun _ => Request.noConfusion

theorem map_fst_bind {x : Except Request Options} :
    (x >>= fun o => pure (o, pending)).map Prod.fst = x := by
  cases x <;> rfl

/-- A word sets the flag only if it names it. -/
theorem follows_take (o : Options) (pending : Pending) (word : Word) :
    o.Follows (word = .long "fail-on-findings" none) ((o.take pending word).map Prod.fst) := by
  cases word with
  | stop => exact fun _ => Request.noConfusion
  | short letter =>
    simp only [take]
    split
    · exact fun _ => Request.noConfusion
    · split <;> exact fun _ => Request.noConfusion
  | value text =>
    simp only [reduceCtorEq]
    cases pending with
    | nothing => exact fun _ => Request.noConfusion
    | inputs given =>
      simp only [take, map_fst_bind]
      exact follows_addInput
    | slot s =>
      simp only [take, map_fst_bind]
      exact follows_set
  | long name value =>
    simp only [take]
    split
    · exact fun _ => Request.noConfusion
    · rw [Word.long.injEq, ← name?_eq_failOnFindings_iff]
      split
      case h_1 hname => simp [Follows, Except.map, hname]
      case h_2 hname =>
        rw [map_fst_bind]
        simpa [hname] using follows_addInput
      case h_3 hname => simp [Follows, Except.map, hname]
      case h_4 hname =>
        rw [map_fst_bind]
        simpa [hname] using follows_set
      case h_5 hname =>
        rw [map_fst_bind]
        simpa [hname] using follows_raise
      case h_6 => exact fun _ => Request.noConfusion
      case h_7 => exact fun _ => Request.noConfusion

theorem finish_eq_run_iff : o.finish pending = .run o' ↔
    pending.isDone = true ∧ o.inputs ≠ [] ∧ o = o' := by
  unfold finish
  split <;> simp_all

theorem read_failOnFindings {words : List String} (h : o.read pending words = .run o') :
    o'.failOnFindings = true ↔ o.failOnFindings = true ∨ "--fail-on-findings" ∈ words := by
  induction words generalizing o pending with
  | nil => simp [(finish_eq_run_iff.mp h).2.2]
  | cons text words ih =>
    rw [List.mem_cons, eq_comm (a := "--fail-on-findings"), ← ofText_failOnFindings_iff]
    unfold read at h
    split at h
    case h_1 hstop =>
      -- the end of the options is the last word
      split at h
      case isTrue hlast =>
        simp [(finish_eq_run_iff.mp h).2.2, List.isEmpty_iff.mp hlast, hstop]
      case isFalse => cases h
    case h_2 =>
      have hfollows := o.follows_take pending (Word.ofText text)
      split at h
      case h_1 o₁ _ htake =>
        rw [htake] at hfollows
        have hset : o₁.failOnFindings = true ↔ _ := hfollows
        rw [ih h, hset, or_assoc]
      case h_2 htake =>
        rw [htake] at hfollows
        exact absurd h (hfollows o')

end Options

theorem Request.ofArguments_failOnFindings {words : List String} {o : Options}
    (h : Request.ofArguments words = .run o) :
    o.failOnFindings = true ↔ "--fail-on-findings" ∈ words := by
  rw [Options.read_failOnFindings h]
  simp [Options.initial]

/-- What a run writes, to a file or to standard output. -/
def Outcome.written (x : Outcome) : String :=
  match x.file with
  | some (_, text) => text
  | none => x.stdout

/-- The output can be opened if it is a file. -/
def Options.Writable (o : Options) (host : Host) : Prop :=
  ∀ path, o.output = some path → Path.components path ≠ ["-"] → host.canCreate path = .ok ()

/-- The run comes to an evaluation of what it scanned. -/
structure Options.Evaluates (o : Options) (host : Host) (policy : Policy) (scan : Scan)
    (e : Evaluation) : Prop where
  collect : o.collect host = some (.ok (policy, scan))
  evaluate : policy.evaluate scan.model = .ok e

def Scan.report (scan : Scan) (policy : Policy) (e : Evaluation) : Report where
  subjectCount := policy.subjects.length
  scan := scan
  findings := findings policy.cycleMode e scan.failures

variable {host : Host} {durations : Durations} {o : Options} {policy : Policy} {scan : Scan}
  {e : Evaluation} {report : Report} {outcome : Outcome}

@[simp] theorem Outcome.written_ofError (error : RunError) : (ofError error).written = "" := rfl

theorem judge_eq_ok_iff : scan.judge policy = .ok report ↔
    ∃ e, policy.evaluate scan.model = .ok e ∧ scan.report policy e = report := by
  unfold Scan.judge
  rw [bind_eq_ok_iff]
  cases policy.evaluate scan.model with
  | error _ => simp [Except.mapError]
  | ok e => simp [Except.mapError, pure, Except.pure, Scan.report]

theorem Options.Evaluates.run_eq (h : o.Evaluates host policy scan e) :
    o.run host durations = some (.ofReport (scan.report policy e) o host durations) := by
  have hjudge : scan.judge policy = .ok (scan.report policy e) :=
    judge_eq_ok_iff.mpr ⟨e, h.evaluate, rfl⟩
  have hreport : (.ok (policy, scan) >>= fun (p : Policy × Scan) => p.2.judge p.1) =
      Except.ok (scan.report policy e) := hjudge
  rw [Options.run, h.collect, Option.bind_eq_bind, Option.bind_some, hreport]
  rfl

/-- A run that fails writes nothing. -/
theorem Options.exists_evaluates_of_written (h : o.run host durations = some outcome)
    (hwritten : outcome.written ≠ "") : ∃ policy scan e, o.Evaluates host policy scan e := by
  obtain ⟨collected, hcollect, houtcome⟩ := Option.bind_eq_some_iff.mp h
  split at houtcome
  case h_1 report hreport =>
    obtain ⟨⟨policy, scan⟩, rfl, hjudge⟩ := bind_eq_ok_iff.mp hreport
    obtain ⟨e, he, -⟩ := judge_eq_ok_iff.mp hjudge
    exact ⟨policy, scan, e, hcollect, he⟩
  case h_2 =>
    cases houtcome
    exact absurd (Outcome.written_ofError _) hwritten

theorem Outcome.ofReport_of_writable (h : o.Writable host) :
    (ofReport report o host durations).written = (report.json o host durations).pretty ++ "\n" ∧
      (ofReport report o host durations).exitCode = report.exitCode o := by
  unfold ofReport
  cases hfilter : o.output.filter fun path => Path.components path ≠ ["-"] with
  | none => exact ⟨rfl, rfl⟩
  | some path =>
    obtain ⟨houtput, hdash⟩ := Option.filter_eq_some_iff.mp hfilter
    dsimp only
    rw [h path houtput (of_decide_eq_true hdash)]
    exact ⟨rfl, rfl⟩

theorem Outcome.writable_of_ofReport (h : (ofReport report o host durations).written ≠ "") :
    o.Writable host := by
  intro path houtput hdash
  have hfilter : (o.output.filter fun path => Path.components path ≠ ["-"]) = some path :=
    Option.filter_eq_some_iff.mpr ⟨houtput, decide_eq_true hdash⟩
  unfold ofReport at h
  rw [hfilter] at h
  cases hcreate : host.canCreate path with
  | ok _ => rfl
  | error error =>
    simp only [hcreate] at h
    exact absurd (written_ofError _) h

/-- Something was found. -/
def AnyFound (e : Evaluation) (failures : List ScanFailure) : Prop :=
  e.violations ≠ [] ∨ e.unusedRules ≠ [] ∨ e.cycles ≠ [] ∨ e.emptySubjects ≠ [] ∨ failures ≠ []

theorem exitCode_report : (scan.report policy e).exitCode o = 1 ∧
      (o.failOnFindings = true ∧ AnyFound e scan.failures) ∨
    (scan.report policy e).exitCode o = 0 ∧
      ¬(o.failOnFindings = true ∧ AnyFound e scan.failures) := by
  have hfound : ¬(scan.report policy e).findings = [] ↔ AnyFound e scan.failures := by
    change ¬findings policy.cycleMode e scan.failures = [] ↔ _
    rw [Found.findings_eq_nil_iff, AnyFound]
    tauto
  rw [← hfound, Report.exitCode]
  split <;> simp_all

/-- A report has one finding for each thing that was found, sorted by the ids of the rules and the
messages, and its run fails only if that is asked for and something was found. A run writes its
report if it comes to an evaluation. -/
theorem report_complete :
    (∀ mode e failures, ∃ order : List Found,
      order.Perm (Found.all e failures) ∧
      findings mode e failures = order.map (Found.finding mode) ∧
      order.Pairwise Found.Before ∧
      ∀ k, order.filter (·.key = k) = (Found.all e failures).filter (·.key = k)) ∧
    ∀ host durations o, Request.ofArguments (host.arguments.drop 1) = .run o →
      ((∃ outcome, run host durations = some outcome ∧ outcome.written ≠ "") ↔
        o.Writable host ∧ ∃ policy scan e, o.Evaluates host policy scan e) ∧
      ∀ policy scan e, o.Evaluates host policy scan e →
        ∃ outcome, run host durations = some outcome ∧ (outcome.written ≠ "" →
          outcome.written = ((scan.report policy e).json o host durations).pretty ++ "\n" ∧
          (outcome.exitCode = 1 ↔
            "--fail-on-findings" ∈ host.arguments.drop 1 ∧ AnyFound e scan.failures) ∧
          (outcome.exitCode = 0 ↔
            ¬("--fail-on-findings" ∈ host.arguments.drop 1 ∧ AnyFound e scan.failures))) := by
  refine ⟨fun mode e failures => ⟨Found.sorted e failures, Found.sorted_perm, Found.findings_eq,
    Found.sorted_pairwise, Found.sorted_filter_key⟩, ?_⟩
  intro host durations o ho
  have hrun : run host durations = o.run host durations := by rw [run, ho]
  rw [hrun]
  refine ⟨⟨?_, ?_⟩, ?_⟩
  · rintro ⟨outcome, houtcome, hwritten⟩
    obtain ⟨policy, scan, e, h⟩ := Options.exists_evaluates_of_written houtcome hwritten
    cases h.run_eq.symm.trans houtcome
    exact ⟨Outcome.writable_of_ofReport hwritten, policy, scan, e, h⟩
  · rintro ⟨hwritable, policy, scan, e, h⟩
    refine ⟨_, h.run_eq, ?_⟩
    rw [(Outcome.ofReport_of_writable hwritable).1]
    simp
  · intro policy scan e h
    refine ⟨_, h.run_eq, fun hwritten => ?_⟩
    have hwritable := Outcome.writable_of_ofReport hwritten
    obtain ⟨htext, hcode⟩ := Outcome.ofReport_of_writable hwritable
    rw [hcode, ← Request.ofArguments_failOnFindings ho]
    refine ⟨htext, ?_⟩
    rcases exitCode_report with ⟨hone, hfound⟩ | ⟨hzero, hnone⟩
    · rw [hone]
      simp [hfound]
    · rw [hzero]
      simp [hnone]

/-- A host with one input, which is no archive though it is named like one. -/
def gateHost : Host where
  files := (FileTree.ofFiles [("x.jar", ⟨#[]⟩)]).system "/"
  canCreate _ := .ok ()
  unzip := Zip.unzip
  arguments := ["classgate", "--input", "x.jar", "--fail-on-findings"]
  traceId := ""

def gateOptions : Options := { Options.initial with inputs := ["x.jar"], failOnFindings := true }

theorem report_complete_gate :
    Request.ofArguments (gateHost.arguments.drop 1) = .run gateOptions ∧
      ∃ policy scan e outcome, gateOptions.Evaluates gateHost policy scan e ∧
        AnyFound e scan.failures ∧ run gateHost ⟨0, 0, 0⟩ = some outcome ∧
        outcome.written ≠ "" ∧ outcome.exitCode = 1 := by
  have hrequest : Request.ofArguments (gateHost.arguments.drop 1) = .run gateOptions := by
    decide
  have hresult : ((gateOptions.collect gateHost).bind fun collected =>
      collected.toOption.bind fun p =>
        (p.1.evaluate p.2.model).toOption.map fun _ => p.2.failures.isEmpty) = some false := by
    decide
  obtain ⟨collected, hcollect, hresult⟩ := Option.bind_eq_some_iff.mp hresult
  rcases collected with _ | ⟨policy, scan⟩
  · cases hresult
  obtain ⟨e, he, hfailures⟩ := Option.map_eq_some_iff.mp hresult
  have hevaluates : gateOptions.Evaluates gateHost policy scan e := by
    refine ⟨hcollect, ?_⟩
    cases hevaluate : policy.evaluate scan.model with
    | error _ => simp [hevaluate, Except.toOption] at he
    | ok _ => simp_all [Except.toOption]
  have hfound : AnyFound e scan.failures := by
    simp_all [AnyFound]
  obtain ⟨hwrites, hreport⟩ := report_complete.2 gateHost ⟨0, 0, 0⟩ gateOptions hrequest
  obtain ⟨outcome, houtcome, hwritten⟩ :=
    hwrites.mpr ⟨fun _ _ _ => rfl, policy, scan, e, hevaluates⟩
  obtain ⟨_, hsame, hcodes⟩ := hreport policy scan e hevaluates
  cases houtcome.symm.trans hsame
  obtain ⟨-, hone, -⟩ := hcodes hwritten
  exact ⟨hrequest, policy, scan, e, outcome, hevaluates, hfound, houtcome, hwritten,
    hone.mpr ⟨by decide, hfound⟩⟩

end ClassDeps
