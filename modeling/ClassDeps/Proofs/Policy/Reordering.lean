import ClassDeps.Proofs.Policy.ByName

namespace ClassDeps.Policy

variable {default : Access} {declarations declarations' : List Declaration} {p p' : Policy}
  {m : Model}

/-- The same declarations in another order, relations as often as one likes. Modes may stand in any
order in which the last one, which counts, is the same. -/
structure Reordered (declarations declarations' : List Declaration) : Prop where
  others : (declarations.filter (·.relation?.isNone)).Perm
    (declarations'.filter (·.relation?.isNone))
  relations : ∀ d : Declaration, d.relation?.isSome → (d ∈ declarations ↔ d ∈ declarations')
  mode : (declarations.filterMap Declaration.mode?).getLast? =
    (declarations'.filterMap Declaration.mode?).getLast?

/-- Declarations that are moved about, with some of the relations repeated. -/
theorem reordered_of_perm (repeated : List Declaration)
    (hperm : declarations'.Perm (declarations ++ repeated))
    (hrepeated : ∀ d ∈ repeated, d ∈ declarations ∧ d.relation?.isSome)
    (hmode : (declarations.filterMap Declaration.mode?).getLast? =
      (declarations'.filterMap Declaration.mode?).getLast?) :
    Reordered declarations declarations' where
  others := by
    have hnone : repeated.filter (·.relation?.isNone) = [] := by
      rw [List.filter_eq_nil_iff]
      intro d hd
      simp [Option.isSome_iff_ne_none.mp (hrepeated d hd).2]
    have hfilter := hperm.filter (·.relation?.isNone)
    rw [List.filter_append, hnone, List.append_nil] at hfilter
    exact hfilter.symm
  relations := by
    intro d _
    rw [hperm.mem_iff, List.mem_append]
    exact ⟨.inl, fun h => h.elim id fun hd => (hrepeated d hd).1⟩
  mode := hmode

namespace Reordered

variable {γ : Type} {select : Declaration → Option γ}

/-- What is selected from the other declarations comes in another order. -/
theorem selected_perm (h : Reordered declarations declarations')
    (hselect : ∀ d, (select d).isSome → d.relation?.isNone) :
    (declarations.filterMap select).Perm (declarations'.filterMap select) := by
  have hfilter : ∀ ds : List Declaration,
      ds.filterMap select = (ds.filter (·.relation?.isNone)).filterMap select := by
    intro ds
    rw [List.filterMap_filter]
    apply List.filterMap_congr
    intro d _
    cases hd : select d with
    | none => simp
    | some x => rw [if_pos (hselect d (by rw [hd]; rfl))]
  rw [hfilter, hfilter declarations']
  exact h.others.filterMap select

/-- What is selected from the relations is the same. -/
theorem mem_selected_iff (h : Reordered declarations declarations')
    (hselect : ∀ d, (select d).isSome → d.relation?.isSome) {x : γ} :
    x ∈ declarations.filterMap select ↔ x ∈ declarations'.filterMap select := by
  simp only [List.mem_filterMap]
  refine exists_congr fun d => and_congr_left fun hd => h.relations d (hselect d ?_)
  rw [hd]
  rfl

theorem compileSubject_eq (h : Reordered declarations declarations') :
    compileSubject declarations = compileSubject declarations' :=
  compileSubject_congr (fun _ _ => h.relations _ rfl) fun _ _ => h.relations _ rfl

end Reordered

/-- Two policies that differ in the order of their parts only. -/
structure SameRules (p p' : Policy) : Prop where
  default : p.default = p'.default
  subjects : p.subjects.Perm p'.subjects
  externals : p.externals.Perm p'.externals
  cycleMode : p.cycleMode = p'.cycleMode
  cycleExclusions : p.cycleExclusions.Perm p'.cycleExclusions

theorem exists_build_of_reordered (h : Reordered declarations declarations')
    (hp : build default declarations = .ok p) :
    ∃ p', build default declarations' = .ok p' ∧ p.SameRules p' := by
  obtain ⟨hdefault, hsubjects, hrelations, hexternals, hexclusions, hmode⟩ :=
    build_eq_ok_iff.mp hp
  obtain ⟨hnodup, -, hcompiled⟩ := buildSubjects_eq_ok_iff.mp hsubjects
  have hentries : (declarations.filterMap Declaration.subject?).Perm
      (declarations'.filterMap Declaration.subject?) := h.selected_perm (by
    intro d
    cases d <;> simp [Declaration.subject?, Declaration.relation?])
  have hexternal : (declarations.filterMap Declaration.external?).Perm
      (declarations'.filterMap Declaration.external?) := h.selected_perm (by
    intro d
    cases d <;> simp [Declaration.external?, Declaration.relation?])
  have hexclude : (declarations.filterMap Declaration.exclude?).Perm
      (declarations'.filterMap Declaration.exclude?) := h.selected_perm (by
    intro d
    cases d <;> simp [Declaration.exclude?, Declaration.relation?])
  rw [h.compileSubject_eq] at hcompiled
  obtain ⟨subjects, hcompiled', hsubjects'⟩ := exists_mapM_eq_ok_of_perm hentries hcompiled
  obtain ⟨externals, hexternals', hpexternals⟩ := exists_mapM_eq_ok_of_perm hexternal hexternals
  obtain ⟨exclusions, hexclusions', hpexclusions⟩ :=
    exists_mapM_eq_ok_of_perm hexclude hexclusions
  refine ⟨⟨default, subjects, externals, p.cycleMode, exclusions⟩, build_eq_ok_iff.mpr
    ⟨rfl, ?_, ?_, hexternals', hexclusions', ?_⟩,
    ⟨hdefault, hsubjects', hpexternals, rfl, hpexclusions⟩⟩
  · refine buildSubjects_eq_ok_iff.mpr ⟨(hentries.map _).nodup_iff.mp hnodup, ?_, hcompiled'⟩
    exact fun _ _ => List.not_mem_nil
  · intro r hr
    have hr' := hrelations r ((h.mem_selected_iff fun _ => id).mpr hr)
    have hnames := hsubjects'.map (·.name)
    exact ⟨hnames.mem_iff.mp hr'.1, hnames.mem_iff.mp hr'.2⟩
  · rw [hmode, h.mode]

namespace SameRules

theorem symm (h : p.SameRules p') : p'.SameRules p :=
  ⟨h.default.symm, h.subjects.symm, h.externals.symm, h.cycleMode.symm, h.cycleExclusions.symm⟩

theorem matching_perm (h : p.SameRules p') (name : String) :
    (p.matching name).Perm (p'.matching name) :=
  h.subjects.filter _

theorem isExternal_eq (h : p.SameRules p') (name : String) :
    p.isExternal name = p'.isExternal name :=
  h.externals.any_eq

theorem place_eq_ok (h : p.SameRules p') {name : String} {defined : Bool} {x : Placement}
    (hx : p.place name defined = .ok x) : p'.place name defined = .ok x := by
  have hperm := h.matching_perm name
  rw [place] at hx
  split at hx
  case h_1 s hs =>
    have hmatching : p.matching name = [s] := hs
    cases hx
    rw [hmatching, List.singleton_perm] at hperm
    exact place_eq_ok_subject_iff.mpr hperm.symm
  case h_2 hs =>
    have hmatching : p.matching name = [] := hs
    rw [hmatching, List.nil_perm] at hperm
    rw [matching] at hperm
    rw [place, hperm, ← h.isExternal_eq]
    exact hx
  case h_3 => cases hx

theorem place_eq_ok_iff (h : p.SameRules p') {name : String} {defined : Bool} {x : Placement} :
    p.place name defined = .ok x ↔ p'.place name defined = .ok x :=
  ⟨h.place_eq_ok, h.symm.place_eq_ok⟩

theorem placements_eq_ok_iff (h : p.SameRules p') {placed : Std.ExtTreeMap ClassId Placement} :
    p.placements m = .ok placed ↔ p'.placements m = .ok placed := by
  have hempty : p.subjects.isEmpty = p'.subjects.isEmpty := by
    rw [Bool.eq_iff_iff, List.isEmpty_iff_length_eq_zero, List.isEmpty_iff_length_eq_zero,
      h.subjects.length_eq]
  simp only [placements, bind_eq_ok_iff, hempty]
  refine exists_congr fun l => and_congr_left fun _ => mapM_eq_ok_congr fun c _ y => ?_
  simp only [bind_eq_ok_iff, h.place_eq_ok_iff]

theorem placeTarget_eq_ok_iff (h : p.SameRules p') {placed : Std.ExtTreeMap ClassId Placement}
    {i : ClassId} {c : ClassNode} {r : Option Placement} :
    p.placeTarget placed i c = .ok r ↔ p'.placeTarget placed i c = .ok r := by
  rw [placeTarget, placeTarget]
  split
  · rfl
  · split
    · rfl
    · simp only [map_eq_ok_iff, h.place_eq_ok_iff]

theorem edgesFrom_eq_ok_iff (h : p.SameRules p') {placed : Std.ExtTreeMap ClassId Placement}
    {i : ClassId} {source : Subject} {edges : List PlacedEdge} :
    p.edgesFrom m placed i source = .ok edges ↔ p'.edgesFrom m placed i source = .ok edges := by
  rw [edgesFrom, edgesFrom]
  split
  · rfl
  · simp only [bind_eq_ok_iff]
    refine exists_congr fun l => and_congr_left fun _ => mapM_eq_ok_congr fun used _ y => ?_
    split
    · rfl
    · simp only [bind_eq_ok_iff, h.placeTarget_eq_ok_iff]

theorem placedEdges_eq_ok_iff (h : p.SameRules p') {placed : Std.ExtTreeMap ClassId Placement}
    {edges : List PlacedEdge} :
    p.placedEdges m placed = .ok edges ↔ p'.placedEdges m placed = .ok edges := by
  simp only [placedEdges, bind_eq_ok_iff]
  refine exists_congr fun l => and_congr_left fun _ => mapM_eq_ok_congr fun entry _ y => ?_
  split
  · exact h.edgesFrom_eq_ok_iff
  · rfl

theorem violation?_eq (h : p.SameRules p') : p.violation? = p'.violation? := by
  funext e
  simp only [violation?, verdict, h.default]

theorem packageCycles_eq (h : p.SameRules p') (m : Model) :
    m.packageCycles p.cycleExclusions = m.packageCycles p'.cycleExclusions := by
  have hexcluded : Model.isExcluded p.cycleExclusions = Model.isExcluded p'.cycleExclusions := by
    funext package
    exact h.cycleExclusions.any_eq
  simp only [Model.packageCycles, Model.packageGraph, hexcluded]

theorem used_eq (h : p.SameRules p') : p.used = p'.used := by
  funext edges
  simp only [used, run_checkAll, h.violation?_eq]

theorem mem_unusedRules_iff (h : p.SameRules p') {used : Permissions} {r : UnusedRule} :
    r ∈ p.unusedRules used ↔ r ∈ p'.unusedRules used := by
  simp only [unusedRules, List.mem_flatMap, List.mem_filterMap, h.subjects.mem_iff]

theorem mem_emptySubjects_iff (h : p.SameRules p') {placed : Std.ExtTreeMap ClassId Placement}
    {name : String} : name ∈ p.emptySubjects placed ↔ name ∈ p'.emptySubjects placed := by
  simp only [emptySubjects, List.mem_filter, (h.subjects.map _).mem_iff]

end SameRules

/-- Two evaluations say the same, unused rules and empty subjects in any order. -/
structure SameFindings (e e' : Evaluation) : Prop where
  violations : e.violations = e'.violations
  cycles : e.cycles = e'.cycles
  unusedRules : ∀ r, r ∈ e.unusedRules ↔ r ∈ e'.unusedRules
  emptySubjects : ∀ name, name ∈ e.emptySubjects ↔ name ∈ e'.emptySubjects

theorem SameRules.report (h : p.SameRules p') (placed : Std.ExtTreeMap ClassId Placement)
    (edges : List PlacedEdge) :
    SameFindings (p.report m placed edges) (p'.report m placed edges) where
  violations := by rw [Policy.report, Policy.report, h.violation?_eq]
  cycles := by rw [Policy.report, Policy.report, h.cycleMode, h.packageCycles_eq]
  unusedRules _ := by rw [Policy.report, Policy.report, h.used_eq, h.mem_unusedRules_iff]
  emptySubjects _ := h.mem_emptySubjects_iff

theorem SameRules.exists_evaluate (h : p.SameRules p') {e : Evaluation}
    (he : p.evaluate m = .ok e) : ∃ e', p'.evaluate m = .ok e' ∧ SameFindings e e' := by
  obtain ⟨placed, edges, hplaced, hedges, rfl⟩ := evaluate_eq_ok_iff.mp he
  rw [h.placements_eq_ok_iff] at hplaced
  rw [h.placedEdges_eq_ok_iff] at hedges
  exact ⟨_, evaluate_eq_ok_iff.mpr ⟨placed, edges, hplaced, hedges, rfl⟩, h.report placed edges⟩

/-- Declarations that make a policy make one in every other order too, with relations repeated or
not. On every model both policies are refused or both are accepted, and then they find the same:
equal violations and cycles, the same unused rules and the same empty subjects. -/
theorem evaluate_reordered (hp : build default declarations = .ok p)
    (h : Reordered declarations declarations') :
    ∃ p', build default declarations' = .ok p' ∧ ∀ m : Model,
      ((∃ err, p.evaluate m = .error err) ↔ ∃ err, p'.evaluate m = .error err) ∧
      ∀ e e', p.evaluate m = .ok e → p'.evaluate m = .ok e' →
        e.violations = e'.violations ∧ e.cycles = e'.cycles ∧
        (∀ r, r ∈ e.unusedRules ↔ r ∈ e'.unusedRules) ∧
        ∀ name, name ∈ e.emptySubjects ↔ name ∈ e'.emptySubjects := by
  obtain ⟨p', hp', hrules⟩ := exists_build_of_reordered h hp
  refine ⟨p', hp', fun m => ⟨?_, ?_⟩⟩
  · cases he : p.evaluate m with
    | ok e =>
      obtain ⟨e', he', -⟩ := hrules.exists_evaluate he
      simp [he']
    | error err =>
      cases he' : p'.evaluate m with
      | ok e' =>
        obtain ⟨e, he'', -⟩ := hrules.symm.exists_evaluate he'
        rw [he] at he''
        cases he''
      | error err' => exact iff_of_true ⟨err, rfl⟩ ⟨err', rfl⟩
  · intro e e' he he'
    obtain ⟨_, he'', hsame⟩ := hrules.exists_evaluate he
    cases he''.symm.trans he'
    exact ⟨hsame.violations, hsame.cycles, hsame.unusedRules, hsame.emptySubjects⟩

/-- The layers the other way round. Their relation comes before and again after them. -/
def turnedLayers : List Declaration :=
  [.mustNotUse "low" "high", .subject "high" "high" false, .subject "low" "low" false,
    .mustNotUse "low" "high"]

theorem evaluate_reordered_turnedLayers :
    ∃ p', build .deny turnedLayers = .ok p' ∧
      ∃ e e', layersPolicy.evaluate layersModel = .ok e ∧ p'.evaluate layersModel = .ok e' ∧
        e.violations ≠ [] ∧ e.violations = e'.violations ∧ e.cycles = e'.cycles ∧
        (∀ r, r ∈ e.unusedRules ↔ r ∈ e'.unusedRules) ∧
        ∀ name, name ∈ e.emptySubjects ↔ name ∈ e'.emptySubjects := by
  have hreordered : Reordered layers turnedLayers :=
    reordered_of_perm [.mustNotUse "low" "high"] (by decide) (by decide) (by decide)
  have hfound : layersPolicy.foundViolations layersModel = .ok layersViolations := by
    decide
  obtain ⟨p', hp', hsame⟩ := evaluate_reordered build_layers hreordered
  obtain ⟨herr, heq⟩ := hsame layersModel
  obtain ⟨e, he, hviolations⟩ := evaluate_of_foundViolations hfound
  have hne : e.violations ≠ [] := by
    rw [hviolations, Ne, ← List.length_eq_zero_iff, List.length_mergeSort]
    decide
  refine ⟨p', hp', ?_⟩
  cases he' : p'.evaluate layersModel with
  | error err =>
    obtain ⟨_, h⟩ := herr.mpr ⟨err, he'⟩
    rw [he] at h
    cases h
  | ok e' => exact ⟨e, e', he, rfl, hne, heq e e' he he'⟩

end ClassDeps.Policy
