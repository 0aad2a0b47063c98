import ClassDeps.Proofs.Policy.Numbered
import Mathlib.Data.List.Sort

namespace ClassDeps.Numbered

variable {p : ClassDeps.Policy} {m : Model} {placed : Std.ExtTreeMap ClassId Placement}
  {edges : List PlacedEdge}

def Resolution.of (subjects : List ClassDeps.Subject) : Placement → Resolution
  | .subject s => .subject (numberOf subjects s.name)
  | .external => .external
  | .undeclared => .undeclared

/-- A loop whose failures do not depend on its state can look for them first. -/
theorem foldlM_eq_mapM {α β σ ε : Type} {f : α → Except ε β} {g : σ → β → σ} (xs : List α)
    (s : σ) : xs.foldlM (fun s x => (f x).map (g s)) s = (xs.mapM f).map (·.foldl g s) := by
  induction xs generalizing s with
  | nil => rfl
  | cons x xs ih =>
    rw [List.foldlM_cons, List.mapM_cons]
    cases f x with
    | error e => rfl
    | ok y =>
      refine (ih (g s y)).trans ?_
      cases xs.mapM f with
      | error e => rfl
      | ok ys => rfl

theorem toList_numbers (names : Std.ExtTreeSet String) : (numbers p.subjects names).toList =
    (p.subjects.zipIdx.filter fun s => names.contains s.1.name).map (·.2) := by
  have hascending : ((p.subjects.zipIdx.filter fun s => names.contains s.1.name).map (·.2)).Pairwise
      (· < ·) := by
    have hall : (p.subjects.zipIdx.map (·.2)).Pairwise (· < ·) := by
      rw [List.zipIdx_map_snd]
      exact List.pairwise_lt_range'
    rw [List.pairwise_map] at hall ⊢
    exact hall.filter _
  have hordered : (numbers p.subjects names).toList.Pairwise (· < ·) :=
    Std.ExtTreeSet.ordered_toList.imp fun h => Nat.compare_eq_lt.mp h
  apply hordered.eq_of_mem_iff hascending
  intro j
  rw [Std.ExtTreeSet.mem_toList, numbers, Std.ExtTreeSet.mem_ofList, List.contains_iff_mem]

/-- What is known after the classes with these places. -/
def Resolved.ofPlaces (subjects : List ClassDeps.Subject) (l : List (ClassId × Placement)) :
    Resolved :=
  l.foldl (fun r x => r.add x.1 (.of subjects x.2)) ⟨∅, List.replicate subjects.length false⟩

/-- The places of the defined classes, in the order in which they are found. -/
def placeList (p : ClassDeps.Policy) (m : Model) :
    Except EvaluationError (List (ClassId × Placement)) :=
  ((if p.subjects.isEmpty then [] else m.definedClasses).filter (!·.2.isPackageInfo)).mapM
    fun c => return (c.1, ← p.place c.2.name true)

theorem placements_eq : p.placements m = (placeList p m).map (Std.ExtTreeMap.ofList ·) := rfl

theorem placeList_distinct (hm : m.Coherent) {l : List (ClassId × Placement)}
    (hl : placeList p m = .ok l) : l.Pairwise fun a b => a.1 ≠ b.1 := by
  rw [placeList] at hl
  cases hempty : p.subjects.isEmpty with
  | true =>
    rw [hempty] at hl
    cases hl
    exact .nil
  | false =>
    rw [hempty] at hl
    exact ClassDeps.Policy.placed_distinct hm hl

theorem mem_of_place {name : String} {defined : Bool} {s : ClassDeps.Subject}
    (h : p.place name defined = .ok (.subject s)) : s ∈ p.subjects :=
  (ClassDeps.Policy.mem_matching.mp ((ClassDeps.Policy.places_iff_of_place h).mpr rfl)).1

theorem mem_of_placeList {l : List (ClassId × Placement)} (hl : placeList p m = .ok l) :
    ∀ x ∈ l, ∀ u, x.2 = .subject u → u ∈ p.subjects := by
  rintro ⟨id, place⟩ hx u rfl
  obtain ⟨c, -, hc⟩ := (mem_of_mapM_eq_ok hl).mp hx
  obtain ⟨place, hplace, he⟩ := bind_eq_ok_iff.mp hc
  cases he
  exact mem_of_place hplace

theorem mem_of_placedEdges (hm : m.Coherent) (hplaced : p.placements m = .ok placed)
    (hedges : p.placedEdges m placed = .ok edges) :
    ∀ e ∈ edges, e.source ∈ p.subjects ∧ ∀ u, e.target = .subject u → u ∈ p.subjects := by
  intro e he
  by_cases hne : p.subjects = []
  · rw [ClassDeps.Policy.placements_of_no_subjects hne] at hplaced
    cases hplaced
    rw [ClassDeps.Policy.placedEdges_empty] at hedges
    cases hedges
    cases he
  · have hchecked := ClassDeps.Policy.placesChecked_of_placements hm hne hplaced
    obtain ⟨c, t, -, -, -, -, hsource, htarget, -⟩ :=
      (ClassDeps.Policy.mem_placedEdges hm hchecked hedges).mp he
    refine ⟨(ClassDeps.Policy.mem_matching.mp hsource).1, ?_⟩
    intro u hu
    rw [hu] at htarget
    exact (ClassDeps.Policy.mem_matching.mp htarget).1

theorem populated_add (r : Resolved) (id : ClassId) (place : Resolution) (i : Nat) :
    (r.add id place).populated[i]? =
      r.populated[i]?.map fun found => found || decide (place = .subject i) := by
  cases place with
  | external => simp [Resolved.add]
  | undeclared => simp [Resolved.add]
  | subject j =>
    rw [Resolved.add]
    by_cases hj : j = i
    · rw [hj, List.getElem?_set_self']
      cases r.populated[i]? with
      | none => rfl
      | some found => simp
    · rw [List.getElem?_set_ne hj]
      simp [hj]

/-- For each subject, whether a class was found in it. -/
theorem populated_foldl_add (subjects : List ClassDeps.Subject) (l : List (ClassId × Placement))
    (r : Resolved) (i : Nat) :
    (l.foldl (fun r x => r.add x.1 (.of subjects x.2)) r).populated[i]? =
      r.populated[i]?.map fun found =>
        found || l.any fun x => Resolution.of subjects x.2 = .subject i := by
  induction l generalizing r with
  | nil => simp
  | cons x l ih =>
    rw [List.foldl_cons, ih, populated_add, Option.map_map]
    simp [Function.comp_def, Bool.or_assoc]

theorem places_foldl_add (subjects : List ClassDeps.Subject) (l : List (ClassId × Placement))
    (r : Resolved) (placed : Std.ExtTreeMap ClassId Placement)
    (h : r.places = placed.map fun _ => Resolution.of subjects) :
    (l.foldl (fun r x => r.add x.1 (.of subjects x.2)) r).places =
      (placed.insertMany l).map fun _ => Resolution.of subjects := by
  induction l generalizing r placed with
  | nil => simpa using h
  | cons x l ih =>
    rw [List.foldl_cons, Std.ExtTreeMap.insertMany_cons]
    apply ih
    change r.places.insert x.1 (.of subjects x.2) = _
    rw [h]
    apply Std.ExtTreeMap.ext_getElem?
    intro id
    simp only [Std.ExtTreeMap.getElem?_insert, Std.ExtTreeMap.getElem?_map]
    split_ifs <;> rfl

theorem subjectGraph_eq_elim : ClassDeps.Policy.subjectGraph edges =
    edges.foldl (fun g e => e.target.subject?.elim g fun u =>
      g.addEdge e.source.name u.name e.edge) .empty := by
  rw [ClassDeps.Policy.subjectGraph]
  congr 1
  funext g e
  cases e.target.subject? <;> rfl

section

variable (hp : (p.subjects.map (·.name)).Nodup)

include hp

theorem nameOf_numberOf {s : ClassDeps.Subject} (hs : s ∈ p.subjects) :
    (Policy.of p).nameOf (numberOf p.subjects s.name) = s.name := by
  rw [Policy.nameOf, Policy.of, List.getElem?_map, getElem?_numberOf hp hs]
  rfl

theorem resolve_of (name : String) (defined : Bool) :
    (Policy.of p).resolve name defined = (p.place name defined).map (.of p.subjects) := by
  have hnumbers : ((Policy.of p).subjects.zipIdx.filter (·.1.pattern.acceptsName name)).map (·.2) =
      (p.subjects.zipIdx.filter (·.1.pattern.acceptsName name)).map (·.2) := by
    rw [Policy.of, List.zipIdx_map, List.filter_map, List.map_map]
    rfl
  have hsubjects : p.subjects.filter (·.pattern.acceptsName name) =
      (p.subjects.zipIdx.filter (·.1.pattern.acceptsName name)).map (·.1) := by
    conv_lhs => rw [← List.zipIdx_map_fst 0 p.subjects, List.filter_map]
    rfl
  have hhits : ∀ x ∈ p.subjects.zipIdx.filter (·.1.pattern.acceptsName name),
      numberOf p.subjects x.1.name = x.2 ∧ (Policy.of p).nameOf x.2 = x.1.name := by
    rintro ⟨s, i⟩ hx
    have hs := List.mk_mem_zipIdx_iff_getElem?.mp (List.mem_of_mem_filter hx)
    have hi : numberOf p.subjects s.name = i := (numberOf_eq_iff hp hs).mpr rfl
    exact ⟨hi, hi ▸ nameOf_numberOf hp (List.mem_of_getElem? hs)⟩
  rw [Policy.resolve, ClassDeps.Policy.place, hnumbers, hsubjects]
  generalize p.subjects.zipIdx.filter (·.1.pattern.acceptsName name) = hits at hhits
  rcases hits with _ | ⟨x, _ | ⟨y, hits⟩⟩
  · change (if p.isExternal name then Except.ok Resolution.external
      else if defined then .error (EvaluationError.unmatched name) else .ok .undeclared) = _
    rw [List.map_nil]
    cases p.isExternal name <;> cases defined <;> rfl
  · show Except.ok (Resolution.subject x.2) = .ok (.subject (numberOf p.subjects x.1.name))
    rw [(hhits x List.mem_cons_self).1]
  · have hnames : ((x :: y :: hits).map (·.2)).map (Policy.of p).nameOf =
        ((x :: y :: hits).map (·.1)).map (·.name) := by
      rw [List.map_map, List.map_map]
      exact List.map_congr_left fun x hx => (hhits x hx).2
    exact congrArg (fun names => Except.error (EvaluationError.ambiguous name names)) hnames

/-- The classes are looked at in the same order and refused alike. -/
theorem resolveAll_of (m : Model) :
    (Policy.of p).resolveAll m = (placeList p m).map (Resolved.ofPlaces p.subjects) := by
  have hempty : (Policy.of p).subjects.isEmpty = p.subjects.isEmpty := List.isEmpty_map
  have hlength : (Policy.of p).subjects.length = p.subjects.length := List.length_map _
  rw [funext (Resolved.ofPlaces.eq_1 p.subjects), placeList, ← foldlM_eq_mapM, List.foldlM_filter,
    Policy.resolveAll, hempty, hlength]
  congr 1
  funext r c
  rw [Policy.resolveClass, resolve_of hp]
  cases c.2.isPackageInfo with
  | true => rfl
  | false =>
    cases p.place c.2.name true with
    | error e => rfl
    | ok place => rfl

/-- The progress with one more edge. -/
def Progress.visit (p : ClassDeps.Policy) (x : Progress) (e : PlacedEdge) : Progress :=
  (Policy.of p).visitEdge (numberOf p.subjects e.source.name) (.of p.subjects e.target) e.edge x

theorem visitUse_of (c : ClassNode) (s : ClassDeps.Subject) (x : Progress) (id : ClassId) :
    (Policy.of p).visitUse m (placed.map fun _ => .of p.subjects) (numberOf p.subjects s.name) c x
        id =
      (p.placedEdge? m placed c s id).map fun e? => e?.elim x (x.visit p) := by
  rw [Policy.visitUse, ClassDeps.Policy.placedEdge?]
  cases m.classes.get? id with
  | none => rfl
  | some t =>
    dsimp only
    rw [Std.ExtTreeMap.getElem?_map, ClassDeps.Policy.placeTarget]
    cases placed[id]? with
    | some place => rfl
    | none =>
      dsimp only [Option.map_none]
      rw [resolve_of hp]
      cases t.isPackageInfo with
      | true => rfl
      | false =>
        cases p.place t.name false with
        | error e => rfl
        | ok place => rfl

theorem foldlM_visitUse_of {i : ClassId} {c : ClassNode} (hc : m.classes.get? i = some c)
    (s : ClassDeps.Subject) (x : Progress) :
    c.uses.toList.foldlM ((Policy.of p).visitUse m (placed.map fun _ => .of p.subjects)
      (numberOf p.subjects s.name) c) x =
      (p.edgesFrom m placed i s).map (·.foldl (·.visit p) x) := by
  have hstep : (Policy.of p).visitUse m (placed.map fun _ => .of p.subjects)
      (numberOf p.subjects s.name) c = fun x id =>
        (p.placedEdge? m placed c s id).map fun e? => e?.elim x (x.visit p) := by
    funext x id
    exact visitUse_of hp c s x id
  have hedges : p.edgesFrom m placed i s =
      (c.uses.toList.mapM (p.placedEdge? m placed c s)).map (·.filterMap id) := by
    rw [ClassDeps.Policy.edgesFrom, hc]
    rfl
  rw [hstep, foldlM_eq_mapM (f := p.placedEdge? m placed c s)
    (g := fun (x : Progress) e? => e?.elim x (x.visit p)), hedges]
  cases c.uses.toList.mapM (p.placedEdge? m placed c s) with
  | error e => rfl
  | ok l =>
    rw [Except.map, Except.map, Except.map, List.foldl_filterMap]
    congr 2
    funext x e?
    cases e? <;> rfl

/-- The edges out of the class of an entry. -/
def entryEdges (p : ClassDeps.Policy) (m : Model) (placed : Std.ExtTreeMap ClassId Placement)
    (entry : ClassId × Placement) : Except EvaluationError (List PlacedEdge) :=
  match entry.2 with
  | .subject source => p.edgesFrom m placed entry.1 source
  | _ => return []

/-- The uses are looked at in the same order, and their targets refused alike. -/
theorem foldlM_visitClass_of (x : Progress) :
    (placed.map fun _ => Resolution.of p.subjects).toList.foldlM
        ((Policy.of p).visitClass m (placed.map fun _ => .of p.subjects)) x =
      (p.placedEdges m placed).map (·.foldl (·.visit p) x) := by
  have hstep : (fun x (entry : ClassId × Placement) =>
      (Policy.of p).visitClass m (placed.map fun _ => .of p.subjects) x
        (entry.1, .of p.subjects entry.2)) =
      fun x entry => (entryEdges p m placed entry).map (·.foldl (·.visit p) x) := by
    funext x ⟨i, place⟩
    cases place with
    | external => rfl
    | undeclared => rfl
    | subject s =>
      rw [Policy.visitClass, entryEdges]
      dsimp only [Resolution.of]
      cases hc : m.classes.get? i with
      | none =>
        rw [ClassDeps.Policy.edgesFrom, hc]
        rfl
      | some c => exact foldlM_visitUse_of hp hc s x
  have hedges : p.placedEdges m placed =
      (placed.toList.mapM (entryEdges p m placed)).map (·.flatten) := rfl
  rw [Std.ExtTreeMap.toList_map, List.foldlM_map, hstep, foldlM_eq_mapM
    (f := entryEdges p m placed) (g := fun (x : Progress) es => es.foldl (·.visit p) x), hedges]
  cases placed.toList.mapM (entryEdges p m placed) with
  | error e => rfl
  | ok l =>
    rw [Except.map, Except.map, Except.map, List.foldl_flatten]

/-- The check of an edge by numbers gives its verdict and notes the numbers of its permission. -/
theorem run_check_of {e : PlacedEdge} (hsource : e.source ∈ p.subjects)
    (htarget : ∀ u, e.target = .subject u → u ∈ p.subjects) (used : Pairs) :
    ((Policy.of p).check (numberOf p.subjects e.source.name) (.of p.subjects e.target)).run used =
      (p.verdict e, (ClassDeps.Policy.permission? e).elim used fun x =>
        used.insert (numberOf p.subjects x.1, numberOf p.subjects x.2)) := by
  have hs : (Policy.of p).subjects[numberOf p.subjects e.source.name]? =
      some (.of p.subjects e.source) := by
    rw [Policy.of, List.getElem?_map, getElem?_numberOf hp hsource, Option.map_some]
  rw [Policy.check, hs, ClassDeps.Policy.verdict, ClassDeps.Policy.permission?]
  cases htarget' : e.target with
  | external => rfl
  | undeclared => rfl
  | subject u =>
    have hu := getElem?_numberOf hp (htarget u htarget')
    have hcontains : ∀ names : Std.ExtTreeSet String,
        (numbers p.subjects names).contains (numberOf p.subjects u.name) =
          names.contains u.name := by
      intro names
      rw [Bool.eq_iff_iff, Std.ExtTreeSet.contains_iff_mem, Std.ExtTreeSet.contains_iff_mem,
        mem_numbers, hu]
      simp
    dsimp only [Resolution.of, Subject.of]
    rw [hcontains, hcontains]
    have hsame : numberOf p.subjects u.name = numberOf p.subjects e.source.name ↔
        u.name = e.source.name :=
      (numberOf_eq_iff hp (getElem?_numberOf hp hsource)).trans eq_comm
    by_cases hself : u.name = e.source.name
    · simp only [hself, if_true, decide_true, Bool.true_or]
      cases e.source.mayUse.contains e.source.name with
      | true => rfl
      | false => rfl
    · simp only [hsame, hself, if_false, decide_false, Bool.false_or]
      cases e.source.mustNotUse.contains u.name with
      | true =>
        rw [Bool.not_true, Bool.and_false]
        rfl
      | false =>
        cases e.source.mayUse.contains u.name with
        | true => rfl
        | false => rfl

theorem visit_eq {e : PlacedEdge} (hsource : e.source ∈ p.subjects)
    (htarget : ∀ u, e.target = .subject u → u ∈ p.subjects) (x : Progress) :
    x.visit p e = {
      used := (ClassDeps.Policy.permission? e).elim x.used fun r =>
        x.used.insert (numberOf p.subjects r.1, numberOf p.subjects r.2)
      violations := x.violations ++ (p.violation? e).toList
      graph := e.target.subject?.elim x.graph fun u =>
        x.graph.addEdge e.source.name u.name e.edge } := by
  have hcheck := run_check_of hp hsource htarget x.used
  have hname := nameOf_numberOf hp hsource
  obtain ⟨source, target, edge⟩ := e
  cases target with
  | external => simp only [Progress.visit, Policy.visitEdge, hcheck, hname]; rfl
  | undeclared => simp only [Progress.visit, Policy.visitEdge, hcheck, hname]; rfl
  | subject u =>
    have hu := nameOf_numberOf hp (htarget u rfl)
    simp only [Progress.visit, Policy.visitEdge, hcheck, hname]
    simp only [Resolution.of, hu]
    rfl

/-- Looking at all edges finds their violations, their permissions and the graph of the subjects. -/
theorem foldl_visit (hedges : ∀ e ∈ edges, e.source ∈ p.subjects ∧
    ∀ u, e.target = .subject u → u ∈ p.subjects) (x : Progress) :
    edges.foldl (·.visit p) x = {
      used := (edges.filterMap ClassDeps.Policy.permission?).foldl (fun used r =>
        used.insert (numberOf p.subjects r.1, numberOf p.subjects r.2)) x.used
      violations := x.violations ++ edges.filterMap p.violation?
      graph := edges.foldl (fun g e => e.target.subject?.elim g fun u =>
        g.addEdge e.source.name u.name e.edge) x.graph } := by
  induction edges generalizing x with
  | nil => simp
  | cons e edges ih =>
    obtain ⟨⟨hsource, htarget⟩, hrest⟩ := List.forall_mem_cons.mp hedges
    rw [List.foldl_cons, ih hrest, visit_eq hp hsource htarget]
    simp only [List.foldl_cons, List.append_assoc, Progress.mk.injEq, and_true]
    constructor
    · cases hpermission : ClassDeps.Policy.permission? e with
      | none => rw [List.filterMap_cons_none hpermission]; rfl
      | some r => rw [List.filterMap_cons_some hpermission]; rfl
    · cases hviolation : p.violation? e with
      | none => rw [List.filterMap_cons_none hviolation]; rfl
      | some v => rw [List.filterMap_cons_some hviolation]; rfl

/-- A permission is noted by numbers exactly if it is noted by names. -/
theorem used_contains (l : List (String × String)) : ∀ s ∈ p.subjects, ∀ u ∈ p.subjects,
    (l.foldl (fun used r => used.insert (numberOf p.subjects r.1, numberOf p.subjects r.2))
      (∅ : Pairs)).contains (numberOf p.subjects s.name, numberOf p.subjects u.name) =
    (l.foldl .insert (∅ : Permissions)).contains (s.name, u.name) := by
  intro s hs u hu
  rw [Bool.eq_iff_iff, Std.ExtTreeSet.contains_iff_mem, Std.ExtTreeSet.contains_iff_mem,
    ClassDeps.Policy.mem_foldl_insert fun r : String × String =>
      (numberOf p.subjects r.1, numberOf p.subjects r.2),
    ClassDeps.Policy.mem_foldl_insert fun r => r]
  simp only [Prod.mk.injEq, numberOf_eq_iff hp (getElem?_numberOf hp hs),
    numberOf_eq_iff hp (getElem?_numberOf hp hu), Prod.exists, Std.ExtTreeSet.not_mem_empty,
    false_or, eq_comm]

/-- The permissions that are left are the same, in the same order. -/
theorem unusedRules_of {used : Pairs} {used' : Permissions}
    (hused : ∀ s ∈ p.subjects, ∀ u ∈ p.subjects,
      used.contains (numberOf p.subjects s.name, numberOf p.subjects u.name) =
        used'.contains (s.name, u.name)) :
    (Policy.of p).unusedRules used = p.unusedRules used' := by
  have hsubjects : p.unusedRules used' = p.subjects.zipIdx.flatMap fun s =>
      p.subjects.zipIdx.filterMap fun u =>
        if s.1.mayUse.contains u.1.name && !used'.contains (s.1.name, u.1.name) then
          some ⟨s.1.name, u.1.name⟩
        else none := by
    rw [ClassDeps.Policy.unusedRules]
    conv_lhs => rw [← List.zipIdx_map_fst 0 p.subjects]
    rw [List.flatMap_map]
    simp only [List.filterMap_map]
    rfl
  have hzip : (Policy.of p).subjects.zipIdx =
      p.subjects.zipIdx.map (Prod.map (Subject.of p.subjects) id) := by
    rw [Policy.of, List.zipIdx_map]
  rw [hsubjects, Policy.unusedRules, hzip, List.flatMap_map]
  apply List.flatMap_congr
  rintro ⟨s, i⟩ hs
  replace hs := List.mk_mem_zipIdx_iff_getElem?.mp hs
  have hi : numberOf p.subjects s.name = i := (numberOf_eq_iff hp hs).mpr rfl
  dsimp only [Prod.map, Subject.of]
  rw [toList_numbers, List.filter_map, List.map_map, List.filter_filter, ← List.filterMap_eq_filter,
    List.map_filterMap]
  apply List.filterMap_congr
  rintro ⟨u, j⟩ hu
  replace hu := List.mk_mem_zipIdx_iff_getElem?.mp hu
  have hj : numberOf p.subjects u.name = j := (numberOf_eq_iff hp hu).mpr rfl
  have hname := nameOf_numberOf hp (List.mem_of_getElem? hu)
  have hpair := hused s (List.mem_of_getElem? hs) u (List.mem_of_getElem? hu)
  rw [hj] at hname
  rw [hi, hj] at hpair
  simp only [Function.comp_apply, id_eq, hpair, Bool.and_comm, Option.guard]
  split_ifs
  · rw [Option.map_some, Function.comp_apply, hname]
  · rfl

/-- The subjects that are left without a class are the same, in the same order. -/
theorem emptySubjects_of {l : List (ClassId × Placement)} (hl : l.Pairwise fun a b => a.1 ≠ b.1)
    (hplaces : ∀ x ∈ l, ∀ u, x.2 = .subject u → u ∈ p.subjects) :
    (Policy.of p).emptySubjects (Resolved.ofPlaces p.subjects l).populated =
      p.emptySubjects (Std.ExtTreeMap.ofList l) := by
  have hpopulated : (Resolved.ofPlaces p.subjects l).populated = p.subjects.map fun s =>
      l.any fun x => Resolution.of p.subjects x.2 = .subject (numberOf p.subjects s.name) := by
    apply List.ext_getElem?
    intro i
    rw [Resolved.ofPlaces, populated_foldl_add, List.getElem?_map, List.getElem?_replicate]
    cases hi : p.subjects[i]? with
    | none => simp [List.getElem?_eq_none_iff.mp hi]
    | some s =>
      simp [(numberOf_eq_iff hp hi).mpr rfl, (List.getElem?_eq_some_iff.mp hi).1]
  rw [Policy.emptySubjects, hpopulated, ClassDeps.Policy.emptySubjects, Policy.of, List.zip_map',
    List.filter_map, List.filter_map, List.map_map]
  congr 1
  apply List.filter_congr
  intro s hs
  have hsame : ∀ place u, place = Placement.subject u → u ∈ p.subjects →
      (Resolution.of p.subjects place = .subject (numberOf p.subjects s.name) ↔
        u.name = s.name) := by
    rintro _ u rfl hu
    rw [Resolution.of, Resolution.subject.injEq, numberOf_eq_iff hp (getElem?_numberOf hp hs),
      eq_comm]
  rw [Function.comp_apply, Function.comp_apply, Bool.not_inj_iff, Bool.eq_iff_iff]
  simp only [List.any_eq_true, decide_eq_true_eq, List.contains_iff_mem, List.mem_filterMap,
    Prod.exists, Std.ExtTreeMap.mem_toList_iff_getElem?_eq_some, getElem?_ofList_iff hl]
  refine exists_congr fun id => exists_congr fun place => and_congr_right fun hx => ?_
  cases place with
  | external => simp [Resolution.of, Placement.subject?]
  | undeclared => simp [Resolution.of, Placement.subject?]
  | subject u =>
    rw [hsame _ u rfl (hplaces _ hx u rfl)]
    simp [Placement.subject?]

end

/-- On models that operations make, a policy that was built finds the same by numbers: the
violations, the unused rules, the cycles and the empty subjects, or the same error. -/
theorem evaluate_eq {default : Access} {declarations : List Declaration}
    (hp : ClassDeps.Policy.build default declarations = .ok p) (hm : m.Coherent) :
    (Policy.of p).evaluate m = p.evaluate m := by
  have hnodup : (p.subjects.map (·.name)).Nodup := by
    rw [ClassDeps.Policy.map_name_subjects hp]
    exact ClassDeps.Policy.nodup_subjectNames hp
  rw [Policy.evaluate, resolveAll_of hnodup, ClassDeps.Policy.evaluate, placements_eq]
  cases hl : placeList p m with
  | error e => rfl
  | ok l =>
    have hplaces : (Resolved.ofPlaces p.subjects l).places =
        (Std.ExtTreeMap.ofList l).map fun _ => Resolution.of p.subjects := by
      rw [Std.ExtTreeMap.ofList_eq_insertMany_empty]
      exact places_foldl_add p.subjects l _ ∅ (by simp)
    dsimp only [Except.map, bind, Except.bind]
    rw [hplaces, foldlM_visitClass_of hnodup]
    cases hedges : p.placedEdges m (Std.ExtTreeMap.ofList l) with
    | error e => rfl
    | ok edges =>
      have hmem := mem_of_placedEdges hm (by rw [placements_eq, hl]; rfl) hedges
      dsimp only [Except.map]
      rw [foldl_visit hnodup hmem, ClassDeps.Policy.run_checkAll,
        emptySubjects_of hnodup (placeList_distinct hm hl) (mem_of_placeList hl)]
      rw [unusedRules_of hnodup (used_contains hnodup _), subjectGraph_eq_elim]
      rfl

end ClassDeps.Numbered
