import ClassDeps.Proofs.Policy.Build
import ClassDeps.Proofs.Policy.Check
import ClassDeps.Proofs.Policy.Placement
import Mathlib.Data.List.Nodup

namespace ClassDeps.Numbered

open ClassDeps.Policy (compilePattern targetsOf checkRelation buildSubjects declaredSubject)

/-- A subject that knows the others by their numbers, which follow the order of declaration. -/
structure Subject where
  name : String
  pattern : Pattern
  allowAll : Bool
  mayUse : Std.ExtTreeSet Nat
  mustNotUse : Std.ExtTreeSet Nat

structure Policy where
  default : Access
  subjects : List Subject
  externals : List Pattern
  cycleMode : CycleMode
  cycleExclusions : List Pattern

/-- The subjects that were declared so far, and their numbers. -/
structure Table where
  index : Std.ExtTreeMap String Nat
  subjects : List Subject

namespace Table

def empty : Table := ⟨∅, []⟩

def push (t : Table) (s : Subject) : Table :=
  ⟨t.index.insert s.name t.subjects.length, t.subjects ++ [s]⟩

/-- Adds a declared subject. A repeated name is found before a bad pattern. -/
def addSubject (t : Table) (entry : String × String × Bool) : Except PolicyError Table :=
  if t.index.contains entry.1 then .error (.duplicateSubject entry.1)
  else do
    let pattern ← compilePattern entry.2.1
    return t.push ⟨entry.1, pattern, entry.2.2, ∅, ∅⟩

def lookup (t : Table) (name : String) : Except PolicyError Nat :=
  match t.index[name]? with
  | some i => .ok i
  | none => .error (.unknownSubject name)

/-- Lets the subject `source` know the number of `target`. -/
def relate (t : Table) (source target : String) (add : Nat → Subject → Subject) :
    Except PolicyError Table := do
  let i ← t.lookup source
  let j ← t.lookup target
  return { t with subjects := t.subjects.modify i (add j) }

/-- Adds a declared relation. -/
def addRelation (t : Table) : Declaration → Except PolicyError Table
  | .mayUse source target =>
    t.relate source target fun j s => { s with mayUse := s.mayUse.insert j }
  | .mustNotUse source target =>
    t.relate source target fun j s => { s with mustNotUse := s.mustNotUse.insert j }
  | _ => .ok t

end Table

namespace Policy

def build (default : Access) (declarations : List Declaration) : Except PolicyError Policy := do
  let t ← (declarations.filterMap Declaration.subject?).foldlM Table.addSubject .empty
  let t ← declarations.foldlM Table.addRelation t
  let externals ← (declarations.filterMap Declaration.external?).mapM compilePattern
  let cycleExclusions ← (declarations.filterMap Declaration.exclude?).mapM compilePattern
  return {
    default
    subjects := t.subjects
    externals
    cycleMode := ((declarations.filterMap Declaration.mode?).getLast?).getD .packages
    cycleExclusions
  }

end Policy

/-- Where a class belongs, the subject by its number. -/
inductive Resolution where
  | subject (number : Nat)
  | external
  | undeclared
deriving DecidableEq

abbrev Pairs := Std.ExtTreeSet (Nat × Nat) (@compare _ lexOrd)

/-- What is known after the defined classes were looked at. -/
structure Resolved where
  places : Std.ExtTreeMap ClassId Resolution
  /-- For each subject, whether it has a class. -/
  populated : List Bool

def Resolved.add (r : Resolved) (id : ClassId) (place : Resolution) : Resolved where
  places := r.places.insert id place
  populated :=
    match place with
    | .subject i => r.populated.set i true
    | _ => r.populated

/-- What is known of the edges that were looked at. -/
structure Progress where
  used : Pairs
  violations : List Violation
  graph : Graph

namespace Policy

def nameOf (p : Policy) (i : Nat) : String :=
  (p.subjects[i]?.map (·.name)).getD ""

def resolve (p : Policy) (name : String) (defined : Bool) : Except EvaluationError Resolution :=
  match (p.subjects.zipIdx.filter (·.1.pattern.acceptsName name)).map (·.2) with
  | [i] => .ok (.subject i)
  | [] =>
    if p.externals.any (·.acceptsName name) then .ok .external
    else if defined then .error (.unmatched name)
    else .ok .undeclared
  | many => .error (.ambiguous name (many.map p.nameOf))

def resolveClass (p : Policy) (r : Resolved) (entry : ClassId × ClassNode) :
    Except EvaluationError Resolved :=
  if entry.2.isPackageInfo then .ok r
  else return r.add entry.1 (← p.resolve entry.2.name true)

def resolveAll (p : Policy) (m : Model) : Except EvaluationError Resolved :=
  (if p.subjects.isEmpty then [] else m.definedClasses).foldlM p.resolveClass
    ⟨∅, List.replicate p.subjects.length false⟩

/-- Why an edge out of the subject `i` is rejected, if it is. A permission that it makes use of is
noted. -/
def check (p : Policy) (i : Nat) (target : Resolution) : StateM Pairs (Option ViolationKind) :=
  match p.subjects[i]? with
  | none => return none
  | some s =>
    let undecided := if !s.allowAll && p.default = .deny then some .notAllowed else none
    match target with
    | .subject j => do
      if j = i then
        if s.mayUse.contains j then modify (·.insert (i, j))
        return none
      else if s.mustNotUse.contains j then return some .forbidden
      else if s.mayUse.contains j then
        modify (·.insert (i, j))
        return none
      else return undecided
    | .external => return none
    | .undeclared => return undecided

def visitEdge (p : Policy) (i : Nat) (target : Resolution) (edge : ClassEdge) (x : Progress) :
    Progress :=
  let (kind, used) := (p.check i target).run x.used
  let name? :=
    match target with
    | .subject j => some (p.nameOf j)
    | _ => none
  {
    used
    violations := x.violations ++ (kind.map fun kind => ⟨p.nameOf i, name?, edge, kind⟩).toList
    graph := name?.elim x.graph fun name => x.graph.addEdge (p.nameOf i) name edge
  }

def visitUse (p : Policy) (m : Model) (places : Std.ExtTreeMap ClassId Resolution) (i : Nat)
    (c : ClassNode) (x : Progress) (id : ClassId) : Except EvaluationError Progress :=
  match m.classes.get? id with
  | none => .ok x
  | some t =>
    match places[id]? with
    | some target => .ok (p.visitEdge i target ⟨c.name, t.name⟩ x)
    | none =>
      if t.isPackageInfo then .ok x
      else return p.visitEdge i (← p.resolve t.name false) ⟨c.name, t.name⟩ x

def visitClass (p : Policy) (m : Model) (places : Std.ExtTreeMap ClassId Resolution)
    (x : Progress) (entry : ClassId × Resolution) : Except EvaluationError Progress :=
  match entry.2 with
  | .subject i =>
    match m.classes.get? entry.1 with
    | none => .ok x
    | some c => c.uses.toList.foldlM (p.visitUse m places i c) x
  | _ => .ok x

def unusedRules (p : Policy) (used : Pairs) : List UnusedRule :=
  p.subjects.zipIdx.flatMap fun s =>
    (s.1.mayUse.toList.filter fun j => !used.contains (s.2, j)).map fun j =>
      ⟨s.1.name, p.nameOf j⟩

def emptySubjects (p : Policy) (populated : List Bool) : List String :=
  ((p.subjects.zip populated).filter (!·.2)).map (·.1.name)

/-- Looks at every class edge once, keeping what it finds by the numbers of the subjects. -/
def evaluate (p : Policy) (m : Model) : Except EvaluationError Evaluation := do
  let r ← p.resolveAll m
  let x ← r.places.toList.foldlM (p.visitClass m r.places) ⟨∅, [], .empty⟩
  return {
    violations := x.violations.mergeSort fun a b => !b.edge.lt a.edge
    unusedRules := p.unusedRules x.used
    cycles :=
      match p.cycleMode with
      | .packages => m.packageCycles p.cycleExclusions
      | .subjects => x.graph.cycles
      | .off => []
    emptySubjects := p.emptySubjects r.populated
  }

end Policy

/-- The number of the subject called `name`. -/
def numberOf (subjects : List ClassDeps.Subject) (name : String) : Nat :=
  (subjects.map (·.name)).idxOf name

/-- The numbers of the subjects whose names are in a set. -/
def numbers (subjects : List ClassDeps.Subject) (names : Std.ExtTreeSet String) :
    Std.ExtTreeSet Nat :=
  .ofList ((subjects.zipIdx.filter fun s => names.contains s.1.name).map (·.2))

def Subject.of (subjects : List ClassDeps.Subject) (s : ClassDeps.Subject) : Subject where
  name := s.name
  pattern := s.pattern
  allowAll := s.allowAll
  mayUse := numbers subjects s.mayUse
  mustNotUse := numbers subjects s.mustNotUse

/-- A policy with its subjects numbered. -/
def Policy.of (p : ClassDeps.Policy) : Policy where
  default := p.default
  subjects := p.subjects.map (.of p.subjects)
  externals := p.externals
  cycleMode := p.cycleMode
  cycleExclusions := p.cycleExclusions

variable {subjects : List ClassDeps.Subject} {names : Std.ExtTreeSet String}

theorem mem_numbers {j : Nat} :
    j ∈ numbers subjects names ↔ ∃ u, subjects[j]? = some u ∧ u.name ∈ names := by
  rw [numbers, Std.ExtTreeSet.mem_ofList, List.contains_iff_mem, List.mem_map]
  simp only [List.mem_filter, Std.ExtTreeSet.contains_iff_mem, Prod.exists]
  constructor
  · rintro ⟨u, _, ⟨hu, hname⟩, rfl⟩
    exact ⟨u, List.mk_mem_zipIdx_iff_getElem?.mp hu, hname⟩
  · rintro ⟨u, hu, hname⟩
    exact ⟨u, j, ⟨List.mk_mem_zipIdx_iff_getElem?.mpr hu, hname⟩, rfl⟩

section

variable (hnodup : (subjects.map (·.name)).Nodup)

include hnodup

theorem numberOf_eq_iff {i : Nat} {s : ClassDeps.Subject} {name : String}
    (hs : subjects[i]? = some s) : numberOf subjects name = i ↔ s.name = name := by
  obtain ⟨hi, rfl⟩ := List.getElem?_eq_some_iff.mp hs
  have hi' : i < (subjects.map (·.name)).length := by rwa [List.length_map]
  have hname : (subjects.map (·.name))[i] = subjects[i].name := List.getElem_map ..
  constructor
  · intro h
    have hlt : (subjects.map (·.name)).idxOf name < (subjects.map (·.name)).length := by
      rw [← numberOf, h]
      exact hi'
    rw [← hname]
    simp only [← h]
    exact List.getElem_idxOf hlt
  · rintro rfl
    rw [numberOf, ← hname, hnodup.idxOf_getElem i hi']

theorem getElem?_numberOf {s : ClassDeps.Subject} (hs : s ∈ subjects) :
    subjects[numberOf subjects s.name]? = some s := by
  obtain ⟨i, hi⟩ := List.getElem?_of_mem hs
  rwa [(numberOf_eq_iff hnodup hi).mpr rfl]

end

variable {declarations done : List Declaration} {t : Table}

/-- The subject without its relations. -/
def Subject.bare (s : ClassDeps.Subject) : Subject :=
  ⟨s.name, s.pattern, s.allowAll, ∅, ∅⟩

/-- The subjects are read in the same order and refused alike. -/
theorem foldlM_addSubject {known : List String} {entries : List (String × String × Bool)}
    (hknown : ∀ name, name ∈ t.index ↔ name ∈ known) :
    entries.foldlM Table.addSubject t = (buildSubjects declarations known entries).map fun l =>
      l.foldl (fun t s => t.push (.bare s)) t := by
  induction entries generalizing t known with
  | nil => rfl
  | cons entry entries ih =>
    obtain ⟨name, text, allowAll⟩ := entry
    rw [List.foldlM_cons, buildSubjects, Table.addSubject]
    by_cases hname : name ∈ known
    · rw [if_pos (by simpa [hknown] using hname), if_pos (by simpa using hname)]
      rfl
    · rw [if_neg (by simpa [hknown] using hname), if_neg (by simpa using hname)]
      cases hpattern : compilePattern text with
      | error e => rfl
      | ok pattern =>
        have hknown' : ∀ n, n ∈ (t.push ⟨name, pattern, allowAll, ∅, ∅⟩).index ↔
            n ∈ name :: known := by
          intro n
          rw [Table.push, Std.ExtTreeMap.mem_insert, Std.LawfulEqCmp.compare_eq_iff_eq, hknown,
            List.mem_cons, eq_comm]
        refine (ih hknown').trans ?_
        cases buildSubjects declarations (name :: known) entries with
        | error e => rfl
        | ok others => rfl

/-- After the relations of `done`, the table has the subjects with those relations, and finds them
by their names. -/
structure Table.Holds (t : Table) (subjects : List ClassDeps.Subject) (done : List Declaration) :
    Prop where
  index : ∀ name, t.index[name]? =
    if name ∈ subjects.map (·.name) then some (numberOf subjects name) else none
  subjects : t.subjects =
    subjects.map fun s => .of subjects (declaredSubject done s.name s.pattern s.allowAll)

theorem numbers_empty : numbers subjects ∅ = ∅ := by
  apply Std.ExtTreeSet.ext_mem
  intro j
  simp [mem_numbers]

theorem foldl_push_subjects (l : List ClassDeps.Subject) :
    (l.foldl (fun t s => t.push (.bare s)) t).subjects = t.subjects ++ l.map .bare := by
  induction l generalizing t with
  | nil => rw [List.foldl_nil, List.map_nil, List.append_nil]
  | cons s l ih => rw [List.foldl_cons, ih, Table.push, List.append_assoc, List.map_cons]; rfl

theorem foldl_push_index {l : List ClassDeps.Subject} (hnodup : (l.map (·.name)).Nodup)
    (name : String) : (l.foldl (fun t s => t.push (.bare s)) t).index[name]? =
      if name ∈ l.map (·.name) then some (t.subjects.length + numberOf l name)
      else t.index[name]? := by
  induction l generalizing t with
  | nil => rfl
  | cons s l ih =>
    rw [List.map_cons, List.nodup_cons] at hnodup
    have hpush : (t.push (.bare s)).index[name]? =
        if s.name = name then some t.subjects.length else t.index[name]? := by
      rw [Table.push, Std.ExtTreeMap.getElem?_insert]
      simp only [Std.LawfulEqCmp.compare_eq_iff_eq, Subject.bare]
    have hlength : (t.push (.bare s)).subjects.length = t.subjects.length + 1 :=
      List.length_append
    rw [List.foldl_cons, ih hnodup.2, hpush, hlength, List.map_cons, numberOf, numberOf,
      List.map_cons]
    by_cases hname : s.name = name
    · subst hname
      rw [if_neg hnodup.1, if_pos rfl, if_pos List.mem_cons_self, List.idxOf_cons_self,
        Nat.add_zero]
    · simp only [if_neg hname, List.mem_cons, Ne.symm hname, false_or, List.idxOf_cons_ne _ hname,
        Nat.add_assoc, Nat.add_comm 1]

theorem holds_foldl_push (hnodup : (subjects.map (·.name)).Nodup) :
    (subjects.foldl (fun t s => t.push (.bare s)) Table.empty).Holds subjects [] where
  index name := by
    rw [foldl_push_index hnodup, Table.empty, List.length_nil, Nat.zero_add,
      Std.ExtTreeMap.getElem?_empty]
  subjects := by
    rw [foldl_push_subjects]
    apply List.map_congr_left
    intro s _
    have hnone : ∀ relation, targetsOf relation s.name [] = ∅ := fun _ => rfl
    rw [Subject.of, declaredSubject, hnone, hnone, numbers_empty]
    rfl

theorem Table.Holds.lookup_eq (h : t.Holds subjects done) (name : String) :
    t.lookup name = if subjects.any (·.name = name) then .ok (numberOf subjects name)
      else .error (.unknownSubject name) := by
  rw [lookup, h.index]
  simp only [← Policy.any_name_iff]
  split_ifs <;> rfl

section

variable (hnodup : (subjects.map (·.name)).Nodup)
  {relation : Declaration → Option (String × String)} {d : Declaration}

include hnodup

/-- One more relation adds the number of its target to those of its source. -/
theorem numbers_targetsOf_concat {source target : String} (hd : relation d = some (source, target))
    (htarget : target ∈ subjects.map (·.name)) (name : String) :
    numbers subjects (targetsOf relation name (done ++ [d])) =
      if name = source then
        (numbers subjects (targetsOf relation name done)).insert (numberOf subjects target)
      else numbers subjects (targetsOf relation name done) := by
  have hmem : ∀ u, u ∈ targetsOf relation name (done ++ [d]) ↔
      u ∈ targetsOf relation name done ∨ name = source ∧ u = target := by
    intro u
    rw [Policy.mem_targetsOf, Policy.mem_targetsOf, List.filterMap_append, List.mem_append,
      List.filterMap_cons_some hd, List.filterMap_nil, List.mem_singleton, Prod.mk.injEq]
  apply Std.ExtTreeSet.ext_mem
  intro j
  split
  case isTrue hname =>
    rw [Std.ExtTreeSet.mem_insert, Std.LawfulEqCmp.compare_eq_iff_eq, mem_numbers, mem_numbers]
    simp only [hmem]
    simp only [hname, true_and]
    constructor
    · rintro ⟨u, hu, hold | hnew⟩
      · exact .inr ⟨u, hu, hold⟩
      · exact .inl ((numberOf_eq_iff hnodup hu).mpr hnew)
    · rintro (rfl | ⟨u, hu, hold⟩)
      · obtain ⟨u, hu, rfl⟩ := List.mem_map.mp htarget
        exact ⟨u, getElem?_numberOf hnodup hu, .inr rfl⟩
      · exact ⟨u, hu, .inl hold⟩
  case isFalse hname => simp only [mem_numbers, hmem, hname, false_and, or_false]

end

theorem targetsOf_concat_of_none {relation : Declaration → Option (String × String)}
    {d : Declaration} (hd : relation d = none) (name : String) :
    targetsOf relation name (done ++ [d]) = targetsOf relation name done := by
  rw [targetsOf, targetsOf, List.filterMap_append, List.filterMap_cons_none hd, List.filterMap_nil,
    List.append_nil]

/-- What the check of a relation allows, the table can take in. -/
theorem Table.Holds.relate (hnodup : (subjects.map (·.name)).Nodup) (h : t.Holds subjects done)
    {d : Declaration} {source target : String} {add : Nat → Subject → Subject}
    (hadd : ∀ s ∈ subjects, target ∈ subjects.map (·.name) →
      .of subjects (declaredSubject (done ++ [d]) s.name s.pattern s.allowAll) =
        if s.name = source then add (numberOf subjects target)
          (.of subjects (declaredSubject done s.name s.pattern s.allowAll))
        else .of subjects (declaredSubject done s.name s.pattern s.allowAll)) :
    (∀ e, checkRelation subjects (source, target) = .error e →
      t.relate source target add = .error e) ∧
    (checkRelation subjects (source, target) = .ok () →
      ∃ t', t.relate source target add = .ok t' ∧ t'.Holds subjects (done ++ [d])) := by
  rw [checkRelation, Table.relate, h.lookup_eq, h.lookup_eq]
  dsimp only
  cases hsource : subjects.any (·.name = source) with
  | false => exact ⟨fun e he => by cases he; rfl, fun he => (by cases he)⟩
  | true =>
    cases htarget : subjects.any (·.name = target) with
    | false => exact ⟨fun e he => by cases he; rfl, fun he => (by cases he)⟩
    | true =>
      refine ⟨fun e he => (by cases he), fun _ => ⟨_, rfl, h.index, ?_⟩⟩
      rw [Policy.any_name_iff] at htarget
      apply List.ext_getElem?
      intro k
      rw [List.getElem?_modify, h.subjects, List.getElem?_map, List.getElem?_map]
      cases hk : subjects[k]? with
      | none => simp
      | some s =>
        rw [Option.map_some, Option.map_some, hadd s (List.mem_of_getElem? hk) htarget]
        simp only [numberOf_eq_iff hnodup hk]
        split_ifs <;> rfl

/-- The table takes in a declaration, unless it is a relation that the check refuses. -/
theorem Table.Holds.addRelation (hnodup : (subjects.map (·.name)).Nodup)
    (h : t.Holds subjects done) (d : Declaration) :
    (∀ e, d.relation?.elim (.ok ()) (checkRelation subjects) = .error e →
      t.addRelation d = .error e) ∧
    (d.relation?.elim (.ok ()) (checkRelation subjects) = .ok () →
      ∃ t', t.addRelation d = .ok t' ∧ t'.Holds subjects (done ++ [d])) := by
  have hother : Declaration.mayUse? d = none → Declaration.mustNotUse? d = none →
      t.Holds subjects (done ++ [d]) := by
    intro hmay hmust
    refine ⟨h.index, ?_⟩
    simp only [h.subjects, declaredSubject, targetsOf_concat_of_none hmay,
      targetsOf_concat_of_none hmust]
  cases d with
  | mayUse source target =>
    apply h.relate hnodup
    intro s _ htarget
    simp only [declaredSubject, Subject.of, targetsOf_concat_of_none
      (show Declaration.mustNotUse? (.mayUse source target) = none from rfl),
      numbers_targetsOf_concat hnodup
        (show Declaration.mayUse? (.mayUse source target) = some (source, target) from rfl) htarget]
    split_ifs <;> rfl
  | mustNotUse source target =>
    apply h.relate hnodup
    intro s _ htarget
    simp only [declaredSubject, Subject.of, targetsOf_concat_of_none
      (show Declaration.mayUse? (.mustNotUse source target) = none from rfl),
      numbers_targetsOf_concat hnodup
        (show Declaration.mustNotUse? (.mustNotUse source target) = some (source, target) from rfl)
        htarget]
    split_ifs <;> rfl
  | subject | external | cycles | exclude =>
    exact ⟨fun e he => (by cases he), fun _ => ⟨t, rfl, hother rfl rfl⟩⟩

/-- The relations are checked in the same order and refused alike. -/
theorem Table.Holds.foldlM_addRelation (hnodup : (subjects.map (·.name)).Nodup)
    (rest : List Declaration) (h : t.Holds subjects done) :
    (∀ e, (rest.filterMap Declaration.relation?).forM (checkRelation subjects) = .error e →
      rest.foldlM Table.addRelation t = .error e) ∧
    ((rest.filterMap Declaration.relation?).forM (checkRelation subjects) = .ok () →
      ∃ t', rest.foldlM Table.addRelation t = .ok t' ∧ t'.Holds subjects (done ++ rest)) := by
  induction rest generalizing t done with
  | nil =>
    refine ⟨fun e he => (by cases he), fun _ => ⟨t, rfl, ?_⟩⟩
    rwa [List.append_nil]
  | cons d rest ih =>
    have hforM : ((d :: rest).filterMap Declaration.relation?).forM (checkRelation subjects) =
        (d.relation?.elim (.ok ()) (checkRelation subjects) >>= fun _ =>
          (rest.filterMap Declaration.relation?).forM (checkRelation subjects)) := by
      cases hd : d.relation? with
      | none => rw [List.filterMap_cons_none hd]; rfl
      | some r => rw [List.filterMap_cons_some hd]; rfl
    obtain ⟨herror, hok⟩ := h.addRelation hnodup d
    rw [hforM, List.foldlM_cons]
    cases hcheck : d.relation?.elim (.ok ()) (checkRelation subjects) with
    | error e =>
      rw [herror e hcheck]
      exact ⟨fun e he => by cases he; rfl, fun he => (by cases he)⟩
    | ok _ =>
      obtain ⟨t', ht', hholds⟩ := hok hcheck
      rw [ht', List.append_cons]
      exact ih hholds

/-- Numbering the subjects while they are built gives the numbered policy, and the same errors. -/
theorem build_eq (default : Access) (declarations : List Declaration) :
    Policy.build default declarations =
      (ClassDeps.Policy.build default declarations).map Policy.of := by
  have hknown : ∀ name, name ∈ Table.empty.index ↔ name ∈ [] := by
    intro name
    simp [Table.empty]
  rw [Policy.build, ClassDeps.Policy.build,
    @foldlM_addSubject declarations _ [] (declarations.filterMap Declaration.subject?) hknown]
  cases hsubjects : buildSubjects declarations [] (declarations.filterMap Declaration.subject?) with
  | error e => rfl
  | ok subjects =>
    have hnodup : (subjects.map (·.name)).Nodup := by
      rw [Policy.map_name_of_buildSubjects hsubjects]
      exact (Policy.buildSubjects_eq_ok_iff.mp hsubjects).1
    obtain ⟨herror, hok⟩ := (holds_foldl_push hnodup).foldlM_addRelation hnodup declarations
    cases hrelations :
        (declarations.filterMap Declaration.relation?).forM (checkRelation subjects) with
    | error e =>
      simp only [Except.map, bind, Except.bind, herror e hrelations, hrelations]
    | ok _ =>
      obtain ⟨t, ht, hholds⟩ := hok hrelations
      have hsame : t.subjects = subjects.map (.of subjects) := by
        rw [hholds.subjects, List.nil_append]
        apply List.map_congr_left
        intro s hs
        obtain ⟨_, _, _, _, -, -, rfl⟩ := (Policy.mem_of_buildSubjects hsubjects).mp hs
        rfl
      simp only [Except.map, bind, Except.bind, ht, hrelations]
      cases (declarations.filterMap Declaration.external?).mapM compilePattern with
      | error e => rfl
      | ok externals =>
        cases (declarations.filterMap Declaration.exclude?).mapM compilePattern with
        | error e => rfl
        | ok exclusions =>
          dsimp only [pure, Except.pure]
          rw [hsame]
          rfl

end ClassDeps.Numbered
