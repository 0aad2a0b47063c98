import ClassDeps.Graph.Cycle
import ClassDeps.Model.Basic
import ClassDeps.Policy.Basic

namespace ClassDeps

inductive EvaluationError where
  | ambiguous (name : String) (subjects : List String)
  | unmatched (name : String)
deriving DecidableEq, Repr

def EvaluationError.message : EvaluationError → String
  | ambiguous name subjects =>
    "class " ++ name ++ " is matched by more than one subject: " ++
      String.intercalate ", " subjects
  | unmatched name => "class " ++ name ++ " is not matched by any subject"

inductive ViolationKind where
  /-- No rule allows the dependency. -/
  | notAllowed
  /-- A rule forbids it. -/
  | forbidden
deriving DecidableEq, Repr

structure Violation where
  subject : String
  /-- The subject of the class used, if it has one. -/
  target : Option String
  edge : ClassEdge
  kind : ViolationKind
deriving DecidableEq, Repr

def Violation.text (v : Violation) : String :=
  let verb :=
    match v.kind with
    | .notAllowed => " is not allowed to use "
    | .forbidden => " must not use "
  v.subject ++ verb ++ v.target.getD "<undeclared>" ++
    " (" ++ v.edge.source ++ " -> " ++ v.edge.target ++ ")"

/-- A permission that no class edge makes use of. -/
structure UnusedRule where
  subject : String
  target : String
deriving DecidableEq, Repr

def UnusedRule.text (r : UnusedRule) : String :=
  r.subject ++ " may use " ++ r.target ++ ", but no class does"

structure Evaluation where
  violations : List Violation
  unusedRules : List UnusedRule
  cycles : List Cycle
  /-- Subjects whose pattern accepts no defined class. -/
  emptySubjects : List String
deriving DecidableEq, Repr

def Evaluation.isClean (e : Evaluation) : Bool :=
  e.violations.isEmpty && e.unusedRules.isEmpty && e.cycles.isEmpty

/-- Where a class belongs under a policy. -/
inductive Placement where
  | subject (subject : Subject)
  | external
  | undeclared
deriving DecidableEq

def Placement.subject? : Placement → Option Subject
  | subject s => some s
  | _ => none

/-- A class edge out of a subject, with the place of its target. -/
structure PlacedEdge where
  source : Subject
  target : Placement
  edge : ClassEdge

def PlacedEdge.violation (e : PlacedEdge) (kind : ViolationKind) : Violation :=
  { subject := e.source.name, target := e.target.subject?.map (·.name), edge := e.edge, kind }

/-- Permissions, each by the names of the subject that has it and of the one it is for. -/
abbrev Permissions := Std.ExtTreeSet (String × String) (@compare _ lexOrd)

namespace Policy

def isExternal (p : Policy) (name : String) : Bool :=
  p.externals.any (·.acceptsName name)

/-- Places a class. A defined class has to have a subject unless it is external, and no class may
have two. -/
def place (p : Policy) (name : String) (defined : Bool) : Except EvaluationError Placement :=
  match p.subjects.filter (·.pattern.acceptsName name) with
  | [s] => .ok (.subject s)
  | [] =>
    if p.isExternal name then .ok .external
    else if defined then .error (.unmatched name)
    else .ok .undeclared
  | many => .error (.ambiguous name (many.map (·.name)))

/-- The places of the defined classes, found in the order of their names. A policy without subjects
places nothing. -/
def placements (p : Policy) (m : Model) :
    Except EvaluationError (Std.ExtTreeMap ClassId Placement) := do
  let classes := if p.subjects.isEmpty then [] else m.definedClasses
  let placed ← (classes.filter (!·.2.isPackageInfo)).mapM fun c =>
    return (c.1, ← p.place c.2.name true)
  return Std.ExtTreeMap.ofList placed

/-- The place of a class that is used, or none for a package's information. -/
def placeTarget (p : Policy) (placed : Std.ExtTreeMap ClassId Placement) (id : ClassId)
    (c : ClassNode) : Except EvaluationError (Option Placement) :=
  match placed[id]? with
  | some place => .ok (some place)
  | none => if c.isPackageInfo then .ok none else some <$> p.place c.name false

/-- The placed edges out of the class `id`, in the order of its targets. -/
def edgesFrom (p : Policy) (m : Model) (placed : Std.ExtTreeMap ClassId Placement)
    (id : ClassId) (source : Subject) : Except EvaluationError (List PlacedEdge) := do
  match m.classes.get? id with
  | none => return []
  | some c =>
    let edges ← c.uses.toList.mapM fun used => do
      match m.classes.get? used with
      | none => return none
      | some target =>
        return (← p.placeTarget placed used target).map fun place =>
          { source, target := place, edge := ⟨c.name, target.name⟩ : PlacedEdge }
    return edges.filterMap fun e => e

/-- Every class edge out of a subject. -/
def placedEdges (p : Policy) (m : Model) (placed : Std.ExtTreeMap ClassId Placement) :
    Except EvaluationError (List PlacedEdge) := do
  let edges ← placed.toList.mapM fun entry =>
    match entry.2 with
    | .subject source => p.edgesFrom m placed entry.1 source
    | _ => return []
  return edges.flatten

/-- Why an edge is rejected, if it is. A permission that it makes use of is noted. -/
def check (p : Policy) (e : PlacedEdge) : StateM Permissions (Option ViolationKind) :=
  let undecided := if !e.source.allowAll && p.default = .deny then some .notAllowed else none
  match e.target with
  | .subject target => do
    if target.name = e.source.name then
      if e.source.mayUse.contains target.name then modify (·.insert (e.source.name, target.name))
      return none
    else if e.source.mustNotUse.contains target.name then return some .forbidden
    else if e.source.mayUse.contains target.name then
      modify (·.insert (e.source.name, target.name))
      return none
    else return undecided
  | .external => return none
  | .undeclared => return undecided

/-- The violations among the edges, in their order. Permissions that are made use of are noted. -/
def checkAll (p : Policy) (edges : List PlacedEdge) : StateM Permissions (List Violation) :=
  edges.filterMapM fun e => return (← p.check e).map e.violation

/-- The permissions that are not in use, by the order of the subjects that have them and then of the
others. -/
def unusedRules (p : Policy) (used : Permissions) : List UnusedRule :=
  p.subjects.flatMap fun source =>
    p.subjects.filterMap fun target =>
      if source.mayUse.contains target.name && !used.contains (source.name, target.name) then
        some ⟨source.name, target.name⟩
      else none

/-- The graph of the subjects, an edge for each use between different ones. -/
def subjectGraph (edges : List PlacedEdge) : Graph :=
  edges.foldl (fun g e =>
    match e.target.subject? with
    | some target => g.addEdge e.source.name target.name e.edge
    | none => g) .empty

def emptySubjects (p : Policy) (placed : Std.ExtTreeMap ClassId Placement) : List String :=
  let populated := placed.toList.filterMap fun entry => entry.2.subject?.map (·.name)
  (p.subjects.map (·.name)).filter (!populated.contains ·)

end Policy

namespace Model

/-- Whether a package is left out of the search for cycles. -/
def isExcluded (exclude : List Pattern) (package : String) : Bool :=
  exclude.any (·.acceptsPackage (Pattern.packageText package))

def packageName? (m : Model) (c : ClassNode) : Option String :=
  (m.packages.get? c.package).map (·.name)

/-- The edges between packages that defined classes make, apart from excluded packages. -/
def packageGraph (m : Model) (exclude : List Pattern) : Graph :=
  m.definedClasses.foldl (fun g (_, c) =>
    match m.packageName? c with
    | none => g
    | some source =>
      if isExcluded exclude source then g
      else
        c.uses.toList.foldl (fun g id =>
          match m.classes.get? id with
          | none => g
          | some used =>
            match m.packageName? used with
            | none => g
            | some target =>
              if isExcluded exclude target then g
              else g.addEdge source target ⟨c.name, used.name⟩) g) .empty

def packageCycles (m : Model) (exclude : List Pattern) : List Cycle :=
  (m.packageGraph exclude).cycles

end Model

namespace Policy

def evaluate (p : Policy) (m : Model) : Except EvaluationError Evaluation := do
  let placed ← p.placements m
  let edges ← p.placedEdges m placed
  let (violations, used) := (p.checkAll edges).run ∅
  return {
    violations := violations.mergeSort fun a b => !b.edge.lt a.edge
    unusedRules := p.unusedRules used
    cycles :=
      match p.cycleMode with
      | .packages => m.packageCycles p.cycleExclusions
      | .subjects => (subjectGraph edges).cycles
      | .off => []
    emptySubjects := p.emptySubjects placed
  }

end Policy

end ClassDeps
