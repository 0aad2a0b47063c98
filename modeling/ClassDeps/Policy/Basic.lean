import ClassDeps.Pattern
import Std.Data.ExtTreeSet

namespace ClassDeps

/-- What happens to a dependency that no rule mentions. -/
inductive Access where
  | deny
  | allow
deriving DecidableEq, Repr

/-- The graph that is searched for cycles, if any. -/
inductive CycleMode where
  | packages
  | subjects
  | off
deriving DecidableEq, Repr

structure Subject where
  name : String
  pattern : Pattern
  /-- Classes of the subject may use anything. -/
  allowAll : Bool
  mayUse : Std.ExtTreeSet String
  mustNotUse : Std.ExtTreeSet String
deriving DecidableEq

structure Policy where
  default : Access
  /-- In the order of their declaration, no two of one name. -/
  subjects : List Subject
  /-- Classes that every subject may use. -/
  externals : List Pattern
  cycleMode : CycleMode
  /-- Packages that are left out of the search for cycles. -/
  cycleExclusions : List Pattern

inductive Declaration where
  | subject (name pattern : String) (allowAll : Bool)
  | mayUse (source target : String)
  | mustNotUse (source target : String)
  | external (pattern : String)
  | cycles (mode : CycleMode)
  | exclude (pattern : String)
deriving DecidableEq, Repr

inductive PolicyError where
  | pattern (error : PatternError)
  | unknownSubject (name : String)
  | duplicateSubject (name : String)
deriving DecidableEq, Repr

def PolicyError.message : PolicyError → String
  | pattern e => e.message
  | unknownSubject name => "unknown subject '" ++ name ++ "'"
  | duplicateSubject name => "subject '" ++ name ++ "' is declared twice"

namespace Policy

def compilePattern (text : String) : Except PolicyError Pattern :=
  (Pattern.compile text).mapError .pattern

/-- The targets that `relation` gives the subject `name`. -/
def targetsOf (relation : Declaration → Option (String × String)) (name : String)
    (declarations : List Declaration) : Std.ExtTreeSet String :=
  Std.ExtTreeSet.ofList
    ((declarations.filterMap relation).filterMap fun r => if r.1 = name then some r.2 else none)

end Policy

namespace Declaration

def mayUse? : Declaration → Option (String × String)
  | mayUse source target => some (source, target)
  | _ => none

def mustNotUse? : Declaration → Option (String × String)
  | mustNotUse source target => some (source, target)
  | _ => none

/-- The ends of a relation of either kind. -/
def relation? : Declaration → Option (String × String)
  | mayUse source target | mustNotUse source target => some (source, target)
  | _ => none

def subject? : Declaration → Option (String × String × Bool)
  | subject name pattern allowAll => some (name, pattern, allowAll)
  | _ => none

def external? : Declaration → Option String
  | external pattern => some pattern
  | _ => none

def exclude? : Declaration → Option String
  | exclude pattern => some pattern
  | _ => none

def mode? : Declaration → Option CycleMode
  | cycles mode => some mode
  | _ => none

end Declaration

namespace Policy

/-- Compiles the declared subjects after those in `names`. A repeated name is found before a bad
pattern. -/
def buildSubjects (declarations : List Declaration) :
    List String → List (String × String × Bool) → Except PolicyError (List Subject)
  | _, [] => .ok []
  | names, (name, text, allowAll) :: rest => do
    if names.contains name then .error (.duplicateSubject name)
    else
      let pattern ← compilePattern text
      let others ← buildSubjects declarations (name :: names) rest
      return {
        name
        pattern
        allowAll
        mayUse := targetsOf Declaration.mayUse? name declarations
        mustNotUse := targetsOf Declaration.mustNotUse? name declarations
      } :: others

/-- Both ends of a relation are subjects. -/
def checkRelation (subjects : List Subject) (relation : String × String) :
    Except PolicyError Unit :=
  if !subjects.any (·.name = relation.1) then .error (.unknownSubject relation.1)
  else if !subjects.any (·.name = relation.2) then .error (.unknownSubject relation.2)
  else .ok ()

/-- The policy that the declarations make, whatever the order of their kinds. Subjects are checked
first, then relations, external patterns and exclusions. The last cycle mode counts. -/
def build (default : Access) (declarations : List Declaration) : Except PolicyError Policy := do
  let subjects ← buildSubjects declarations [] (declarations.filterMap Declaration.subject?)
  (declarations.filterMap Declaration.relation?).forM (checkRelation subjects)
  let externals ← (declarations.filterMap Declaration.external?).mapM compilePattern
  let cycleExclusions ← (declarations.filterMap Declaration.exclude?).mapM compilePattern
  return {
    default
    subjects
    externals
    cycleMode := ((declarations.filterMap Declaration.mode?).getLast?).getD .packages
    cycleExclusions
  }

/-- Allows everything and looks for package cycles only. -/
def permissive : Policy where
  default := .allow
  subjects := []
  externals := []
  cycleMode := .packages
  cycleExclusions := []

end Policy

end ClassDeps
