import ClassDeps.Policy.Evaluate
import ClassDeps.Scan.Basic

namespace ClassDeps

inductive Rule where
  | dependencyCycle
  | dependencyViolation
  | emptySubject
  | unreadableInput
  | unusedRule
deriving DecidableEq, Repr

namespace Rule

def id : Rule → String
  | dependencyCycle => "DEPENDENCY_CYCLE"
  | dependencyViolation => "DEPENDENCY_VIOLATION"
  | emptySubject => "EMPTY_SUBJECT"
  | unreadableInput => "UNREADABLE_INPUT"
  | unusedRule => "UNUSED_RULE"

def name : Rule → String
  | dependencyCycle => "Dependency cycle"
  | dependencyViolation => "Dependency violation"
  | emptySubject => "Empty subject"
  | unreadableInput => "Unreadable input"
  | unusedRule => "Unused dependency rule"

def description : Rule → String
  | dependencyCycle => "Packages or subjects depend on each other in a cycle"
  | dependencyViolation => "A class depends on a class its subject is not allowed to use"
  | emptySubject => "A policy subject matches none of the analyzed classes"
  | unreadableInput => "An input could not be read, so its classes were not checked"
  | unusedRule => "A declared may-use relation is not exercised by any class"

/-- All rules, in the order of their ids. -/
def all : List Rule :=
  [dependencyCycle, dependencyViolation, emptySubject, unreadableInput, unusedRule]

end Rule

/-- What a finding is about. -/
inductive Place where
  | classNamed (name : String)
  | package (name : String)
  | subject (name : String)
  | input (location : String)
deriving DecidableEq, Repr

structure Finding where
  rule : Rule
  message : String
  places : List Place
deriving DecidableEq, Repr

namespace Finding

/-- The members of a cycle are subjects or packages, as the mode says. -/
def ofCycle (mode : CycleMode) (c : Cycle) : Finding :=
  ⟨.dependencyCycle, c.text, c.members.map (if mode = .subjects then .subject else .package)⟩

def ofViolation (v : Violation) : Finding :=
  let advice :=
    match v.kind with
    | .notAllowed => "; declare the dependency or remove the reference."
    | .forbidden => "; remove the reference."
  ⟨.dependencyViolation, v.text ++ advice, [.classNamed v.edge.source, .classNamed v.edge.target]⟩

def ofEmptySubject (subject : String) : Finding :=
  ⟨.emptySubject, "Subject " ++ subject ++ " matches no analyzed class; check its pattern.",
    [.subject subject]⟩

def ofFailure (f : ScanFailure) : Finding :=
  ⟨.unreadableInput, "Skipped " ++ f.location ++ ": " ++ f.message, [.input f.location]⟩

def ofUnusedRule (r : UnusedRule) : Finding :=
  ⟨.unusedRule, r.text ++ "; drop the rule.", [.subject r.subject]⟩

/-- By the ids of the rules, then by message. -/
def before (a b : Finding) : Bool :=
  a.rule.id < b.rule.id || a.rule.id = b.rule.id && a.message ≤ b.message

end Finding

/-- A finding for each of the things found, rule by rule. -/
def Finding.collect (mode : CycleMode) (e : Evaluation) (failures : List ScanFailure) :
    List Finding :=
  e.cycles.map (ofCycle mode) ++ e.violations.map ofViolation ++
    e.emptySubjects.map ofEmptySubject ++ failures.map ofFailure ++ e.unusedRules.map ofUnusedRule

/-- The findings in the order of a report. Those with one rule and one message stay in the order
they were found in. -/
def findings (mode : CycleMode) (e : Evaluation) (failures : List ScanFailure) : List Finding :=
  (Finding.collect mode e failures).mergeSort Finding.before

end ClassDeps
