import ClassDeps.Json.Reader
import ClassDeps.Json.Schema
import ClassDeps.Policy.Basic

namespace ClassDeps

structure SubjectEntry where
  pattern : Option String
  allowAll : Bool
  mayUse : List String
  mustNotUse : List String
deriving DecidableEq, Repr

structure PolicyDocument where
  default : Access
  base : Option String
  externals : List String
  /-- In the order of their names. -/
  subjects : List (String × SubjectEntry)
  cycleMode : CycleMode
  cycleExclusions : List String
deriving DecidableEq, Repr

inductive DocumentError where
  | json (error : Json.ReadError)
  | schema (faults : List Json.SchemaFault)
  /-- A value that is none of a policy document. The schema leaves none. -/
  | shape
  | relativePattern (subject pattern : String)
  | policy (error : PolicyError)

def DocumentError.message : DocumentError → String
  | json e => "invalid policy: invalid JSON: " ++ e.message
  | schema faults => "invalid policy: " ++ "; ".intercalate (faults.map Json.SchemaFault.message)
  | shape => "invalid policy: not a policy document"
  | relativePattern subject pattern =>
    "invalid policy: subject '" ++ subject ++ "' uses relative pattern '" ++ pattern ++
      "' without a base"
  | policy e => e.message

namespace PolicyDocument

open Json (Schema)

def subjectSchema : Schema :=
  .record [
    ("allow_all", .boolean),
    ("may_use", .array (.text false) true),
    ("must_not_use", .array (.text false) true),
    ("pattern", .text true)]

def schema : Schema :=
  .record [
    ("base", .text true),
    ("cycles", .record [
      ("exclude", .array (.text true) false),
      ("mode", .oneOf ["packages", "subjects", "off"])]),
    ("default", .oneOf ["deny", "allow"]),
    ("externals", .array (.text true) false),
    ("subjects", .map subjectSchema)]

def text? : Json → Option String
  | .text s => some s
  | _ => none

def flag? : Json → Option Bool
  | .bool b => some b
  | _ => none

def texts? : Json → Option (List String)
  | .array xs => xs.mapM text?
  | _ => none

def access? : Json → Option Access
  | .text "deny" => some .deny
  | .text "allow" => some .allow
  | _ => none

def mode? : Json → Option CycleMode
  | .text "packages" => some .packages
  | .text "subjects" => some .subjects
  | .text "off" => some .off
  | _ => none

/-- The fields of an object that has none but the named ones. -/
def record? (names : List String) : Json → Option (Std.ExtTreeMap String Json)
  | .object fields =>
    let found := Json.members fields
    if found.keys.all names.contains then some found else none
  | _ => none

/-- A field that may be missing. -/
def field? {α : Type} (fields : Std.ExtTreeMap String Json) (name : String)
    (decode : Json → Option α) (default : α) : Option α :=
  match fields[name]? with
  | none => some default
  | some value => decode value

def subject? (value : Json) : Option SubjectEntry := do
  let fields ← record? ["allow_all", "may_use", "must_not_use", "pattern"] value
  return {
    pattern := ← field? fields "pattern" (fun v => (text? v).map some) none
    allowAll := ← field? fields "allow_all" flag? false
    mayUse := ← field? fields "may_use" texts? []
    mustNotUse := ← field? fields "must_not_use" texts? []
  }

def subjects? : Json → Option (List (String × SubjectEntry))
  | .object fields =>
    (Json.members fields).toList.mapM fun s => (subject? s.2).map (s.1, ·)
  | _ => none

/-- The mode and the excluded patterns of the `cycles` section. -/
def cycles? (value : Json) : Option (CycleMode × List String) := do
  let fields ← record? ["exclude", "mode"] value
  return (← field? fields "mode" mode? .packages, ← field? fields "exclude" texts? [])

def ofJson? (value : Json) : Option PolicyDocument := do
  let fields ← record? ["base", "cycles", "default", "externals", "subjects"] value
  let cycles ← field? fields "cycles" cycles? (.packages, [])
  return {
    default := ← field? fields "default" access? .deny
    base := ← field? fields "base" (fun v => (text? v).map some) none
    externals := ← field? fields "externals" texts? []
    subjects := ← field? fields "subjects" subjects? []
    cycleMode := cycles.1
    cycleExclusions := cycles.2
  }

/-- The full pattern of a subject. -/
def resolvePattern (base : Option String) (name : String) :
    Option String → Except DocumentError String
  | none => .ok (match base with
    | some base => base ++ "." ++ name
    | none => name)
  | some pattern =>
    if pattern.toList.head? ≠ some '.' then .ok pattern
    else
      match base with
      | none => .error (.relativePattern name pattern)
      | some base => .ok (if pattern = "." then base else base ++ pattern)

def relations (subjects : List (String × SubjectEntry)) : List Declaration :=
  subjects.flatMap fun (name, entry) =>
    entry.mayUse.map (.mayUse name) ++ entry.mustNotUse.map (.mustNotUse name)

def declarations (document : PolicyDocument) : Except DocumentError (List Declaration) := do
  let subjects ← document.subjects.mapM fun (name, entry) => do
    let pattern ← resolvePattern document.base name entry.pattern
    return Declaration.subject name pattern entry.allowAll
  return subjects ++ relations document.subjects ++ document.externals.map .external ++
    .cycles document.cycleMode :: document.cycleExclusions.map .exclude

def policy (document : PolicyDocument) : Except DocumentError Policy := do
  (Policy.build document.default (← document.declarations)).mapError .policy

end PolicyDocument

/-- The policy of a JSON value, once the schema accepts it. -/
def Policy.ofJson (value : Json) : Except DocumentError Policy :=
  match PolicyDocument.schema.check value with
  | [] =>
    match PolicyDocument.ofJson? value with
    | some document => document.policy
    | none => .error .shape
  | faults => .error (.schema faults)

def Policy.ofText (text : String) : Except DocumentError Policy := do
  Policy.ofJson (← (Json.ofText text).mapError .json)

end ClassDeps
