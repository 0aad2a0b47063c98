import ClassDeps.Json.Basic
import ClassDeps.Report.Basic

namespace ClassDeps

/-- What a report says of the run that made it. -/
structure Invocation where
  /-- The program's name first. -/
  arguments : List String
  classCount : Nat
  packageCount : Nat
  artifactCount : Nat
  subjectCount : Nat
  scanMilliseconds : Nat
  evaluationMilliseconds : Nat
  traceId : Option String

namespace Sarif

def schema : String := "https://schemastore.azurewebsites.net/schemas/json/sarif-2.1.0.json"

def message (text : String) : Json := .ofFields [("text", .text text)]

def texts (l : List String) : Json := .array (l.map .text)

def rule (r : Rule) : Json :=
  .ofFields [("id", .text r.id), ("name", .text r.name),
    ("shortDescription", message r.description)]

def logical (kind name : String) : Json :=
  .ofFields [("logicalLocations",
    .array [.ofFields [("kind", .text kind), ("name", .text name)]])]

def place : Place → Json
  | .classNamed name => logical "type" name
  | .package name => logical "namespace" name
  | .subject name => logical "module" name
  | .input location =>
    .ofFields [("physicalLocation",
      .ofFields [("artifactLocation", .ofFields [("uri", .text location)])])]

def finding (f : Finding) : Json :=
  .ofFields [("ruleId", .text f.rule.id), ("message", message f.message),
    ("locations", .array (f.places.map place))]

def artifact (a : Artifact) : Json :=
  .ofFields ([("location", .ofFields [("uri", .text a.uri)]), ("length", .ofNat a.length)] ++
    (a.parent.map fun p => ("parentIndex", Json.ofNat p)).toList ++
    if a.isTarget then [("roles", texts ["analysisTarget"])] else [])

def invocation (i : Invocation) : Json :=
  .ofFields [
    ("arguments", texts i.arguments),
    ("commandLine", .text (" ".intercalate i.arguments)),
    ("executionSuccessful", .bool true),
    ("properties", .ofFields ([
      ("classgate.artifact_count", .ofNat i.artifactCount),
      ("classgate.class_count", .ofNat i.classCount),
      ("classgate.evaluation_ms", .ofNat i.evaluationMilliseconds),
      ("classgate.package_count", .ofNat i.packageCount),
      ("classgate.scan_ms", .ofNat i.scanMilliseconds),
      ("classgate.subject_count", .ofNat i.subjectCount)] ++
      (i.traceId.map fun id => ("classgate.trace_id", Json.text id)).toList))]

/-- The log of one run. Artifacts are left out if there are none, results never. -/
def log (artifacts : List Artifact) (i : Invocation) (findings : List Finding) : Json :=
  let driver := Json.ofFields [("name", .text "classgate"), ("rules", .array (Rule.all.map rule))]
  let run := [
    ("tool", Json.ofFields [("driver", driver)]),
    ("invocations", .array [invocation i]),
    ("results", .array (findings.map finding))]
  let run :=
    if artifacts.isEmpty then run
    else run ++ [("artifacts", Json.array (artifacts.map artifact))]
  .ofFields [("$schema", .text schema), ("version", .text "2.1.0"),
    ("runs", .array [.ofFields run])]

end Sarif

end ClassDeps
