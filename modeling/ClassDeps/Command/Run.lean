import ClassDeps.Command.Endpoint
import ClassDeps.Command.Options
import ClassDeps.Json.Printer
import ClassDeps.Policy.Document
import ClassDeps.Report.Sarif

namespace ClassDeps

inductive PolicyFileError where
  | file (path : String) (error : FileError)
  | document (error : DocumentError)

def PolicyFileError.message : PolicyFileError → String
  | file path _ => "failed to read " ++ path
  | document e => e.message

/-- The policy of a file. -/
def Policy.load (files : FileSystem) (path : String) : Except PolicyFileError Policy := do
  let text ← (files.readText path).mapError (.file path)
  (Policy.ofText text).mapError .document

inductive RunError where
  | inputNotFound (path : String)
  | endpoint (fault : Endpoint.Fault)
  | policy (path : String) (error : PolicyFileError)
  | scan (error : ScanError)
  | evaluation (error : EvaluationError)
  | output (path : String) (error : FileError)

namespace RunError

def message : RunError → String
  | inputNotFound path => "input not found: " ++ path
  | endpoint fault => fault.message
  | policy path _ => "failed to load policy " ++ path
  | scan _ => "failed to read inputs"
  | evaluation _ => "failed to evaluate dependency policy"
  | output path _ => "failed to open " ++ path

/-- What lies behind the error, the nearest cause first. -/
def causes : RunError → List String
  | inputNotFound _ => []
  | endpoint fault => [fault.cause]
  | policy _ e =>
    e.message :: match e with
      | .file _ cause => [cause.message]
      | .document _ => []
  | scan e =>
    e.message :: match e with
      | .file _ cause => [cause.message]
      | .refused (.malformed _ cause) => cause.message :: cause.cause?.toList
      | .refused (.conflict _) | .unreadable _ _ => []
  | evaluation e => [e.message]
  | output _ e => [e.message]

/-- A cause with `label` in front and its further lines as far in. -/
def indent (label text : String) : String :=
  let margin := List.replicate label.length ' '
  label ++ String.ofList (text.toList.flatMap fun c => if c = '\n' then c :: margin else [c])

/-- The error and its causes, which have numbers if there are several. -/
def text (e : RunError) : String :=
  let lines :=
    match e.causes with
    | [] => []
    | [cause] => [indent "    " cause]
    | many => many.zipIdx.map fun (cause, i) => indent ("    " ++ toString i ++ ": ") cause
  "Error: " ++ e.message ++
    if lines.isEmpty then "" else "\n\nCaused by:\n" ++ "\n".intercalate lines

end RunError

/-- Milliseconds that were spent. -/
structure Durations where
  total : Nat
  scan : Nat
  evaluation : Nat

/-- What a run depends on besides its options. -/
structure Host where
  files : FileSystem
  /-- Whether a file can be made at a path. -/
  canCreate : String → Except FileError Unit
  unzip : Unzip
  /-- The program's name and the arguments it was given. -/
  arguments : List String
  /-- Names the run where it is traced. -/
  traceId : String

/-- What a run has found. -/
structure Report where
  subjectCount : Nat
  scan : Scan
  findings : List Finding

/-- What a run leaves behind. -/
structure Outcome where
  exitCode : Nat
  stdout : String
  /-- A path and the text that is written there. -/
  file : Option (String × String)
  stderr : String

namespace Options

/-- All inputs exist, and the trace collector has an address. -/
def check (o : Options) (files : FileSystem) : Except RunError Unit := do
  o.inputs.forM fun path =>
    match files.find path with
    | .ok _ => .ok ()
    | .error _ => .error (.inputNotFound path)
  match o.otel with
  | none => return
  | some address => discard ((Endpoint.ofText address).mapError .endpoint)

/-- The policy to apply. Without a file everything is allowed, and only cycles are looked for. -/
def loadPolicy (o : Options) (files : FileSystem) : Except RunError Policy := do
  let policy ←
    match o.policy with
    | none => .ok .permissive
    | some path => (Policy.load files path).mapError (.policy path)
  return match o.cycles with
    | none => policy
    | some mode => { policy with cycleMode := mode }

/-- The policy of a run that goes on to its inputs. -/
def prepare (o : Options) (files : FileSystem) : Except RunError Policy := do
  o.check files
  o.loadPolicy files

/-- The policy and the classes of a run. There is no result if the scan does not return. -/
def collect (o : Options) (host : Host) : Option (Except RunError (Policy × Scan)) :=
  match o.prepare host.files with
  | .error e => some (.error e)
  | .ok policy => do
    let scan ← Scan.inputs host.unzip host.files o.inputs
    return (scan.mapError RunError.scan).map fun scan => (policy, scan)

end Options

/-- Checks what was scanned against the policy. -/
def Scan.judge (scan : Scan) (policy : Policy) : Except RunError Report := do
  let evaluation ← (policy.evaluate scan.model).mapError .evaluation
  return {
    subjectCount := policy.subjects.length
    scan
    findings := ClassDeps.findings policy.cycleMode evaluation scan.failures
  }

namespace Report

def json (r : Report) (o : Options) (host : Host) (durations : Durations) : Json :=
  Sarif.log r.scan.artifacts {
    arguments := host.arguments
    classCount := r.scan.classCount
    packageCount := r.scan.model.packages.size
    artifactCount := r.scan.artifacts.length
    subjectCount := r.subjectCount
    scanMilliseconds := durations.scan
    evaluationMilliseconds := durations.evaluation
    traceId := o.otel.map fun _ => host.traceId
  } r.findings

def timing (r : Report) (durations : Durations) : String :=
  "timing: total_ms=" ++ toString durations.total ++ " scan_ms=" ++ toString durations.scan ++
    " evaluation_ms=" ++ toString durations.evaluation ++
    " classes=" ++ toString r.scan.classCount ++
    " artifacts=" ++ toString r.scan.artifacts.length ++ "\n"

/-- One if there are findings and they are to fail the run. -/
def exitCode (r : Report) (o : Options) : Nat :=
  if o.failOnFindings && !r.findings.isEmpty then 1 else 0

end Report

namespace Outcome

def ofError (e : RunError) : Outcome := ⟨1, "", none, e.text ++ "\n"⟩

/-- The report goes to the output file, or to standard output if there is none or it is a dash. -/
def ofReport (r : Report) (o : Options) (host : Host) (durations : Durations) : Outcome :=
  let text := (r.json o host durations).pretty ++ "\n"
  let stderr := if o.timing && !o.quiet then r.timing durations else ""
  match o.output.filter fun path => Path.components path ≠ ["-"] with
  | none => ⟨r.exitCode o, text, none, stderr⟩
  | some path =>
    match host.canCreate path with
    | .ok _ => ⟨r.exitCode o, "", some (path, text), stderr⟩
    | .error e => .ofError (.output path e)

def version : Outcome := ⟨0, "classgate 0.1.0\n", none, ""⟩

def usage : Outcome :=
  ⟨2, "", none, "error: invalid arguments\n\nFor more information, try '--help'.\n"⟩

def help : Outcome where
  exitCode := 0
  stdout := "\n".intercalate [
    "Architecture dependency rules and cycle detection for JVM class files and archives, " ++
      "reported as SARIF.",
    "",
    "Usage: classgate [OPTIONS] --input <PATH>...",
    "",
    "Options:",
    "      --input <PATH>...   Class file, directory or jar/zip/war/ear archive to analyze",
    "      --policy <FILE>     JSON policy; without one only dependency cycles are reported",
    "      --output <PATH>",
    "      --cycles <CYCLES>   Override the policy's cycle detection mode " ++
      "[possible values: packages, subjects, off]",
    "      --fail-on-findings  Exit with status 1 when any result is reported",
    "      --quiet",
    "      --timing",
    "      --otel <URL>        OTLP/HTTP collector endpoint for trace export",
    "  -h, --help              Print help",
    "  -V, --version           Print version",
    ""]
  file := none
  stderr := ""

end Outcome

/-- A run with these options, if it comes to an end. -/
def Options.run (o : Options) (host : Host) (durations : Durations) : Option Outcome := do
  let collected ← o.collect host
  match collected >>= fun (policy, scan) => scan.judge policy with
  | .ok report => return .ofReport report o host durations
  | .error e => return .ofError e

/-- Does what the arguments after the program's name ask for. -/
def run (host : Host) (durations : Durations) : Option Outcome :=
  match Request.ofArguments (host.arguments.drop 1) with
  | .run o => o.run host durations
  | .version => some .version
  | .help => some .help
  | .usage => some .usage

end ClassDeps
