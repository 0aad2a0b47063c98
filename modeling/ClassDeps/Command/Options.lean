import ClassDeps.Policy.Basic

namespace ClassDeps

structure Options where
  inputs : List String
  policy : Option String
  output : Option String
  cycles : Option CycleMode
  failOnFindings : Bool
  quiet : Bool
  timing : Bool
  /-- The address of a trace collector. -/
  otel : Option String
deriving DecidableEq, Repr

/-- What a command line asks for. -/
inductive Request where
  | run (options : Options)
  | version
  | help
  /-- The command line is wrong. -/
  | usage
deriving DecidableEq, Repr

namespace Options

def initial : Options := ⟨[], none, none, none, false, false, false, none⟩

/-- The options that take one value. -/
inductive Slot where
  | policy
  | output
  | cycles
  | otel
deriving DecidableEq, Repr

inductive Flag where
  | failOnFindings
  | quiet
  | timing
  | version
  | help
deriving DecidableEq, Repr

inductive Name where
  | input
  | slot (slot : Slot)
  | flag (flag : Flag)
deriving DecidableEq, Repr

def name? : String → Option Name
  | "input" => some .input
  | "policy" => some (.slot .policy)
  | "output" => some (.slot .output)
  | "cycles" => some (.slot .cycles)
  | "otel" => some (.slot .otel)
  | "fail-on-findings" => some (.flag .failOnFindings)
  | "quiet" => some (.flag .quiet)
  | "timing" => some (.flag .timing)
  | "version" => some (.flag .version)
  | "help" => some (.flag .help)
  | _ => none

def cycleMode? : String → Option CycleMode
  | "packages" => some .packages
  | "subjects" => some .subjects
  | "off" => some .off
  | _ => none

/-- An option may have one value only. -/
def once {α : Type} (old : Option α) (new : Option α) : Except Request (Option α) :=
  if old.isSome || new.isNone then .error .usage else .ok new

/-- A path may not be empty. -/
def path? (text : String) : Option String :=
  if text.isEmpty then none else some text

def set (o : Options) (text : String) : Slot → Except Request Options
  | .policy => return { o with policy := ← once o.policy (path? text) }
  | .output => return { o with output := ← once o.output (path? text) }
  | .cycles => return { o with cycles := ← once o.cycles (cycleMode? text) }
  | .otel => return { o with otel := ← once o.otel (some text) }

def addInput (o : Options) (text : String) : Except Request Options :=
  match path? text with
  | some path => .ok { o with inputs := o.inputs ++ [path] }
  | none => .error .usage

/-- A flag may be given once. Some end the reading of the command line. -/
def raise (o : Options) : Flag → Except Request Options
  | .failOnFindings =>
    if o.failOnFindings then .error .usage else .ok { o with failOnFindings := true }
  | .quiet => if o.quiet then .error .usage else .ok { o with quiet := true }
  | .timing => if o.timing then .error .usage else .ok { o with timing := true }
  | .version => .error .version
  | .help => .error .help

/-- A word of the command line. -/
inductive Word where
  /-- The end of all options. -/
  | stop
  | long (name : String) (value : Option String)
  /-- One dash and letters, of which the first decides. -/
  | short (letter : Char)
  | value (text : String)
deriving DecidableEq, Repr

def Word.ofText (text : String) : Word :=
  match text.toList with
  | ['-', '-'] => .stop
  | '-' :: '-' :: rest =>
    match Text.splitFirst? '=' rest with
    | some (name, text) => .long (String.ofList name) (some (String.ofList text))
    | none => .long (String.ofList rest) none
  | '-' :: c :: _ => .short c
  | _ => .value text

/-- The option that the next value belongs to. -/
inductive Pending where
  | nothing
  /-- Inputs take any number of values after the first. -/
  | inputs (given : Bool)
  | slot (slot : Slot)
deriving DecidableEq, Repr

/-- No value is missing. -/
def Pending.isDone : Pending → Bool
  | nothing => true
  | inputs given => given
  | slot _ => false

/-- Takes a word that is not the end of the options. -/
def take (o : Options) (pending : Pending) : Word → Except Request (Options × Pending)
  | .value text =>
    match pending with
    | .nothing => .error .usage
    | .inputs _ => return (← o.addInput text, .inputs true)
    | .slot s => return (← o.set text s, .nothing)
  | .short letter =>
    if pending.isDone && letter = 'V' then .error .version
    else if pending.isDone && letter = 'h' then .error .help
    else .error .usage
  | .long name value =>
    if !pending.isDone then .error .usage
    else
      match name? name, value with
      | some .input, none => .ok (o, .inputs false)
      | some .input, some text => return (← o.addInput text, .nothing)
      | some (.slot s), none => .ok (o, .slot s)
      | some (.slot s), some text => return (← o.set text s, .nothing)
      | some (.flag f), none => return (← o.raise f, .nothing)
      | some (.flag _), some _ => .error .usage
      | none, _ => .error .usage
  | .stop => .error .usage

/-- There has to be an input, and no value may be missing. -/
def finish (o : Options) (pending : Pending) : Request :=
  if pending.isDone && !o.inputs.isEmpty then .run o else .usage

/-- Takes the words in turn. Nothing may follow the end of the options. -/
def read (o : Options) (pending : Pending) : List String → Request
  | [] => o.finish pending
  | text :: rest =>
    match Word.ofText text with
    | .stop => if rest.isEmpty then o.finish pending else .usage
    | word =>
      match o.take pending word with
      | .ok (o, pending) => o.read pending rest
      | .error request => request

end Options

def Request.ofArguments (arguments : List String) : Request :=
  Options.initial.read .nothing arguments

end ClassDeps
