import ClassDeps.Name
import ClassDeps.Text.Uppercase

namespace ClassDeps

/-- What one part of a location has to look like. -/
inductive Segment where
  | any
  | exact (text : String)
  | startsWith (head : String)
  | endsWith (tail : String)
deriving DecidableEq, Repr

inductive PatternFault where
  | empty
  | manyWildcards
  | innerWildcard
deriving DecidableEq, Repr

def PatternFault.message : PatternFault → String
  | empty => "pattern must not be empty"
  | manyWildcards => "at most one wildcard is allowed"
  | innerWildcard => "wildcard must be at the start or end of a segment"

structure PatternError where
  pattern : String
  fault : PatternFault
deriving DecidableEq, Repr

def PatternError.message (e : PatternError) : String :=
  "invalid pattern '" ++ e.pattern ++ "': " ++ e.fault.message

namespace Segment

/-- A segment with its wildcard, if it has one, at either end. -/
def ofText? (text : List Char) : Option Segment :=
  match text with
  | ['*'] => some .any
  | '*' :: tail => if tail.contains '*' then none else some (.endsWith (String.ofList tail))
  | _ =>
    if text.getLast? = some '*' then
      if text.dropLast.contains '*' then none
      else some (.startsWith (String.ofList text.dropLast))
    else if text.contains '*' then none
    else some (.exact (String.ofList text))

def accepts (s : Segment) (value : String) : Bool :=
  match s with
  | any => true
  | exact text => value = text
  | startsWith head => head.toList.isPrefixOf value.toList
  | endsWith tail => tail.toList.isSuffixOf value.toList

/-- Accepts a class by its own simple name or by that of its outermost class. -/
def acceptsClass (s : Segment) (name : String) : Bool :=
  s.accepts name ||
    match Text.splitFirst? '$' name.toList with
    | some (outer, _) => s.accepts (String.ofList outer)
    | none => false

end Segment

/-- A compiled pattern. A missing segment accepts everything, but see `acceptsPackage`. -/
structure Pattern where
  text : String
  package : Option Segment
  type : Option Segment
  method : Option Segment
deriving DecidableEq, Repr

namespace Pattern

/-- Whether a text starts with a capital, after a wildcard if it has one there. -/
def startsUppercase : List Char → Bool
  | '*' :: c :: _ => Text.isUppercase c
  | c :: _ => Text.isUppercase c
  | [] => false

/-- The package and the class in the part of a pattern before the method. -/
def splitLocation (location : List Char) : Option (List Char) × Option (List Char) :=
  match location with
  | [] => (none, none)
  | '/' :: type => (none, some type)
  | _ =>
    let whole :=
      if startsUppercase location then (none, some location) else (some location, none)
    match Text.splitLast? '.' location with
    | some (package, type) => if startsUppercase type then (some package, some type) else whole
    | none => whole

/-- The part before the first `#`, and the method after it. -/
def splitMethod (text : List Char) : List Char × Option (List Char) :=
  match Text.splitFirst? '#' text with
  | some (location, method) => (location, some method)
  | none => (text, none)

def segment? (pattern : String) :
    Option (List Char) → Except PatternError (Option Segment)
  | none => .ok none
  | some text =>
    match Segment.ofText? text with
    | some s => .ok (some s)
    | none => .error ⟨pattern, .innerWildcard⟩

def compile (pattern : String) : Except PatternError Pattern := do
  let text := pattern.toList
  if text.isEmpty then .error ⟨pattern, .empty⟩
  else if 1 < text.count '*' then .error ⟨pattern, .manyWildcards⟩
  else
    let (location, method) := splitMethod text
    let (package, type) := splitLocation location
    let method ← segment? pattern method
    let package ← segment? pattern package
    let type ← segment? pattern type
    return { text := pattern, package, type, method }

/-- Whether a segment that may be missing accepts a value. -/
def admits (s : Option Segment) (value : String) : Bool :=
  s.all (·.accepts value)

/-- Only a pattern of a package alone accepts a bare package. -/
def acceptsPackage (p : Pattern) (package : String) : Bool :=
  p.type.isNone && p.method.isNone && p.package.any (·.accepts package)

/-- Accepts a class whatever its package. -/
def acceptsClass (p : Pattern) (type : String) : Bool :=
  p.method.isNone && p.package.all (· = .any) && p.type.all (·.acceptsClass type)

def acceptsPackageClass (p : Pattern) (package type : String) : Bool :=
  p.method.isNone && admits p.package package && p.type.all (·.acceptsClass type)

/-- Accepts a method. If the pattern names one, the class has to be the very class it names. -/
def acceptsMethod (p : Pattern) (package type method : String) : Bool :=
  (if p.method.isSome then admits p.type type else p.type.all (·.acceptsClass type)) &&
    admits p.package package && admits p.method method

/-- The package of a class as patterns see it: the unnamed package is empty. -/
def packageText (package : String) : String :=
  if package = Name.unnamedPackage then "" else package

/-- Accepts a dotted class name. -/
def acceptsName (p : Pattern) (name : String) : Bool :=
  p.acceptsPackageClass (packageText (Name.packageOf name)) (Name.simple name)

end Pattern

end ClassDeps
