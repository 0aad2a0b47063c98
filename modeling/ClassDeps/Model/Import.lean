import ClassDeps.Model.Basic

namespace ClassDeps

inductive ImportError where
  | malformed (location : String) (cause : ClassFile.Malformed)
  | conflict (conflict : Conflict)
deriving DecidableEq, Repr

def ImportError.message : ImportError → String
  | malformed location cause => "malformed class file " ++ location ++ ": " ++ cause.message
  | conflict c => c.message

/-- The definition that the bytes of a class give. -/
def ClassDefinition.ofBytes (data : List UInt8) : Except ClassFile.Malformed ClassDefinition := do
  (← ClassFile.decode data).definition

def Model.importClass (m : Model) (data : List UInt8) (location : String) :
    Except ImportError ClassId × Model :=
  match ClassDefinition.ofBytes data with
  | .error cause => (.error (.malformed location cause), m)
  | .ok d =>
    match m.define d with
    | (.ok id, m) => (.ok id, m)
    | (.error c, m) => (.error (.conflict c), m)

end ClassDeps
