import ClassDeps.Text.Split

namespace ClassDeps.Name

/-- Stands for the package of a class whose name has no dot. -/
def unnamedPackage : String := "<Unnamed Package>"

def packageOf (name : String) : String :=
  match Text.splitLast? '.' name.toList with
  | some (package, _) => String.ofList package
  | none => unnamedPackage

/-- The name without its package. Classes nested in it stay, after their dollar signs. -/
def simple (name : String) : String :=
  match Text.splitLast? '.' name.toList with
  | some (_, simple) => String.ofList simple
  | none => name

/-- A class of this simple name carries the annotations of its package. -/
def isPackageInfo (name : String) : Bool :=
  simple name = "package-info"

end ClassDeps.Name
