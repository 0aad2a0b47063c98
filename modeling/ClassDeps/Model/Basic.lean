import ClassDeps.Model.Arena
import ClassDeps.Model.Definition
import ClassDeps.Name

namespace ClassDeps

abbrev ClassId := Nat

abbrev PackageId := Nat

structure ClassNode where
  name : String
  package : PackageId
  size : Nat
  codeSize : Nat
  defined : Bool
  outer : Option String
  annotations : Std.ExtTreeSet ClassId
  uses : Std.ExtTreeSet ClassId

/-- A class of which only the name is known. -/
def ClassNode.mentioned (name : String) (package : PackageId) : ClassNode where
  name
  package
  size := 0
  codeSize := 0
  defined := false
  outer := none
  annotations := ∅
  uses := ∅

def ClassNode.isPackageInfo (c : ClassNode) : Bool :=
  Name.isPackageInfo c.name

structure PackageNode where
  name : String
  classes : Std.ExtTreeSet ClassId
  /-- What is declared on the package itself. -/
  annotations : Std.ExtTreeSet ClassId

def PackageNode.isUnnamed (p : PackageNode) : Bool :=
  p.name = Name.unnamedPackage

structure Model where
  packages : Arena PackageNode
  classes : Arena ClassNode

/-- A class is defined twice with different content. -/
structure Conflict where
  name : String
deriving DecidableEq, Repr

def Conflict.message (c : Conflict) : String :=
  "class " ++ c.name ++ " is defined twice with different content"

namespace Model

def empty : Model where
  packages := .empty
  classes := .empty

/-- The number of the package called `name`, which is added if it is new. -/
def internPackage (m : Model) (name : String) : PackageId × Model :=
  match m.packages.find? name with
  | some id => (id, m)
  | none =>
    (m.packages.size,
      { m with packages := m.packages.add name { name, classes := ∅, annotations := ∅ } })

/-- The number of the class called `name`, which is added with its package if it is new. -/
def internClass (m : Model) (name : String) : ClassId × Model :=
  match m.classes.find? name with
  | some id => (id, m)
  | none =>
    let (package, m) := m.internPackage (Name.packageOf name)
    let id := m.classes.size
    (id, {
      classes := m.classes.add name (.mentioned name package)
      packages := m.packages.modify package fun p => { p with classes := p.classes.insert id }
    })

/-- Records that a class uses the class called `target`. A class does not use itself. -/
def addUse (m : Model) (id : ClassId) (target : String) : Model :=
  if (m.classes.get? id).any (·.name = target) then m
  else
    let (used, m) := m.internClass target
    { m with classes := m.classes.modify id fun c => { c with uses := c.uses.insert used } }

def annotate (m : Model) (id : ClassId) (type : String) : Model :=
  let (type, m) := m.internClass type
  { m with
    classes := m.classes.modify id fun c => { c with annotations := c.annotations.insert type } }

/-- The names of the classes in `ids`. -/
def classNames (m : Model) (ids : Std.ExtTreeSet ClassId) : List String :=
  ids.toList.filterMap fun id => (m.classes.get? id).map (·.name)

/-- What a class of the model would be defined by. -/
def definitionOf (m : Model) (c : ClassNode) : ClassDefinition where
  name := c.name
  size := c.size
  codeSize := c.codeSize
  outer := c.outer
  annotations := Std.ExtTreeSet.ofList (m.classNames c.annotations)
  uses := Std.ExtTreeSet.ofList (m.classNames c.uses)

/-- Adds the annotations of the class `id` to its package if it is a package's information. -/
def annotatePackage (m : Model) (id : ClassId) : Model :=
  match m.classes.get? id with
  | some c =>
    if c.isPackageInfo then
      { m with
        packages := m.packages.modify c.package fun p =>
          { p with annotations := p.annotations.insertMany c.annotations.toList } }
    else m
  | none => m

/-- Fills in the class `id` from its definition. -/
def fill (m : Model) (id : ClassId) (d : ClassDefinition) : Model :=
  let m := { m with
    classes := m.classes.modify id fun c =>
      { c with defined := true, size := d.size, codeSize := d.codeSize, outer := d.outer } }
  let m := d.uses.toList.foldl (addUse · id ·) m
  let m := d.annotations.toList.foldl (annotate · id ·) m
  m.annotatePackage id

/-- Defines a class. To define it again with the same content changes nothing, and with other
content fails. -/
def define (m : Model) (d : ClassDefinition) : Except Conflict ClassId × Model :=
  let (id, m) := m.internClass d.name
  match m.classes.get? id with
  | some c =>
    if c.defined then
      if m.definitionOf c = d then (.ok id, m) else (.error ⟨d.name⟩, m)
    else (.ok id, m.fill id d)
  | none => (.ok id, m)

/-- Adds classes of the model `other`, the first conflict ending it. -/
def mergeClasses (m other : Model) : List ClassNode → Except Conflict Unit × Model
  | [] => (.ok (), m)
  | c :: rest =>
    if c.defined then
      match m.define (other.definitionOf c) with
      | (.ok _, m) => mergeClasses m other rest
      | (.error e, m) => (.error e, m)
    else mergeClasses (m.internClass c.name).2 other rest

/-- The union of two models by name. -/
def merge (m other : Model) : Except Conflict Unit × Model :=
  let m := other.packages.items.foldl (fun m p => (m.internPackage p.name).2) m
  mergeClasses m other other.classes.items.toList

/-- The packages that classes of a package use, other than itself. -/
def packageUses (m : Model) (package : PackageId) : Std.ExtTreeSet PackageId :=
  match m.packages.get? package with
  | none => ∅
  | some p =>
    let targets := p.classes.toList.flatMap fun id =>
      ((m.classes.get? id).map (·.uses.toList)).getD []
    let packages := targets.filterMap fun id => (m.classes.get? id).map (·.package)
    Std.ExtTreeSet.ofList (packages.filter (· ≠ package))

/-- The defined classes, in the order of their names. -/
def definedClasses (m : Model) : List (ClassId × ClassNode) :=
  m.classes.byName.filter (·.2.defined)

end Model

end ClassDeps
