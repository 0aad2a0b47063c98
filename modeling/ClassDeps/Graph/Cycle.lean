import ClassDeps.Graph.Basic
import ClassDeps.Graph.Tarjan

namespace ClassDeps

/-- One step of a closed walk, with a class edge that accounts for it. -/
structure Hop where
  source : String
  target : String
  edge : ClassEdge
deriving DecidableEq, Repr

structure Cycle where
  /-- The nodes of the component, in ascending order. -/
  members : List String
  /-- A closed walk from the first member. -/
  chain : List Hop
deriving DecidableEq, Repr

namespace Hop

def text (h : Hop) : String :=
  h.source ++ " -> " ++ h.target ++ " (" ++ h.edge.source ++ " -> " ++ h.edge.target ++ ")"

end Hop

namespace Cycle

def text (c : Cycle) : String :=
  let members := "cycle between " ++ String.intercalate ", " c.members
  if c.chain.isEmpty then members
  else members ++ ": " ++ String.intercalate ", " (c.chain.map Hop.text)

end Cycle

namespace Graph

/-- A breadth-first search: from where each node was met, and the nodes to go on from. -/
structure Trace where
  previous : Std.ExtTreeMap String String
  queue : List String

/-- Goes through the ends of the edges out of `node` until one of them is `start`. Members that are
met for the first time are put in the queue. -/
def Trace.follow (members : Std.ExtTreeSet String) (start node : String) :
    List String → Trace → Bool × Trace
  | [], t => (false, t)
  | next :: rest, t =>
    if next = start then (true, t)
    else if members.contains next && !t.previous.contains next then
      follow members start node rest ⟨t.previous.insert next node, t.queue ++ [next]⟩
    else follow members start node rest t

/-- Searches for a way back to `start`: its last node, and from where each node was met. -/
def closing? (g : Graph) (members : Std.ExtTreeSet String) (start : String) :
    Nat → Trace → Option (String × Std.ExtTreeMap String String)
  | 0, _ => none
  | n + 1, t =>
    match t.queue with
    | [] => none
    | node :: queue =>
      match Trace.follow members start node (g.successors node) { t with queue } with
      | (true, t) => some (node, t.previous)
      | (false, t) => g.closing? members start n t

/-- The nodes before `cursor` back to `start`, the latest first. -/
def backtrack? (previous : Std.ExtTreeMap String String) (start : String) :
    Nat → String → Option (List String)
  | 0, cursor => if cursor = start then some [] else none
  | n + 1, cursor =>
    if cursor = start then some []
    else do
      let before ← previous[cursor]?
      return before :: (← backtrack? previous start n before)

/-- The steps of a walk given by its nodes. -/
def hops (g : Graph) (walk : List String) : List Hop :=
  (walk.zip walk.tail).filterMap fun step =>
    (g.edge? step.1 step.2).map fun edge => ⟨step.1, step.2, edge⟩

/-- A shortest closed walk from the first of `members` through them. -/
def chain (g : Graph) (members : List String) : List Hop :=
  match members with
  | [] => []
  | start :: _ =>
    match g.closing? (.ofList members) start members.length ⟨∅, [start]⟩ with
    | none => []
    | some (last, previous) =>
      match backtrack? previous start members.length last with
      | none => []
      | some before => g.hops (start :: last :: before).reverse

/-- The position of each node. -/
def positions {n : Nat} (nodes : Vector String n) : Std.ExtTreeMap String (Fin n) :=
  .ofList ((List.finRange n).map fun i => (nodes.get i, i))

/-- The edges between nodes as edges between their positions. -/
def adjacency {n : Nat} (g : Graph) (nodes : Vector String n) : Adjacency n :=
  let position := positions nodes
  .ofFn fun i => (g.successors (nodes.get i)).filterMap (position[·]?)

/-- The cycle through the nodes at the positions of a component. -/
def cycle {n : Nat} (g : Graph) (nodes : Vector String n) (component : List (Fin n)) : Cycle :=
  let members := (component.map nodes.get).mergeSort fun a b => a ≤ b
  { members, chain := g.chain members }

/-- Every strongly connected component of two nodes or more, in the order of their members. -/
def cycles (g : Graph) : List Cycle :=
  let nodes := g.nodes.toArray.toVector
  let found := (Tarjan.search (g.adjacency nodes)).components.filter (1 < ·.length)
  (found.map (g.cycle nodes)).mergeSort fun a b => !decide (b.members < a.members)

end Graph

end ClassDeps
