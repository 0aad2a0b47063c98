import Std.Data.ExtTreeMap
import Std.Data.ExtTreeSet

namespace ClassDeps

/-- One class using another. -/
structure ClassEdge where
  source : String
  target : String
deriving DecidableEq, Repr

namespace ClassEdge

/-- By the source, then by the target. -/
def lt (a b : ClassEdge) : Bool :=
  a.source < b.source || (a.source = b.source && a.target < b.target)

def min (a b : ClassEdge) : ClassEdge :=
  if b.lt a then b else a

end ClassEdge

structure Graph where
  edges : Std.ExtTreeMap String (Std.ExtTreeMap String ClassEdge)

namespace Graph

def empty : Graph where
  edges := ∅

/-- Adds what one class edge says of the groups of its ends. A group has no edge to itself. -/
def addEdge (g : Graph) (source target : String) (edge : ClassEdge) : Graph :=
  if source = target then g
  else
    { edges := g.edges.alter source fun targets =>
        some ((targets.getD ∅).alter target fun
          | none => some edge
          | some smallest => some (smallest.min edge)) }

/-- The class edge kept for an edge of the graph. -/
def edge? (g : Graph) (source target : String) : Option ClassEdge :=
  g.edges[source]?.bind (·[target]?)

/-- The ends of the edges out of `source`, in ascending order. -/
def successors (g : Graph) (source : String) : List String :=
  (g.edges[source]?.map (·.keys)).getD []

/-- The ends of all edges, in ascending order. -/
def nodes (g : Graph) : List String :=
  (Std.ExtTreeSet.ofList
    (g.edges.toList.flatMap fun entry => entry.1 :: entry.2.keys)).toList

end Graph

end ClassDeps
