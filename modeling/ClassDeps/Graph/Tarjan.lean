namespace ClassDeps

/-- The ends of the edges out of each of `n` nodes, which are known by their numbers. -/
abbrev Adjacency (n : Nat) := Vector (List (Fin n)) n

/-- A depth-first search for strongly connected components. -/
structure Tarjan (n : Nat) where
  /-- The number of visits so far. -/
  counter : Nat
  /-- The number of the visit to a node. -/
  index : Vector (Option Nat) n
  /-- The earliest visit to a node of the stack that the nodes visited from this one lead to. -/
  lowlink : Vector Nat n
  onStack : Vector Bool n
  /-- The visited nodes without a component, the latest first. -/
  stack : List (Fin n)
  /-- The components that are complete, each with its latest node first. -/
  components : List (List (Fin n))

namespace Tarjan

variable {n : Nat}

def start (n : Nat) : Tarjan n where
  counter := 0
  index := .replicate n none
  lowlink := .replicate n 0
  onStack := .replicate n false
  stack := []
  components := []

def enter (t : Tarjan n) (node : Fin n) : Tarjan n :=
  { t with
    counter := t.counter + 1
    index := t.index.set node (some t.counter)
    lowlink := t.lowlink.set node t.counter
    onStack := t.onStack.set node true
    stack := node :: t.stack }

def lower (t : Tarjan n) (node : Fin n) (bound : Nat) : Tarjan n :=
  { t with lowlink := t.lowlink.set node (min (t.lowlink.get node) bound) }

/-- Takes nodes from the stack up to and including `node`: those, what is left, and the marks. -/
def popTo (node : Fin n) :
    List (Fin n) → Vector Bool n → List (Fin n) × List (Fin n) × Vector Bool n
  | [], onStack => ([], [], onStack)
  | member :: rest, onStack =>
    let onStack := onStack.set member false
    if member = node then ([member], rest, onStack)
    else
      let (component, rest, onStack) := popTo node rest onStack
      (member :: component, rest, onStack)

/-- Ends the visit to `node`. If nothing below it leads further up, its component is complete. -/
def leave (t : Tarjan n) (node : Fin n) : Tarjan n :=
  if some (t.lowlink.get node) = t.index.get node then
    let (component, stack, onStack) := popTo node t.stack t.onStack
    { t with stack, onStack, components := t.components ++ [component] }
  else t

/-- Visits `node` and what was not visited below it. No visits are nested more deeply than there are
nodes, and `depth` is how deeply they may be. -/
def visit (adjacency : Adjacency n) : Nat → Fin n → Tarjan n → Tarjan n
  | 0, _, t => t
  | depth + 1, node, t =>
    let t := (adjacency.get node).foldl
      (fun t next =>
        match t.index.get next with
        | none =>
          let t := visit adjacency depth next t
          t.lower node (t.lowlink.get next)
        | some i => if t.onStack.get next then t.lower node i else t)
      (t.enter node)
    t.leave node

/-- The search from every node that was not visited when its turn comes. -/
def search (adjacency : Adjacency n) : Tarjan n :=
  (List.finRange n).foldl
    (fun t node => if (t.index.get node).isNone then visit adjacency n node t else t)
    (start n)

end Tarjan

end ClassDeps
