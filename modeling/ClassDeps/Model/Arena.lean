import Std.Data.ExtTreeMap

namespace ClassDeps

structure Arena (α : Type) where
  items : Array α
  index : Std.ExtTreeMap String Nat

namespace Arena

variable {α : Type}

def empty : Arena α where
  items := #[]
  index := ∅

def size (a : Arena α) : Nat :=
  a.items.size

def get? (a : Arena α) (i : Nat) : Option α :=
  a.items[i]?

/-- The number of the item called `name`. -/
def find? (a : Arena α) (name : String) : Option Nat :=
  a.index[name]?

/-- Adds an item, which gets the next number. -/
def add (a : Arena α) (name : String) (item : α) : Arena α where
  items := a.items.push item
  index := a.index.insert name a.items.size

def modify (a : Arena α) (i : Nat) (f : α → α) : Arena α :=
  { a with items := a.items.modify i f }

/-- The items with their numbers, in the order of their names. -/
def byName (a : Arena α) : List (Nat × α) :=
  a.index.toList.filterMap fun entry => (a.get? entry.2).map fun item => (entry.2, item)

end Arena

end ClassDeps
