import MiniBasic.Value

/-!
# Collections

A collection is a sequence whose positions count from one. A position is any number; the nearest
whole number counts.
-/

namespace MiniBasic

structure Collection where
  items : Array Value
  deriving DecidableEq, Inhabited

namespace Collection

def empty : Collection :=
  ⟨#[]⟩

def size (c : Collection) : Nat :=
  c.items.size

def push (c : Collection) (value : Value) : Collection :=
  ⟨c.items.push value⟩

/-- The item at a position; a position that holds none reads as empty. -/
def item (c : Collection) (position : Float) : Value :=
  if position < 1 ∨ ¬position.isFinite then .empty
  else c.items.getD (Number.place position - 1) .empty

/-- The item at a position and the collection without it. -/
def remove? (c : Collection) (position : Float) : Option (Value × Collection) :=
  if (position < 1 ∨ ¬position.isFinite) ∨ c.size < Number.place position then none
  else
    let i := Number.place position - 1
    some (c.items.getD i .empty, ⟨c.items.eraseIdxIfInBounds i⟩)

/-- The methods of a collection. -/
inductive Method where
  | add | item | remove | count
  deriving DecidableEq

namespace Method

def all : List Method :=
  [add, item, remove, count]

def name : Method → String
  | add => "Add"
  | item => "Item"
  | remove => "Remove"
  | count => "Count"

def arity : Method → Nat
  | add | item | remove => 1
  | count => 0

def ofName? (word : String) : Option Method :=
  all.find? fun m ↦ Text.sameWord m.name word

end Method

end Collection

end MiniBasic
