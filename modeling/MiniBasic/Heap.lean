import MiniBasic.RuntimeError
import MiniBasic.Value.Collection
import MiniBasic.Value.Dictionary

/-!
# The heap

The heap holds the contents of all arrays, dictionaries and collections. An object is made once,
gets the next free number of its kind, and stays. What reads and writes the heap is a `Heap.Action`;
it may fail with a runtime error, and what it has written by then stays written.
-/

namespace MiniBasic

/-- The largest number of elements that writing or declaring can give an array: `2 ^ 24`. -/
def maxArrayLength : Nat :=
  16777216

/-- The elements with `value` at index `i`; an array that is too short grows, with empty elements in
between. -/
def writeElement (items : Array Value) (i : Nat) (value : Value) : Array Value :=
  if i < items.size then items.setIfInBounds i value
  else (items ++ Array.replicate (i - items.size) Value.empty).push value

theorem size_writeElement (items : Array Value) (i : Nat) (value : Value) :
    (writeElement items i value).size = max items.size (i + 1) := by
  unfold writeElement
  split
  · simp only [Array.size_setIfInBounds]
    omega
  · simp only [Array.size_push, Array.size_append, Array.size_replicate]
    omega

structure Heap where
  arrays : Array (Array Value)
  dictionaries : Array Dictionary
  collections : Array Collection
  deriving DecidableEq, Inhabited

namespace Heap

def empty : Heap :=
  ⟨#[], #[], #[]⟩

def array (h : Heap) (id : Nat) : Array Value :=
  h.arrays.getD id #[]

def dictionary (h : Heap) (id : Nat) : Dictionary :=
  h.dictionaries.getD id .empty

def collection (h : Heap) (id : Nat) : Collection :=
  h.collections.getD id .empty

/-- The element of an array, if the index is inside it. -/
def element? (h : Heap) (id i : Nat) : Option Value :=
  (h.array id)[i]?

abbrev Action := EStateM RuntimeError Heap

namespace Action

variable {α : Type}

/-- A result that may be an error and changes nothing. -/
def ofExcept : Except RuntimeError α → Action α
  | .ok a => pure a
  | .error e => throw e

/-- Makes an array; the result is its number. -/
def allocArray (items : Array Value) : Action Nat := fun ⟨arrays, dictionaries, collections⟩ ↦
  .ok arrays.size ⟨arrays.push items, dictionaries, collections⟩

def newArray (items : Array Value) : Action Value :=
  return .array (← allocArray items)

def newDictionary : Action Value := fun ⟨arrays, dictionaries, collections⟩ ↦
  .ok (.dictionary dictionaries.size) ⟨arrays, dictionaries.push .empty, collections⟩

def newCollection : Action Value := fun ⟨arrays, dictionaries, collections⟩ ↦
  .ok (.collection collections.size) ⟨arrays, dictionaries, collections.push .empty⟩

def modifyArray (id : Nat) (f : Array Value → Array Value) : Action Unit :=
  modify fun ⟨arrays, dictionaries, collections⟩ ↦ ⟨arrays.modify id f, dictionaries, collections⟩

def modifyDictionary (id : Nat) (f : Dictionary → Dictionary) : Action Unit :=
  modify fun ⟨arrays, dictionaries, collections⟩ ↦
    ⟨arrays, dictionaries.modify id f, collections⟩

def modifyCollection (id : Nat) (f : Collection → Collection) : Action Unit :=
  modify fun ⟨arrays, dictionaries, collections⟩ ↦ ⟨arrays, dictionaries, collections.modify id f⟩

/-- Writes an element, if the array stays within the largest length. -/
def setElement (id i : Nat) (value : Value) : Action Unit :=
  if i < maxArrayLength then modifyArray id (writeElement · i value)
  else throw (.indexOutOfRange (Number.ofNat i))

/-- Fails unless a function got as many arguments as it takes. -/
def checkArity (name : String) (expected : Nat) (args : List Value) : Action Unit :=
  if args.length = expected then pure ()
  else throw (.arityMismatch name expected args.length)

/-- A new object of the named type. -/
def instantiate (typeName : String) : Action Value :=
  match Text.foldCase typeName with
  | "collection" => newCollection
  | "dictionary" | "scripting.dictionary" => newDictionary
  | _ => throw (.unsupportedObject typeName)

/-- Runs an action as many times as given and collects the results. -/
def repeated (action : Action Value) : Nat → Array Value → Action (Array Value)
  | 0, made => pure made
  | n + 1, made => do
    let value ← action
    repeated action n (made.push value)

/-- An array of arrays, one level for each dimension, with empty elements in the last. -/
def allocate : List Nat → Action Value
  | [] => newArray #[]
  | [n] => newArray (Array.replicate n .empty)
  | n :: rest => do
    let rows ← repeated (allocate rest) n #[]
    newArray rows

end Action

end Heap

end MiniBasic
