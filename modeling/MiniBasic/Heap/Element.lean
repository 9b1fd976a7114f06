import MiniBasic.Heap.Text

/-!
# Elements

Reading and writing through indices. An index of an array is the nearest whole number, from zero on;
a key of a dictionary is the text of any value. Reading where nothing is stored gives the empty
value. Writing into an array makes it grow, and makes inner arrays where a path needs them.
-/

namespace MiniBasic.Heap

/-- The index that a value stands for when it is read with. -/
def readIndex (v : Value) : Option Nat :=
  Number.index? v.toNumber

/-- The index that a value stands for when it is written with: it has to leave the array within the
largest length. -/
def writeIndex (v : Value) : Except RuntimeError Nat :=
  match readIndex v with
  | some i => if i < maxArrayLength then .ok i else .error (.indexOutOfRange v.toNumber)
  | none => .error (.indexOutOfRange v.toNumber)

/-- The element of an array that an index value stands for. -/
def readElement (h : Heap) (id : Nat) (index : Value) : Value :=
  ((readIndex index).bind (h.element? id)).getD .empty

/-- The value that a dictionary holds under the text of a key. -/
def lookup (h : Heap) (id : Nat) (key : Value) : Value :=
  ((h.dictionary id).get? (h.text key)).getD .empty

/-- Follows indices into a value, through arrays and the dictionaries they hold. `name` is what the
value is called in an error. -/
def readPath (h : Heap) (name : String) : Value → List Value → Except RuntimeError Value
  | v, [] => .ok v
  | .array id, index :: rest => readPath h name (h.readElement id index) rest
  | .dictionary id, index :: rest => readPath h name (h.lookup id index) rest
  | v, _ :: _ => .error (.notIndexable name v.type)

/-- The only index. -/
def onlyIndex (name : String) : List Value → Except RuntimeError Value
  | [index] => .ok index
  | indices => .error (.arityMismatch name 1 indices.length)

/-- The element of a container that call syntax picks. -/
def read (h : Heap) (name : String) (container : Value) (indices : List Value) :
    Except RuntimeError Value :=
  match container with
  | .array _ => h.readPath name container indices
  | .dictionary id => (onlyIndex name indices).map (h.lookup id)
  | .collection id => (onlyIndex name indices).map fun p ↦ (h.collection id).item p.toNumber
  | v => .error (.notIndexable name v.type)

namespace Action

/-- Writes into an array along a path of indices that ends with `last`. -/
def writePath (value : Value) (last : Value) : Nat → List Value → Action Unit
  | id, [] => do
    let i ← ofExcept (writeIndex last)
    setElement id i value
  | id, index :: rest => do
    let i ← ofExcept (writeIndex index)
    match (← get).element? id i with
    | some (.array inner) => writePath value last inner rest
    | _ =>
      let inner ← allocArray #[]
      setElement id i (.array inner)
      writePath value last inner rest

/-- Stores a value in the element of a container that the indices pick. -/
def write (name : String) (container : Value) (indices : List Value) (value : Value) :
    Action Unit :=
  match container with
  | .array id =>
    match indices.getLast? with
    | some last => writePath value last id indices.dropLast
    | none => throw (.invalidAssignment (.missingIndex name))
  | .dictionary id => do
    let key ← ofExcept (onlyIndex name indices)
    let text := (← get).text key
    modifyDictionary id (·.insert text value)
  | v => throw (.notIndexable name v.type)

end Action

end MiniBasic.Heap
