import MiniBasic.Heap.Text

/-!
# Methods of objects

Methods are called by name, in any case, with exactly as many arguments as they take.
-/

namespace MiniBasic.Heap.Action

def callDictionary (id : Nat) (m : Dictionary.Method) (args : List Value) : Action Value := do
  checkArity ("Dictionary." ++ m.name) m.arity args
  let h ← get
  let d := h.dictionary id
  let key := h.text (args.headD .empty)
  match m with
  | .add =>
    modifyDictionary id (·.insert key (args.getD 1 .empty))
    return .empty
  | .contains => return .boolean (d.contains key)
  | .item => return (d.get? key).getD .empty
  | .remove =>
    modifyDictionary id (·.erase key)
    return .empty
  | .removeAll =>
    modifyDictionary id fun _ ↦ .empty
    return .empty
  | .keys => newArray (d.keys.map Value.text).toArray
  | .items => newArray d.values.toArray
  | .count => return .number (Number.ofNat d.size)

/-- Takes the item at a position out of a collection. -/
def removeItem (id : Nat) (position : Float) : Action Value := do
  match ((← get).collection id).remove? position with
  | some (item, rest) =>
    modifyCollection id fun _ ↦ rest
    return item
  | none => throw (.indexOutOfRange position)

def callCollection (id : Nat) (m : Collection.Method) (args : List Value) : Action Value := do
  checkArity ("Collection." ++ m.name) m.arity args
  let argument := args.headD .empty
  match m with
  | .add =>
    modifyCollection id (·.push argument)
    return .empty
  | .item => return ((← get).collection id).item argument.toNumber
  | .remove => removeItem id argument.toNumber
  | .count => return .number (Number.ofNat ((← get).collection id).size)

/-- Calls a method of a dictionary or collection; `none` if the value has no method of that name. -/
def callMethod? (object : Value) (member : String) (args : List Value) : Action (Option Value) :=
  match object with
  | .dictionary id =>
    match Dictionary.Method.ofName? member with
    | some m => some <$> callDictionary id m args
    | none => pure none
  | .collection id =>
    match Collection.Method.ofName? member with
    | some m => some <$> callCollection id m args
    | none => pure none
  | _ => pure none

end MiniBasic.Heap.Action
