import MiniBasic.Heap.Text
import MiniBasic.Number.Leading
import MiniBasic.Text.CaseMap

/-!
# Built-in functions
-/

namespace MiniBasic

namespace Value

/-- Empty, an empty text and zero count as empty. -/
def isBlank : Value → Bool
  | empty => true
  | text s => s.isEmpty
  | number x => x == 0
  | _ => false

/-- Whether the value is a finite number or a text that reads as one. -/
def isNumeric : Value → Bool
  | number x => x.isFinite
  | text s => (Number.read? (Text.trim s.toList)).any Float.isFinite
  | _ => false

/-- The number of a conversion: of a text, the longest numeral at its start counts, and what is no
number becomes zero. -/
def convert (v : Value) : Float :=
  let x :=
    match v with
    | text s => (Number.leadingNumber? s).getD (Number.ofNat 0)
    | v => v.toNumber
  if x.isNaN then Number.ofNat 0 else x

end Value

namespace Heap

/-- The first array among the elements of an array. -/
def firstInner? (h : Heap) (id : Nat) : Option Nat :=
  (h.array id).toList.findSome? fun
    | .array inner => some inner
    | _ => none

/-- Goes into the first inner array as often as given. -/
def descend? (h : Heap) : Nat → Nat → Option Nat
  | 0, id => some id
  | n + 1, id =>
    match h.firstInner? id with
    | some inner => descend? h n inner
    | none => none

/-- The largest index of an array in a dimension, counted from one; anything else has the bound
zero. -/
def upperBound (h : Heap) (v : Value) (dimension : Float) : Except RuntimeError Value :=
  if dimension ≥ 1 then
    match v with
    | .array id =>
      match h.descend? (Number.toWord Number.nearestWhole dimension - 1) id with
      | some inner => .ok (.number (Number.ofInt ((h.array inner).size - 1)))
      | none => .error (.indexOutOfRange dimension)
    | _ => .ok (.number (Number.ofNat 0))
  else .error (.indexOutOfRange dimension)

namespace Action

/-- The only argument. -/
def single (f : Native) : List Value → Action Value
  | [v] => pure v
  | args => throw (.arityMismatch f.name 1 args.length)

/-- One argument and perhaps a second. -/
def oneOrTwo (f : Native) : List Value → Action (Value × Option Value)
  | [v] => pure (v, none)
  | [v, w] => pure (v, some w)
  | args => throw (.arityMismatch f.name (if args.length < 1 then 1 else 2) args.length)

/-- The result of a function of the text of its argument. -/
def mapText (f : List Char → List Char) (v : Value) : Action Value := do
  return .text (String.ofList (f ((← get).text v).toList))

/-- Calls a built-in function. `arrayBase` is the lower bound that arrays report. -/
def callNative (arrayBase : Nat) (f : Native) (args : List Value) : Action Value := do
  match f with
  | .isEmpty => return .boolean (← single f args).isBlank
  | .isNumeric => return .boolean (← single f args).isNumeric
  | .cDbl => return .number (← single f args).convert
  | .cLng => return .number (Number.floor ((← single f args).convert + 0.5))
  | .int => return .number (Number.floor (← single f args).convert)
  | .uCase => mapText Text.upper (← single f args)
  | .lCase => mapText Text.lower (← single f args)
  | .trim => mapText Text.trim (← single f args)
  | .len =>
    let v ← single f args
    return .number (Number.ofNat ((← get).text v).length)
  | .cStr => mapText id (← single f args)
  | .uBound =>
    let (v, dimension) ← oneOrTwo f args
    let h ← get
    ofExcept (h.upperBound v ((dimension.map Value.toNumber).getD 1))
  | .createObject =>
    let v ← single f args
    let name := (← get).text v
    if Text.sameWord name "scripting.dictionary" then newDictionary
    else throw (.unsupportedObject name)
  | .array => newArray args.toArray
  | .lBound =>
    discard (oneOrTwo f args)
    return .number (Number.ofNat arrayBase)

end Action

end Heap

end MiniBasic
