import MiniBasic.Environment
import MiniBasic.Heap.Element
import MiniBasic.Heap.Method
import MiniBasic.Heap.Native
import MiniBasic.Heap.Operator

/-!
# The machine

What a run reads and changes, and how it may end early. A statement or expression that does not come
to its end is interrupted: by an `Exit` on the way to what it leaves, by a runtime error, or because
the bound on the run is used up. The state at the interruption is kept.
-/

namespace MiniBasic

/-- Features that are read but not carried out. A run takes note of each once. -/
inductive Notice where
  | onErrorIgnored
  deriving DecidableEq

namespace Notice

def message : Notice → String
  | onErrorIgnored =>
    "warning: \x60On Error\x60 is parsed but not executed; runtime errors always propagate"

end Notice

structure State where
  env : Environment
  heap : Heap
  /-- The lower bound that arrays report. -/
  arrayBase : Nat
  /-- The lines printed so far. -/
  output : Array String
  notices : List Notice

namespace State

/-- The state in which a program is run first. -/
def initial : State :=
  ⟨.initial, .empty, 0, #[], []⟩

end State

inductive Interrupt where
  | exit (target : ExitTarget)
  | error (e : RuntimeError)
  | outOfFuel
  deriving DecidableEq

abbrev Machine := EStateM Interrupt State

namespace Machine

variable {α : Type}

def raise (e : RuntimeError) : Machine α :=
  throw (.error e)

/-- An action on the heap as part of a run. -/
def onHeap (action : Heap.Action α) : Machine α := fun ⟨env, heap, arrayBase, output, notices⟩ ↦
  match action heap with
  | .ok a heap => .ok a ⟨env, heap, arrayBase, output, notices⟩
  | .error e heap => .error (.error e) ⟨env, heap, arrayBase, output, notices⟩

/-- A change of the environment. -/
def onEnv (f : Environment → Environment) : Machine Unit :=
  modify fun s ↦ { s with env := f s.env }

def assign (name : String) (value : Value) : Machine Unit :=
  onEnv (·.assign name value)

def getOrDeclare (name : String) : Machine Value :=
  modifyGet fun s ↦
    let (value, env) := s.env.getOrDeclare name
    (value, { s with env })

/-- Prints the texts of values on one line, with spaces between them. -/
def print (values : List Value) : Machine Unit :=
  modify fun s ↦ { s with output := s.output.push (" ".intercalate (values.map s.heap.text)) }

def note (n : Notice) : Machine Unit :=
  modify fun s ↦ if n ∈ s.notices then s else { s with notices := s.notices ++ [n] }

/-- Runs `body`; `false` if an exit of the given kind has left it. -/
def leaving (target : ExitTarget) (body : Machine Unit) : Machine Bool := fun s ↦
  match body s with
  | .ok _ s => .ok true s
  | .error (.exit t) s => if t = target then .ok false s else .error (.exit t) s
  | .error i s => .error i s

/-- Call syntax on a value: a built-in function is called, a container is read. -/
def applyValue (name : String) (target : Value) (args : List Value) : Machine Value := do
  match target with
  | .native f =>
    let arrayBase := (← get).arrayBase
    onHeap (Heap.Action.callNative arrayBase f args)
  | v =>
    let h := (← get).heap
    onHeap (Heap.Action.ofExcept (h.read name v args))

/-- A member of a value, called with arguments or without. -/
def callMember (object : Value) (member : String) (args : List Value) : Machine Value := do
  match object with
  | .debug =>
    if Text.sameWord member "print" then
      print args
      return .empty
    else
      raise (.unknownMember member object.type)
  | v =>
    match ← onHeap (Heap.Action.callMethod? v member args) with
    | some result => return result
    | none => raise (.unknownMember member v.type)

end Machine

end MiniBasic
