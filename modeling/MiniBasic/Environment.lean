import Std.Data.ExtTreeMap
import MiniBasic.Stmt
import MiniBasic.Value

/-!
# Scopes

Names are looked up in the innermost call frame and then among the globals; the frames of callers
are not seen. The case of letters in names does not matter.
-/

namespace MiniBasic

/-- The variables of one scope, by their folded names. -/
structure Scope where
  bindings : Std.ExtTreeMap String Value

namespace Scope

def empty : Scope :=
  ⟨∅⟩

def get? (s : Scope) (name : String) : Option Value :=
  s.bindings[Text.foldCase name]?

def contains (s : Scope) (name : String) : Bool :=
  s.bindings.contains (Text.foldCase name)

def set (s : Scope) (name : String) (value : Value) : Scope :=
  ⟨s.bindings.insert (Text.foldCase name) value⟩

@[simp] theorem get?_empty (name : String) : empty.get? name = none := by
  simp [empty, get?]

theorem get?_set (s : Scope) (a b : String) (value : Value) :
    (s.set a value).get? b = if Text.foldCase a = Text.foldCase b then some value
      else s.get? b := by
  simp [set, get?, Std.ExtTreeMap.getElem?_insert]

theorem contains_eq_isSome (s : Scope) (name : String) :
    s.contains name = (s.get? name).isSome := by
  simp [contains, get?]

end Scope

structure Environment where
  globals : Scope
  /-- The frames of the active calls, the innermost first. -/
  frames : List Scope
  procedures : Std.ExtTreeMap String Procedure

namespace Environment

def empty : Environment :=
  ⟨.empty, [], ∅⟩

def push (env : Environment) (frame : Scope) : Environment :=
  { env with frames := frame :: env.frames }

/-- The innermost frame, or an empty one if there is none, and the environment without it. -/
def pop (env : Environment) : Scope × Environment :=
  (env.frames.headD .empty, { env with frames := env.frames.tail })

def defineGlobal (env : Environment) (name : String) (value : Value) : Environment :=
  { env with globals := env.globals.set name value }

/-- Binds a name in the current scope: the innermost frame, or the globals if there is none. -/
def declare (env : Environment) (name : String) (value : Value) : Environment :=
  match env.frames with
  | frame :: frames => { env with frames := frame.set name value :: frames }
  | [] => env.defineGlobal name value

def get? (env : Environment) (name : String) : Option Value :=
  (env.frames.head?.bind (·.get? name)).or (env.globals.get? name)

/-- Reads a name; one that is not bound is bound to zero in the current scope. -/
def getOrDeclare (env : Environment) (name : String) : Value × Environment :=
  match env.get? name with
  | some value => (value, env)
  | none =>
    let zero := Value.number (Number.ofNat 0)
    (zero, env.declare name zero)

/-- Writes a name where it is bound, or else binds it in the current scope. -/
def assign (env : Environment) (name : String) (value : Value) : Environment :=
  if env.frames.head?.any (·.contains name) then env.declare name value
  else if env.globals.contains name then env.defineGlobal name value
  else env.declare name value

def defineProcedure (env : Environment) (p : Procedure) : Environment :=
  { env with procedures := env.procedures.insert (Text.foldCase p.name) p }

def procedure? (env : Environment) (name : String) : Option Procedure :=
  env.procedures[Text.foldCase name]?

end Environment

/-- The names of the constants. -/
def isIntrinsicConstant (name : String) : Bool :=
  ["true", "false", "empty", "nothing"].contains (Text.foldCase name)

namespace Environment

/-- The environment that programs start in: the constants, the built-in functions and `Debug`. -/
def initial : Environment :=
  let constants : List (String × Value) :=
    [("True", .boolean true), ("False", .boolean false), ("Empty", .empty), ("Nothing", .empty)]
  let functions := Native.all.map fun f ↦ (f.name, Value.native f)
  let objects := [("Debug", Value.debug)]
  (constants ++ functions ++ objects).foldl (fun env b ↦ env.defineGlobal b.1 b.2) empty

end Environment

end MiniBasic
