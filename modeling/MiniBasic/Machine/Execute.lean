import MiniBasic.Machine.Call

/-!
# Executing statements

The rules for statements, and the run itself: `eval` and `exec` recur on a bound, which counts how
deep the run is nested and how often a loop goes round. A run that ends within a bound ends in the
same way within every larger one.
-/

namespace MiniBasic.Machine

/-- Whether a counter is still within the limit of its loop. -/
def inRange (step limit current : Float) : Bool :=
  if step > 0 then current ≤ limit else current ≥ limit

/-- The step of a `For` loop; one, if none is given. -/
def evalStep (eval : Expr → Machine Value) : Option Expr → Machine Float
  | some step => return (← eval step).toNumber
  | none => return 1

/-- The rounds of a `For` loop. The counter is read anew in each round and before each step, since
the body may have changed it. -/
def forRounds (counter : String) (limit step : Float) (body : Machine Unit) : Nat → Machine Unit
  | 0 => throw .outOfFuel
  | fuel + 1 => do
    let current := (← getOrDeclare counter).toNumber
    if inRange step limit current then
      if ← leaving .forLoop body then
        let current := (← getOrDeclare counter).toNumber
        assign counter (.number (current + step))
        forRounds counter limit step body fuel

/-- The rounds of a `Do While` loop. -/
def whileRounds (condition : Machine Value) (body : Machine Unit) : Nat → Machine Unit
  | 0 => throw .outOfFuel
  | fuel + 1 => do
    if (← condition).isTrue then
      if ← leaving .doLoop body then
        whileRounds condition body fuel

/-- The number of elements that an upper bound asks for. -/
def boundLength (upper : Float) : Except RuntimeError Nat :=
  match Number.index? upper with
  | some n => if n < maxArrayLength then .ok (n + 1) else .error (.indexOutOfRange upper)
  | none => .ok 0

def evalBound (eval : Expr → Machine Value) (bound : Expr) : Machine Nat := do
  let upper := (← eval bound).toNumber
  onHeap (Heap.Action.ofExcept (boundLength upper))

def evalBounds (eval : Expr → Machine Value) : List Expr → Machine (List Nat)
  | [] => return []
  | bound :: bounds => do
    let n ← evalBound eval bound
    let ns ← evalBounds eval bounds
    return n :: ns

/-- The product of lengths, as long as it fits in a machine word at every step. -/
def wordProduct? (lengths : List Nat) : Option Nat :=
  lengths.foldlM (fun acc n ↦ if acc * n ≤ Number.maxWord then some (acc * n) else none) 1

/-- A new array with the given lengths of its dimensions, if it is not too large. -/
def allocate (lengths : List Nat) : Heap.Action Value :=
  match wordProduct? lengths with
  | some total =>
    if total ≤ maxArrayLength then Heap.Action.allocate lengths
    else throw (.indexOutOfRange (lengths.foldl (fun x n ↦ x * Number.ofNat n) 1))
  | none => throw (.indexOutOfRange (lengths.foldl (fun x n ↦ x * Number.ofNat n) 1))

/-- The first value of a declared variable. -/
def declaredValue (eval : Expr → Machine Value) (d : Declarator) : Machine Value := do
  match d.bounds with
  | some bounds =>
    let lengths ← evalBounds eval bounds
    onHeap (allocate lengths)
  | none =>
    match d.newObject with
    | some typeName => onHeap (Heap.Action.instantiate typeName)
    | none => return .empty

def declareAll (eval : Expr → Machine Value) : List Declarator → Machine Unit
  | [] => return
  | d :: ds => do
    assign d.name (← declaredValue eval d)
    declareAll eval ds

/-- What the left side of an indexed assignment is called in errors. -/
def calleeName : Expr → String
  | .name n => n
  | .member _ property => property
  | _ => "expression"

/-- The container of an indexed assignment. `d.Item(k)` stores in `d` itself. -/
def evalContainer (eval : Expr → Machine Value) : Expr → Machine Value
  | .name n => getOrDeclare n
  | .member object property =>
    if Text.sameWord property "item" then eval object else eval (.member object property)
  | e => eval e

/-- Stores a value in what an expression denotes. -/
def assignTo (eval : Expr → Machine Value) (target : Expr) (value : Value) : Machine Unit := do
  match target with
  | .name n => assign n value
  | .call callee args =>
    let container ← evalContainer eval callee
    let indices ← evalAll eval args
    onHeap (Heap.Action.write (calleeName callee) container indices value)
  | .member object property =>
    let object ← eval object
    raise (.invalidAssignment (.member property object.type))
  | _ => raise (.invalidAssignment .notAssignable)

def eraseAll : List String → Machine Unit
  | [] => return
  | name :: names => do
    assign name (← onHeap (Heap.Action.newArray #[]))
    eraseAll names

/-- The branch of an `If` whose condition holds. -/
def chooseBranch (eval : Expr → Machine Value) (exec : Stmt → Machine Unit) :
    Alternative → Machine Unit
  | .none => return
  | .block body => execAll exec body
  | .elseIf condition body alternative => do
    if (← eval condition).isTrue then execAll exec body
    else chooseBranch eval exec alternative

/-- One statement. `fuel` bounds the rounds of a loop. -/
def execStmt (fuel : Nat) (eval : Expr → Machine Value) (exec : Stmt → Machine Unit) :
    Stmt → Machine Unit
  | .forLoop counter start stop step body _ => do
    let start := (← eval start).toNumber
    let stop := (← eval stop).toNumber
    let step ← evalStep eval step
    assign counter (.number start)
    forRounds counter stop step (execAll exec body) fuel
  | .ifThen condition body alternative =>
    chooseBranch eval exec (.elseIf condition body alternative)
  | .doWhile condition body => whileRounds (eval condition) (execAll exec body) fuel
  | .procedure kind name params body => onEnv (·.defineProcedure ⟨kind, name, params, body⟩)
  | .dim declarators => declareAll eval declarators
  | .const name value => do assign name (← eval value)
  | .set target value | .assign target value => do assignTo eval target (← eval value)
  | .onError _ => note .onErrorIgnored
  | .erase names => eraseAll names
  | .reDim name bounds _ => do
    let length ←
      match bounds.getLast? with
      | some bound => evalBound eval bound
      | none => pure 0
    assign name (← onHeap (Heap.Action.newArray (Array.replicate length .empty)))
  | .exit target => throw (.exit target)
  | .label _ => return
  | .option (.base n) => modify fun s ↦ { s with arrayBase := n }
  | .option _ => return
  | .call e => discard (eval e)

mutual

/-- The value of an expression within a bound. -/
def eval : Nat → Expr → Machine Value
  | 0, _ => throw .outOfFuel
  | fuel + 1, e => evalExpr (eval fuel) (exec fuel) e

/-- The execution of a statement within a bound. -/
def exec : Nat → Stmt → Machine Unit
  | 0, _ => throw .outOfFuel
  | fuel + 1, stmt => execStmt fuel (eval fuel) (exec fuel) stmt

end

end MiniBasic.Machine
