import Mathlib.Logic.Function.Iterate
import MiniBasic.Session

/-!
# A machine with an explicit stack

The rules for expressions and statements once more, one step at a time. What is left to be done is a
`Code`, and what waits for its value is a stack. On the stack, besides what an expression or
statement goes on with, stand the active constructs: each loop and each procedure whose body is
running. The header of a loop, the arguments of a call and the fallbacks of parameters are run
before the construct is put there, so they belong to the construct around it.

An `Exit` looks for the innermost active construct that it leaves, and throws away what is above it.
Calls that are left on the way give their parameters back to their arguments; nothing else is done
for them.
-/

namespace MiniBasic

namespace Control

/-- A loop or procedure whose body is running. -/
inductive Construct where
  | forLoop (counter : String) (limit step : Float) (body : List Stmt)
  | doLoop (condition : Expr) (body : List Stmt)
  /-- A call with the arguments that are written in the source; a host writes none. -/
  | call (p : Procedure) (args : List Expr)

namespace Construct

/-- The `Exit` statement that leaves the construct. -/
def target : Construct → ExitTarget
  | forLoop .. => .forLoop
  | doLoop .. => .doLoop
  | call p _ => p.kind.exitTarget

def body : Construct → List Stmt
  | forLoop _ _ _ body => body
  | doLoop _ body => body
  | call p _ => p.body

/-- The end of a construct, with its value. The frame of a call is taken away, and parameters passed
by reference are copied back. -/
def leave : Construct → State → Value × State
  | call p args, s =>
    let (frame, env) := s.env.pop
    (Machine.returnValue p frame, { s with env := Machine.copyBack frame p.params args env })
  | _, s => (.empty, s)

/-- The end of a construct after an error: nothing is copied back. -/
def abandon : Construct → State → State
  | call _ _, s => { s with env := s.env.pop.2 }
  | _, s => s

end Construct

/-- What is left to be done until a value is there. -/
inductive Code where
  | value (v : Value)
  | fail (e : RuntimeError)
  | exit (t : ExitTarget)
  /-- One step that changes the state, and how to go on, both as the state before the step asks
  for. -/
  | act (next : State → Code) (change : State → State)
  | eval (e : Expr) (next : Value → Code)
  | exec (body : List Stmt) (next : Code)
  /-- The body of a construct, which is active until the body ends. -/
  | inside (c : Construct)

namespace Code

/-! ## Steps on the state -/

def look (next : State → Code) : Code :=
  .act next id

def change (f : State → State) (next : Code) : Code :=
  .act (fun _ ↦ next) f

def onHeap {α : Type} (action : Heap.Action α) (next : α → Code) : Code :=
  .act
    (fun s ↦
      match action s.heap with
      | .ok a _ => next a
      | .error e _ => .fail e)
    (fun s ↦
      match action s.heap with
      | .ok _ heap => { s with heap }
      | .error _ heap => { s with heap })

def onEnv (f : Environment → Environment) (next : Code) : Code :=
  change (fun s ↦ { s with env := f s.env }) next

def assign (name : String) (v : Value) (next : Code) : Code :=
  onEnv (·.assign name v) next

def getOrDeclare (name : String) (next : Value → Code) : Code :=
  .act (fun s ↦ next (s.env.getOrDeclare name).1)
    (fun s ↦ { s with env := (s.env.getOrDeclare name).2 })

def print (values : List Value) (next : Code) : Code :=
  change (fun s ↦ { s with output := s.output.push (" ".intercalate (values.map s.heap.text)) })
    next

def note (n : Notice) (next : Code) : Code :=
  change (fun s ↦ if n ∈ s.notices then s else { s with notices := s.notices ++ [n] }) next

/-! ## Expressions -/

def applyValue (name : String) (target : Value) (args : List Value) : Code :=
  match target with
  | .native f => look fun s ↦ onHeap (Heap.Action.callNative s.arrayBase f args) .value
  | v => look fun s ↦ onHeap (Heap.Action.ofExcept (s.heap.read name v args)) .value

def callMember (object : Value) (member : String) (args : List Value) : Code :=
  match object with
  | .debug =>
    if Text.sameWord member "print" then print args (.value .empty)
    else .fail (.unknownMember member object.type)
  | v =>
    onHeap (Heap.Action.callMethod? v member args) fun
      | some result => .value result
      | none => .fail (.unknownMember member v.type)

def evalAll : List Expr → (List Value → Code) → Code
  | [], next => next []
  | e :: es, next => .eval e fun v ↦ evalAll es fun vs ↦ next (v :: vs)

def bindParams : List Param → List Value → Scope → (Scope → Code) → Code
  | [], _, frame, next => next frame
  | p :: ps, v :: vs, frame, next => bindParams ps vs (frame.set p.name v) next
  | p :: ps, [], frame, next =>
    match p.fallback with
    | some e => .eval e fun v ↦ bindParams ps [] (frame.set p.name v) next
    | none => bindParams ps [] (frame.set p.name .empty) next

/-- The parameters are bound in the scope of the caller; then the body runs in a frame of its
own. -/
def enterCall (p : Procedure) (values : List Value) (args : List Expr) : Code :=
  bindParams p.params values .empty fun frame ↦
    let frame :=
      match p.kind with
      | .function => frame.set p.name .empty
      | .sub => frame
    onEnv (·.push frame) (.inside (.call p args))

def invoke (p : Procedure) (args : List Expr) : Code :=
  evalAll args fun values ↦ enterCall p values args

def name (n : String) : Code :=
  look fun s ↦
    match s.env.get? n with
    | some v => .value v
    | none =>
      match s.env.procedure? n with
      | some p => invoke p []
      | none => getOrDeclare n .value

def call (callee : Expr) (args : List Expr) : Code :=
  match callee with
  | .name n =>
    look fun s ↦
      match s.env.procedure? n with
      | some p => invoke p args
      | none =>
        match s.env.get? n with
        | some target => evalAll args fun values ↦ applyValue n target values
        | none => .fail (.unknownProcedure n)
  | .member object property =>
    .eval object fun object ↦ evalAll args fun values ↦ callMember object property values
  | e => .eval e fun target ↦ evalAll args fun values ↦ applyValue "expression" target values

def expr : Expr → Code
  | .number x => .value (.number x)
  | .text s => .value (.text s)
  | .name n => name n
  | .unary op e => .eval e fun v ↦ .value (op.apply v)
  | .binary op l r =>
    .eval l fun a ↦ .eval r fun b ↦ look fun s ↦
      onHeap (Heap.Action.ofExcept (s.heap.applyBinary op a b)) .value
  | .call callee args => call callee args
  | .member object property => .eval object fun object ↦ callMember object property []
  | .new typeName => onHeap (Heap.Action.instantiate typeName) .value

/-! ## Statements -/

/-- The end of a statement. -/
def done : Code :=
  .value .empty

def evalStep (step : Option Expr) (next : Float → Code) : Code :=
  match step with
  | some step => .eval step fun v ↦ next v.toNumber
  | none => next 1

/-- One more round of a `For` loop, if the counter is within the limit. -/
def forRound (counter : String) (limit step : Float) (body : List Stmt) : Code :=
  getOrDeclare counter fun v ↦
    if Machine.inRange step limit v.toNumber then .inside (.forLoop counter limit step body)
      else done

def whileRound (condition : Expr) (body : List Stmt) : Code :=
  .eval condition fun v ↦ if v.isTrue then .inside (.doLoop condition body) else done

def evalBound (bound : Expr) (next : Nat → Code) : Code :=
  .eval bound fun v ↦ onHeap (Heap.Action.ofExcept (Machine.boundLength v.toNumber)) next

def evalBounds : List Expr → (List Nat → Code) → Code
  | [], next => next []
  | bound :: bounds, next => evalBound bound fun n ↦ evalBounds bounds fun ns ↦ next (n :: ns)

def declaredValue (d : Declarator) (next : Value → Code) : Code :=
  match d.bounds with
  | some bounds => evalBounds bounds fun lengths ↦ onHeap (Machine.allocate lengths) next
  | none =>
    match d.newObject with
    | some typeName => onHeap (Heap.Action.instantiate typeName) next
    | none => next .empty

def declareAll : List Declarator → Code
  | [] => done
  | d :: ds => declaredValue d fun v ↦ assign d.name v (declareAll ds)

def evalContainer (callee : Expr) (next : Value → Code) : Code :=
  match callee with
  | .name n => getOrDeclare n next
  | .member object property =>
    if Text.sameWord property "item" then .eval object next
        else .eval (.member object property) next
  | e => .eval e next

def assignTo (target : Expr) (v : Value) : Code :=
  match target with
  | .name n => assign n v done
  | .call callee args =>
    evalContainer callee fun container ↦ evalAll args fun indices ↦
      onHeap (Heap.Action.write (Machine.calleeName callee) container indices v) fun _ ↦ done
  | .member object property =>
    .eval object fun object ↦ .fail (.invalidAssignment (.member property object.type))
  | _ => .fail (.invalidAssignment .notAssignable)

def eraseAll : List String → Code
  | [] => done
  | name :: names => onHeap (Heap.Action.newArray #[]) fun v ↦ assign name v (eraseAll names)

def chooseBranch : Alternative → Code
  | .none => done
  | .block body => .exec body done
  | .elseIf condition body alternative =>
    .eval condition fun v ↦ if v.isTrue then .exec body done else chooseBranch alternative

def reDim (name : String) (length : Nat) : Code :=
  onHeap (Heap.Action.newArray (Array.replicate length .empty)) fun v ↦ assign name v done

def stmt : Stmt → Code
  | .forLoop counter start stop step body _ =>
    .eval start fun start ↦ .eval stop fun stop ↦ evalStep step fun step ↦
      assign counter (.number start.toNumber) (forRound counter stop.toNumber step body)
  | .ifThen condition body alternative => chooseBranch (.elseIf condition body alternative)
  | .doWhile condition body => whileRound condition body
  | .procedure kind name params body => onEnv (·.defineProcedure ⟨kind, name, params, body⟩) done
  | .dim declarators => declareAll declarators
  | .const n e => .eval e fun v ↦ assign n v done
  | .set target e | .assign target e => .eval e fun v ↦ assignTo target v
  | .onError _ => note .onErrorIgnored done
  | .erase names => eraseAll names
  | .reDim name bounds _ =>
    match bounds.getLast? with
    | some bound => evalBound bound fun length ↦ reDim name length
    | none => reDim name 0
  | .exit target => .exit target
  | .label _ => done
  | .option (.base n) => change (fun s ↦ { s with arrayBase := n }) done
  | .option _ => done
  | .call e => .eval e fun _ ↦ done

end Code

/-- What comes when the body of a construct has run to its end: the next round of a loop, the end of
a call. -/
def Construct.next : Construct → Code
  | forLoop counter limit step body =>
    .getOrDeclare counter fun v ↦
      .assign counter (.number (v.toNumber + step)) (.forRound counter limit step body)
  | doLoop condition body => .whileRound condition body
  | call p args =>
    .act (fun s ↦ .value ((call p args).leave s).1) (fun s ↦ ((call p args).leave s).2)

/-! ## The machine -/

/-- What waits for a value. -/
inductive Waiting where
  | resume (next : Value → Code)
  | active (c : Construct)

abbrev Stack := List Waiting

inductive Config where
  | running (code : Code) (stack : Stack) (s : State)
  | halted (outcome : Outcome Value) (s : State)

/-- Leaves the innermost construct that the `Exit` is for. What stands above it is thrown away, but
for what the calls there copy back. -/
def unwind (t : ExitTarget) : Stack → State → Config
  | [], s => .halted (.failed (.unmatchedExit t)) s
  | .resume _ :: stack, s => unwind t stack s
  | .active c :: stack, s =>
    if c.target = t then .running (.value (c.leave s).1) stack (c.leave s).2
    else unwind t stack (c.leave s).2

/-- Ends the run with an error. -/
def abort (e : RuntimeError) : Stack → State → Config
  | [], s => .halted (.failed e) s
  | .resume _ :: stack, s => abort e stack s
  | .active c :: stack, s => abort e stack (c.abandon s)

namespace Config

def step : Config → Config
  | .running (.value v) [] s => .halted (.done v) s
  | .running (.value v) (.resume next :: stack) s => .running (next v) stack s
  | .running (.value _) (.active c :: stack) s => .running c.next stack s
  | .running (.fail e) stack s => abort e stack s
  | .running (.exit t) stack s => unwind t stack s
  | .running (.act next change) stack s => .running (next s) stack (change s)
  | .running (.eval e next) stack s => .running (.expr e) (.resume next :: stack) s
  | .running (.exec [] next) stack s => .running next stack s
  | .running (.exec (stmt :: stmts) next) stack s =>
    .running (.stmt stmt) (.resume (fun _ ↦ .exec stmts next) :: stack) s
  | .running (.inside c) stack s => .running (.exec c.body .done) (.active c :: stack) s
  | .halted outcome s => .halted outcome s

/-- `d` comes later in the run from `c`. -/
def Reaches (c d : Config) : Prop :=
  ∃ n, step^[n] c = d

end Config

end Control

end MiniBasic
