import MiniBasic.Machine

/-!
# Calling procedures

The rules for calls and expressions take the evaluation of the expressions and the execution of the
statements inside them as arguments; `eval` and `exec` tie them together.

A call binds the parameters in a new frame, runs the body there and takes the frame away again. Then
the final values of parameters passed by reference go back to the variables that were given for
them, also if an exit has left the body, but not after an error.
-/

namespace MiniBasic.Machine

/-- The values of expressions, from left to right. -/
def evalAll (eval : Expr → Machine Value) : List Expr → Machine (List Value)
  | [] => return []
  | e :: es => do
    let v ← eval e
    let vs ← evalAll eval es
    return v :: vs

/-- The frame of a call: each parameter has its argument, or the value of its fallback in the scope
of the caller, or is empty. Arguments beyond the parameters are dropped. -/
def bindParams (eval : Expr → Machine Value) : List Param → List Value → Scope → Machine Scope
  | [], _, frame => return frame
  | p :: ps, v :: vs, frame => bindParams eval ps vs (frame.set p.name v)
  | p :: ps, [], frame => do
    let v ←
      match p.fallback with
      | some e => eval e
      | none => pure .empty
    bindParams eval ps [] (frame.set p.name v)

/-- The frame that the body of a procedure starts in. A function has a variable of its own name for
its result. -/
def openFrame (eval : Expr → Machine Value) (p : Procedure) (args : List Value) :
    Machine Scope := do
  let frame ← bindParams eval p.params args .empty
  match p.kind with
  | .function => return frame.set p.name .empty
  | .sub => return frame

/-- Runs `body` in a frame of its own. The result is the frame at the end, and the exit that has
left the body, if any. The frame is taken away in any case. -/
def inFrame (frame : Scope) (body : Machine Unit) : Machine (Scope × Option ExitTarget) := fun s ↦
  match body { s with env := s.env.push frame } with
  | .ok _ s =>
    let (frame, env) := s.env.pop
    .ok (frame, none) { s with env }
  | .error (.exit t) s =>
    let (frame, env) := s.env.pop
    .ok (frame, some t) { s with env }
  | .error i s => .error i { s with env := s.env.pop.2 }

/-- Statements in order. -/
def execAll (exec : Stmt → Machine Unit) : List Stmt → Machine Unit
  | [] => return
  | stmt :: stmts => do
    exec stmt
    execAll exec stmts

/-- Runs a procedure. The result is its frame at the end, and the exit that has left the body and is
not answered by the procedure itself. -/
def runProcedure (eval : Expr → Machine Value) (exec : Stmt → Machine Unit) (p : Procedure)
    (args : List Value) : Machine (Scope × Option ExitTarget) := do
  let frame ← openFrame eval p args
  let (frame, left) ← inFrame frame (execAll exec p.body)
  return (frame, left.filter (· ≠ p.kind.exitTarget))

/-- What a call returns: the variable of the function's own name. A `Sub` returns nothing. -/
def returnValue (p : Procedure) (frame : Scope) : Value :=
  match p.kind with
  | .function => (frame.get? p.name).getD .empty
  | .sub => .empty

/-- Ends a call: an exit that the procedure has not answered goes on. -/
def finishCall (p : Procedure) (frame : Scope) : Option ExitTarget → Machine Value
  | some t => throw (.exit t)
  | none => return returnValue p frame

/-- Gives the final value of one parameter back to its argument: if it is passed by reference and
the argument is a variable that is bound and no constant. -/
def copyBackOne (frame : Scope) (p : Param) (arg : Expr) (env : Environment) : Environment :=
  match p.byValue, arg with
  | false, .name n =>
    if isIntrinsicConstant n || (env.get? n).isNone then env
    else
      match frame.get? p.name with
      | some v => env.assign n v
      | none => env
  | _, _ => env

def copyBack (frame : Scope) : List Param → List Expr → Environment → Environment
  | p :: ps, arg :: args, env => copyBack frame ps args (copyBackOne frame p arg env)
  | _, _, env => env

/-- A call written in the source. -/
def invoke (eval : Expr → Machine Value) (exec : Stmt → Machine Unit) (p : Procedure)
    (args : List Expr) : Machine Value := do
  let values ← evalAll eval args
  let (frame, left) ← runProcedure eval exec p values
  onEnv (copyBack frame p.params args)
  finishCall p frame left

/-- A name alone: a variable, else a procedure called without arguments, else a new variable. -/
def evalName (eval : Expr → Machine Value) (exec : Stmt → Machine Unit) (name : String) :
    Machine Value := do
  let env := (← get).env
  match env.get? name with
  | some v => return v
  | none =>
    match env.procedure? name with
    | some p => invoke eval exec p []
    | none => getOrDeclare name

/-- Call syntax. A procedure goes before a variable of the same name. -/
def evalCall (eval : Expr → Machine Value) (exec : Stmt → Machine Unit) (callee : Expr)
    (args : List Expr) : Machine Value := do
  match callee with
  | .name n =>
    let env := (← get).env
    match env.procedure? n with
    | some p => invoke eval exec p args
    | none =>
      match env.get? n with
      | some target =>
        let values ← evalAll eval args
        applyValue n target values
      | none => raise (.unknownProcedure n)
  | .member object property =>
    let object ← eval object
    let values ← evalAll eval args
    callMember object property values
  | e =>
    let target ← eval e
    let values ← evalAll eval args
    applyValue "expression" target values

/-- The value of an expression. Both operands of a binary operator are evaluated always. -/
def evalExpr (eval : Expr → Machine Value) (exec : Stmt → Machine Unit) : Expr → Machine Value
  | .number x => return .number x
  | .text s => return .text s
  | .name n => evalName eval exec n
  | .unary op e => return op.apply (← eval e)
  | .binary op l r => do
    let a ← eval l
    let b ← eval r
    let h := (← get).heap
    onHeap (Heap.Action.ofExcept (h.applyBinary op a b))
  | .call callee args => evalCall eval exec callee args
  | .member object property => do
    let object ← eval object
    callMember object property []
  | .new typeName => onHeap (Heap.Action.instantiate typeName)

end MiniBasic.Machine
