import MiniBasic.Grammar.Statement
import MiniBasic.Machine.Execute

/-!
# Sessions

What a host does with the machine: run programs, call procedures, evaluate expressions and look at
variables, one after the other on the same state. An operation that fails leaves the state as it was
when it failed.
-/

namespace MiniBasic

/-- How an operation of the host ends. -/
inductive Outcome (α : Type) where
  | done (result : α)
  | failed (error : RuntimeError)
  /-- The bound was too small. -/
  | unfinished
  deriving DecidableEq

namespace Machine

variable {α : Type}

/-- Runs to the end. An exit that nothing has answered is an error. -/
def finish (m : Machine α) (s : State) : Outcome α × State :=
  match m s with
  | .ok a s => (.done a, s)
  | .error (.exit t) s => (.failed (.unmatchedExit t), s)
  | .error (.error e) s => (.failed e, s)
  | .error .outOfFuel s => (.unfinished, s)

def defineAll (program : Program) : Machine Unit :=
  onEnv fun env ↦ (program.filterMap Procedure.ofStmt?).foldl Environment.defineProcedure env

/-- Runs a program: its procedures are known from the start, then its statements are executed. -/
def runProgram (fuel : Nat) (program : Program) : Machine Unit := do
  defineAll program
  execAll (exec fuel) program

/-- Calls a procedure with given values. -/
def callProcedure (fuel : Nat) (name : String) (args : List Value) : Machine Value := do
  match (← get).env.procedure? name with
  | some p =>
    let (frame, left) ← runProcedure (eval fuel) (exec fuel) p args
    finishCall p frame left
  | none => raise (.unknownProcedure name)

/-- The value of an expression given as text. -/
def evalText (fuel : Nat) (text : String) : Machine Value := do
  match parseExpression (Token.tokenize text) with
  | .ok e => eval fuel e
  | .error e => raise (.malformed e)

end Machine

namespace State

/-- Runs a program in a state. -/
def run (fuel : Nat) (program : Program) (s : State) : Outcome Unit × State :=
  (Machine.runProgram fuel program).finish s

def call (fuel : Nat) (name : String) (args : List Value) (s : State) : Outcome Value × State :=
  (Machine.callProcedure fuel name args).finish s

def evaluate (fuel : Nat) (text : String) (s : State) : Outcome Value × State :=
  (Machine.evalText fuel text).finish s

/-- The value of a variable, without creating it. -/
def lookup? (s : State) (name : String) : Option Value :=
  s.env.get? name

end State

end MiniBasic
