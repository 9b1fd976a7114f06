import MiniBasic.Expr

/-!
# Statements

Names keep the spelling of the source. The name after `Next`, the bounds of `ReDim` other than the
last, `Preserve`, labels and most options have no effect when the program runs; they are kept
because they are part of the tree.
-/

namespace MiniBasic

/-- What an `Exit` statement leaves. -/
inductive ExitTarget where
  | forLoop | doLoop | sub | function
  deriving DecidableEq

namespace ExitTarget

def text : ExitTarget → String
  | forLoop => "Exit For"
  | doLoop => "Exit Do"
  | sub => "Exit Sub"
  | function => "Exit Function"

end ExitTarget

inductive ProcedureKind where
  | sub | function
  deriving DecidableEq

namespace ProcedureKind

def keyword : ProcedureKind → Keyword
  | sub => .subKw
  | function => .functionKw

/-- The `Exit` statement that leaves a procedure of this kind. -/
def exitTarget : ProcedureKind → ExitTarget
  | sub => .sub
  | function => .function

end ProcedureKind

structure Param where
  name : String
  /-- A parameter that is not passed by value is passed by reference. -/
  byValue : Bool
  fallback : Option Expr

/-- One name of a `Dim` statement. -/
structure Declarator where
  name : String
  /-- Of an array, the upper bound of each dimension; no bounds for an array declared empty. -/
  bounds : Option (List Expr)
  /-- The type after `As New`. -/
  newObject : Option String

inductive OptionSetting where
  | explicit
  | base (n : Nat)
  | compare (mode : String)
  deriving DecidableEq

/-- What `On Error` asks for. -/
inductive ErrorPolicy where
  | goTo (label : String)
  | resumeNext
  deriving DecidableEq

mutual

inductive Stmt where
  | forLoop (counter : String) (start stop : Expr) (step : Option Expr) (body : List Stmt)
      (closing : Option String)
  | ifThen (condition : Expr) (body : List Stmt) (alternative : Alternative)
  | doWhile (condition : Expr) (body : List Stmt)
  | procedure (kind : ProcedureKind) (name : String) (params : List Param) (body : List Stmt)
  | dim (declarators : List Declarator)
  | const (name : String) (value : Expr)
  | set (target value : Expr)
  | assign (target value : Expr)
  | onError (policy : ErrorPolicy)
  | erase (names : List String)
  | reDim (name : String) (bounds : List Expr) (preserve : Bool)
  | exit (target : ExitTarget)
  | label (name : String)
  | option (setting : OptionSetting)
  | call (expr : Expr)

/-- What follows the first branch of an `If`. -/
inductive Alternative where
  | none
  | block (body : List Stmt)
  | elseIf (condition : Expr) (body : List Stmt) (alternative : Alternative)

end

instance : Inhabited Stmt :=
  ⟨.label ""⟩

abbrev Program := List Stmt

/-- A declared `Sub` or `Function`. -/
structure Procedure where
  kind : ProcedureKind
  name : String
  params : List Param
  body : List Stmt

namespace Procedure

/-- The procedure that a statement declares. -/
def ofStmt? : Stmt → Option Procedure
  | .procedure kind name params body => some ⟨kind, name, params, body⟩
  | _ => none

end Procedure

end MiniBasic
