import MiniBasic.Token

/-!
# Expressions

Operators have levels: of two operators, the one with the higher level binds tighter. All binary
operators associate to the left.
-/

namespace MiniBasic

inductive UnaryOp where
  | neg | plus | not
  deriving DecidableEq

namespace UnaryOp

/-- The level at which the operand is read. -/
def level : UnaryOp → Nat
  | not => 3
  | neg | plus => 11

/-- The prefix operator that a token of the given kind is. -/
def ofKind? : Kind → Option UnaryOp
  | .keyword .notKw => some not
  | .symbol .minus => some neg
  | .symbol .plus => some plus
  | _ => none

end UnaryOp

inductive BinaryOp where
  | or | and | eq | notEq | lt | ltEq | gt | gtEq
  | concat | add | sub | mod | intDiv | mul | div | pow
  deriving DecidableEq

namespace BinaryOp

def level : BinaryOp → Nat
  | or => 1
  | and => 2
  | eq | notEq => 4
  | lt | ltEq | gt | gtEq => 5
  | concat => 6
  | add | sub => 7
  | mod => 8
  | intDiv => 9
  | mul | div => 10
  | pow => 12

/-- The binary operator that a token of the given kind is. -/
def ofKind? : Kind → Option BinaryOp
  | .keyword .orKw => some or
  | .keyword .andKw => some and
  | .symbol .eq => some eq
  | .symbol .notEq => some notEq
  | .symbol .lt => some lt
  | .symbol .ltEq => some ltEq
  | .symbol .gt => some gt
  | .symbol .gtEq => some gtEq
  | .symbol .ampersand => some concat
  | .symbol .plus => some add
  | .symbol .minus => some sub
  | .keyword .modKw => some mod
  | .symbol .backslash => some intDiv
  | .symbol .star => some mul
  | .symbol .slash => some div
  | .symbol .caret => some pow
  | _ => none

end BinaryOp

inductive Expr where
  | number (x : Float)
  | text (s : String)
  | name (n : String)
  | unary (op : UnaryOp) (operand : Expr)
  | binary (op : BinaryOp) (left right : Expr)
  /-- Call syntax: a procedure call, an element of a container, or a method with arguments. -/
  | call (callee : Expr) (args : List Expr)
  | member (object : Expr) (property : String)
  | new (typeName : String)
  deriving Inhabited

namespace Expr

/-- The expression as a call; one that is no call becomes a call without arguments. -/
def asCall : Expr → Expr
  | call callee args => call callee args
  | e => call e []

end Expr

end MiniBasic
