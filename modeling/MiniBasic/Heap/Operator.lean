import MiniBasic.Heap.Text

/-!
# Operators on values

`And` and `Or` give back one of their operands. Equality does not convert; comparison is textual
between two texts and numeric otherwise; `&` joins texts, and `+` joins them too if an operand is a
text.
-/

namespace MiniBasic

def UnaryOp.apply (op : UnaryOp) (v : Value) : Value :=
  match op with
  | .neg => .number (-v.toNumber)
  | .plus => .number v.toNumber
  | .not => .boolean !v.isTrue

namespace Value

/-- Whether `a` comes before `b`. Nothing comes before or after what is no number. -/
def less : Value → Value → Bool
  | text a, text b => a < b
  | a, b => a.toNumber < b.toNumber

/-- Whether `a` comes before `b` or at the same place. -/
def lessEq : Value → Value → Bool
  | text a, text b => !(b < a)
  | a, b => a.toNumber ≤ b.toNumber

def isText : Value → Bool
  | text _ => true
  | _ => false

end Value

namespace Heap

def join (h : Heap) (a b : Value) : Value :=
  .text (h.text a ++ h.text b)

def applyBinary (h : Heap) (op : BinaryOp) (a b : Value) : Except RuntimeError Value :=
  match op with
  | .or => .ok (if a.isTrue then a else b)
  | .and => .ok (if a.isTrue then b else a)
  | .eq => .ok (.boolean (a.same b))
  | .notEq => .ok (.boolean !a.same b)
  | .lt => .ok (.boolean (a.less b))
  | .ltEq => .ok (.boolean (a.lessEq b))
  | .gt => .ok (.boolean (b.less a))
  | .gtEq => .ok (.boolean (b.lessEq a))
  | .concat => .ok (h.join a b)
  | .add => .ok (if a.isText || b.isText then h.join a b else .number (a.toNumber + b.toNumber))
  | .sub => .ok (.number (a.toNumber - b.toNumber))
  | .mul => .ok (.number (a.toNumber * b.toNumber))
  | .div => .ok (.number (a.toNumber / b.toNumber))
  | .pow => .ok (.number (a.toNumber.pow b.toNumber))
  | .mod =>
    if b.toNumber == 0 then .error .divisionByZero
    else .ok (.number (Number.remainder a.toNumber b.toNumber))
  | .intDiv =>
    if b.toNumber == 0 then .error .divisionByZero
    else .ok (.number (Number.floor (a.toNumber / b.toNumber)))

end Heap

end MiniBasic
