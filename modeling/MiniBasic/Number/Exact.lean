/-!
# Exact views of a number

The numbers of the language are doubles. Rounding, flooring and remainders are computed on the exact
parts of a double, sign · mantissa · 2 ^ exponent, in whole-number arithmetic, and only the result
is made a double again.
-/

namespace MiniBasic.Number

open Float.Model (UnpackedFloat)
open Float.Model.UnpackedFloat (Sign)

/-- The exact parts of a double. -/
def parts (x : Float) : UnpackedFloat :=
  x.toModel.unpack

/-- The double nearest to `n · 2 ^ e`, a tie going to the even mantissa; a zero has the given
sign. -/
def nearest (n e : Int) (zeroSign : Sign) : Float :=
  ⟨.pack (.normalize .binary64 n e zeroSign)⟩

/-- The double nearest to a whole number. -/
def ofInt (n : Int) : Float :=
  nearest n 0 .positive

def ofNat (n : Nat) : Float :=
  ofInt n

def nan : Float :=
  ⟨.pack .notANumber⟩

def infinity (sign : Sign) : Float :=
  ⟨.pack (.infinity sign)⟩

/-- The whole part of `m · 2 ^ e`. -/
def wholePart (m : Nat) (e : Int) : Nat :=
  m * Nat.pow 2 e.toNat / Nat.pow 2 (-e).toNat

/-- The whole number nearest to `m · 2 ^ e`, a half going up. -/
def nearestWhole (m : Nat) (e : Int) : Nat :=
  (2 * (m * Nat.pow 2 e.toNat) + Nat.pow 2 (-e).toNat) / (2 * Nat.pow 2 (-e).toNat)

/-- The least whole number that is at least `m · 2 ^ e`. -/
def wholeAbove (m : Nat) (e : Int) : Nat :=
  (m * Nat.pow 2 e.toNat + (Nat.pow 2 (-e).toNat - 1)) / Nat.pow 2 (-e).toNat

/-- The greatest whole number not above `x`. -/
def floor (x : Float) : Float :=
  match parts x with
  | .finite .positive m e _ => ofNat (wholePart m e)
  | .finite .negative m e _ => ofInt (-(wholeAbove m e))
  | _ => x

/-- What is left of `x` after taking away `y` a whole number of times; it has the sign of `x`. -/
def remainder (x y : Float) : Float :=
  match parts x, parts y with
  | .finite s m₁ e₁ _, .finite _ m₂ e₂ _ =>
    let e := min e₁ e₂
    let r := (m₁ * Nat.pow 2 (e₁ - e).toNat) % (m₂ * Nat.pow 2 (e₂ - e).toNat)
    nearest (s.apply r) e s
  | .zero _, .finite _ _ _ _ => x
  | .zero _, .infinity _ => x
  | .finite _ _ _ _, .infinity _ => x
  | _, _ => nan

/-- The largest number that fits in a machine word. -/
def maxWord : Nat :=
  UInt64.size - 1

/-- A number cut to a machine word: what lies below zero gives zero, what lies above the largest
word gives that, and what is no number gives zero. `whole` picks the whole number. -/
def toWord (whole : Nat → Int → Nat) (x : Float) : Nat :=
  match parts x with
  | .finite .positive m e _ => min (whole m e) maxWord
  | .infinity .positive => maxWord
  | _ => 0

/-- An element index counted from zero: the nearest whole number to a finite `x` that is not
negative. -/
def index? (x : Float) : Option Nat :=
  match parts x with
  | .zero _ => some 0
  | .finite .positive m e _ => some (nearestWhole m e)
  | _ => none

/-- The whole number nearest to a finite `x` above zero, a half going up; all else gives zero. -/
def place (x : Float) : Nat :=
  match parts x with
  | .finite .positive m e _ => nearestWhole m e
  | _ => 0

end MiniBasic.Number
