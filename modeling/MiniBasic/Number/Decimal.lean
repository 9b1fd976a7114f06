import MiniBasic.Number.Exact

/-!
# The decimal text of a number

A number is written with the fewest digits that read back as the same double, always positionally.
Of two shortest candidates the nearer wins, and of two equally near ones the upper. A style may ask
for all digits of whole numbers below some bound.
-/

namespace MiniBasic.Number

open Float.Model (UnpackedFloat)
open Float.Model.UnpackedFloat (Sign)

/-- The number `digits · 10 ^ exponent`. -/
structure Decimal where
  digits : Nat
  exponent : Int
  deriving DecidableEq

namespace Decimal

/-- The positional text: no exponent, and no zeros at the end of the fraction. -/
def text (d : Decimal) : List Char :=
  let shown := Nat.toDigits 10 d.digits
  if 0 ≤ d.exponent then shown ++ List.replicate d.exponent.toNat '0'
  else
    let places := (-d.exponent).toNat
    let padded := List.replicate (places + 1 - shown.length) '0' ++ shown
    let whole := padded.take (padded.length - places)
    let fraction := padded.drop (padded.length - places)
    match (fraction.reverse.dropWhile (· == '0')).reverse with
    | [] => whole
    | fraction => whole ++ '.' :: fraction

end Decimal

/-- Whether `4 · d` lies on the upper side of, or below, `q · 2 ^ e`. -/
def compareQuarter (d : Decimal) (q : Nat) (e : Int) : Ordering :=
  compare (4 * d.digits * Nat.pow 10 d.exponent.toNat * Nat.pow 2 (-e).toNat)
    (q * Nat.pow 2 e.toNat * Nat.pow 10 (-d.exponent).toNat)

/-- Whether `d` reads back as the double `m · 2 ^ e`: it lies between the midpoints to the two
neighbouring doubles, and may be a midpoint itself if `m` is even. The double below a power of two
is only half as far away, unless the exponent is the smallest there is. -/
def readsBackAs (d : Decimal) (m : Nat) (e : Int) : Bool :=
  let below := if m = Nat.pow 2 52 ∧ e ≠ -1074 then 1 else 2
  match compareQuarter d (4 * m - below) e, compareQuarter d (4 * m + 2) e with
  | .gt, .lt => true
  | .eq, .lt => m % 2 == 0
  | .gt, .eq => m % 2 == 0
  | _, _ => false

/-- The number of digits before the point of `m · 2 ^ e`; zero or less if it is less than a
tenth. -/
def magnitude (m : Nat) (e : Int) : Int :=
  (Nat.toDigits 10 (m * Nat.pow 2 e.toNat * Nat.pow 10 330 / Nat.pow 2 (-e).toNat)).length - 330

/-- Of the two decimals next to `m · 2 ^ e` whose last digit counts `10 ^ k`, the nearer that reads
back. -/
def onGrid? (m : Nat) (e k : Int) : Option Decimal :=
  let num := m * Nat.pow 2 e.toNat * Nat.pow 10 (-k).toNat
  let den := Nat.pow 2 (-e).toNat * Nat.pow 10 k.toNat
  let lower : Decimal := ⟨num / den, k⟩
  let upper : Decimal := ⟨num / den + 1, k⟩
  match readsBackAs lower m e, readsBackAs upper m e with
  | true, true => some (if 2 * (num % den) < den then lower else upper)
  | true, false => some lower
  | false, true => some upper
  | false, false => none

/-- The full decimal expansion of `m · 2 ^ e`. -/
def expansion (m : Nat) (e : Int) : Decimal :=
  if 0 ≤ e then ⟨m * Nat.pow 2 e.toNat, 0⟩ else ⟨m * Nat.pow 5 (-e).toNat, e⟩

/-- The decimal with the fewest digits that reads back as `m · 2 ^ e`. -/
def shortest (m : Nat) (e : Int) : Decimal :=
  let top := magnitude m e
  ((List.range 17).findSome? fun n : Nat ↦ onGrid? m e (top - (n + 1))).getD (expansion m e)

/-- Whether `m · 2 ^ e` is a whole number. -/
def isWhole (m : Nat) (e : Int) : Bool :=
  m * Nat.pow 2 e.toNat % Nat.pow 2 (-e).toNat == 0

/-- How a kind of output writes numbers. -/
structure Style where
  infinity : String
  negativeZero : String
  /-- Whole numbers below this one are written with all their digits. -/
  wholeBelow : Nat

namespace Style

/-- Numbers as programs print them. -/
def printed : Style :=
  ⟨"Infinity", "0", Nat.pow 10 15⟩

/-- Numbers as messages about subscripts show them. -/
def subscript : Style :=
  ⟨"inf", "-0", 0⟩

end Style

def withSign (sign : Sign) (text : String) : String :=
  match sign with
  | .positive => text
  | .negative => "-" ++ text

def write (style : Style) (x : Float) : String :=
  match parts x with
  | .notANumber => "NaN"
  | .infinity s => withSign s style.infinity
  | .zero .positive => "0"
  | .zero .negative => style.negativeZero
  | .finite s m e _ =>
    if isWhole m e ∧ wholePart m e < style.wholeBelow then
      withSign s (String.ofList (Nat.toDigits 10 (wholePart m e)))
    else
      withSign s (String.ofList (shortest m e).text)

end MiniBasic.Number
