import MiniBasic.Number.Exact
import MiniBasic.Text.Blank
import MiniBasic.Text.Case

/-!
# Reading numbers

A numeral is an optional sign, digits with at most one point among or around them, and an optional
exponent. `leading?` reads the longest numeral at the start of a text; `read?` wants the whole text
to be one, or one of the words for infinity and for what is no number.
-/

namespace MiniBasic.Number

/-- The value of a string of digits. -/
def digitsValue (ds : List Char) : Nat :=
  ds.foldl (fun n d ↦ 10 * n + (d.toNat - '0'.toNat)) 0

/-- An optional sign, `true` for minus, and the text behind it. -/
def takeSign : List Char → Bool × List Char
  | '+' :: cs => (false, cs)
  | '-' :: cs => (true, cs)
  | cs => (false, cs)

def takeDigits (cs : List Char) : List Char × List Char :=
  (cs.takeWhile Char.isDigit, cs.dropWhile Char.isDigit)

/-- A point with the digits behind it. A point with none is taken too. -/
def takeFraction : List Char → List Char × List Char
  | '.' :: cs => takeDigits cs
  | cs => ([], cs)

/-- An exponent, if at least one digit follows its mark and sign. -/
def takeExponent (cs : List Char) : Int × List Char :=
  match cs with
  | c :: rest =>
    if c == 'e' || c == 'E' then
      let (negative, rest) := takeSign rest
      match takeDigits rest with
      | ([], _) => (0, cs)
      | (ds, rest) => (if negative then -(digitsValue ds) else digitsValue ds, rest)
    else (0, cs)
  | [] => (0, cs)

/-- The double nearest to `digits · 10 ^ exponent`. -/
def ofDecimal (negative : Bool) (digits : Nat) (exponent : Int) : Float :=
  let x : Float := ⟨.ofScientific digits exponent⟩
  if negative then -x else x

/-- The number that the longest numeral at the start of the text stands for, and the rest. -/
def leading? (cs : List Char) : Option (Float × List Char) :=
  let (negative, cs) := takeSign cs
  let (whole, cs) := takeDigits cs
  let (fraction, cs) := takeFraction cs
  if whole.isEmpty && fraction.isEmpty then none
  else
    let (exponent, cs) := takeExponent cs
    some (ofDecimal negative (digitsValue (whole ++ fraction)) (exponent - fraction.length), cs)

/-- The words that may stand for a number, behind a sign and in any case. -/
def word? (cs : List Char) : Option Float :=
  let (negative, cs) := takeSign cs
  match Text.foldCase (String.ofList cs) with
  | "inf" | "infinity" => some (infinity (if negative then .negative else .positive))
  | "nan" => some nan
  | _ => none

/-- The number that the whole text stands for. -/
def read? (cs : List Char) : Option Float :=
  match leading? cs with
  | some (x, []) => some x
  | _ => word? cs

/-- The number that a text stands for in arithmetic: blanks around it are ignored, a blank text is
zero, and a text that is no numeral is no number. -/
def ofText (text : String) : Float :=
  match Text.trim text.toList with
  | [] => ofNat 0
  | cs => (read? cs).getD nan

end MiniBasic.Number
