import MiniBasic.Number.Numeral

/-!
# The number at the start of a text

Where a numeral at the start of a text ends is found in the bytes of the text: the characters of a
numeral are single bytes, and no byte of any other character looks like one of them. The part of the
text up to there is then read as a whole.
-/

namespace MiniBasic.Number

def isDigitByte (b : UInt8) : Bool :=
  '0'.toUInt8 ≤ b && b ≤ '9'.toUInt8

/-- Whether the byte at the given offset is one of the given characters. -/
def hasByte (cs : List Char) (bytes : List UInt8) (offset : Nat) : Bool :=
  bytes[offset]?.any fun b ↦ cs.any (·.toUInt8 == b)

/-- Where the digits from an offset on end. -/
def digitsEnd (bytes : List UInt8) (offset : Nat) : Nat :=
  offset + ((bytes.drop offset).takeWhile isDigitByte).length

/-- Where a sign at an offset ends, if there is one. -/
def signEnd (bytes : List UInt8) (offset : Nat) : Nat :=
  if hasByte ['+', '-'] bytes offset then offset + 1 else offset

/-- Where a point at an offset ends with the digits behind it, if there is one. -/
def fractionEnd (bytes : List UInt8) (offset : Nat) : Nat :=
  if hasByte ['.'] bytes offset then digitsEnd bytes (offset + 1) else offset

/-- Where an exponent at an offset ends, if there is one with at least one digit. -/
def exponentEnd (bytes : List UInt8) (offset : Nat) : Nat :=
  if hasByte ['e', 'E'] bytes offset then
    let start := signEnd bytes (offset + 1)
    let stop := digitsEnd bytes start
    if start < stop then stop else offset
  else offset

/-- Where the digits and the point of a numeral start, behind its sign. -/
def mantissaStart (bytes : List UInt8) : Nat :=
  signEnd bytes 0

def mantissaEnd (bytes : List UInt8) : Nat :=
  fractionEnd bytes (digitsEnd bytes (mantissaStart bytes))

def numeralEnd (bytes : List UInt8) : Nat :=
  exponentEnd bytes (mantissaEnd bytes)

/-- The number that the longest numeral at the start of the text stands for, blanks before it
aside. -/
def leadingNumber? (text : String) : Option Float :=
  let text := String.ofList (Text.trimStart text.toList)
  let bytes := text.toUTF8.data.toList
  let start := mantissaStart bytes
  let stop := mantissaEnd bytes
  if stop = start ∨ String.Pos.Raw.extract text ⟨start⟩ ⟨stop⟩ = "." then none
  else read? (String.Pos.Raw.extract text 0 ⟨numeralEnd bytes⟩).toList

end MiniBasic.Number
