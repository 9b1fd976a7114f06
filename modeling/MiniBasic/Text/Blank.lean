/-!
# Blank characters

`isBlank` is the Unicode property `White_Space`: 25 characters. Trimming removes them from the ends
of a text.
-/

namespace MiniBasic.Text

/-- The ranges of characters with the property `White_Space`, first and last included. -/
def blankRanges : List (Nat × Nat) :=
  [(0x9, 0xD), (0x20, 0x20), (0x85, 0x85), (0xA0, 0xA0), (0x1680, 0x1680), (0x2000, 0x200A),
    (0x2028, 0x2029), (0x202F, 0x202F), (0x205F, 0x205F), (0x3000, 0x3000)]

def isBlank (c : Char) : Bool :=
  blankRanges.any fun r ↦ r.1 ≤ c.toNat && c.toNat ≤ r.2

def trimStart (cs : List Char) : List Char :=
  cs.dropWhile isBlank

def trimEnd (cs : List Char) : List Char :=
  (cs.reverse.dropWhile isBlank).reverse

def trim (cs : List Char) : List Char :=
  trimEnd (trimStart cs)

end MiniBasic.Text
