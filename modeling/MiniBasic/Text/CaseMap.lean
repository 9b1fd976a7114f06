import MiniBasic.Text.CaseTable

/-!
# Capital and small letters

`upper` and `lower` map a text by the full case mappings of Unicode, so the result may be longer
than the text. A capital sigma at the end of a word becomes the final small sigma; everything else
maps without regard to its neighbours.
-/

namespace MiniBasic.Text

def CaseRange.contains (r : CaseRange) (n : Nat) : Bool :=
  r.first ≤ n && n ≤ r.last && (n - r.first) % r.step == 0

/-- The character that the ranges map `c` to. -/
def mapByRanges (ranges : List CaseRange) (c : Char) : Char :=
  match ranges.find? (·.contains c.toNat) with
  | some r => Char.ofNat (c.toNat + r.shift).toNat
  | none => c

def upperChar (c : Char) : List Char :=
  match upperExpansions.lookup c.toNat with
  | some cs => cs.map Char.ofNat
  | none => [mapByRanges upperRanges c]

def upper (cs : List Char) : List Char :=
  cs.flatMap upperChar

/-- The small form of a character outside any word. Only the capital I with a dot becomes two
characters. -/
def lowerChar (c : Char) : List Char :=
  if c == '\u0130' then ['i', '\u0307'] else [mapByRanges lowerRanges c]

/-- Whether the first character that is not ignorable has a case. -/
def meetsCased (cs : List Char) : Bool :=
  match cs.dropWhile fun c ↦ inRanges ignorableEnds c.toNat with
  | c :: _ => inRanges casedEnds c.toNat
  | [] => false

/-- The small form of a text; `before` is what stands before it, the nearest character first. -/
def lowerFrom (before : List Char) : List Char → List Char
  | [] => []
  | c :: cs =>
    let mapped :=
      if c == 'Σ' then
        [if meetsCased before && !meetsCased cs then 'ς' else 'σ']
      else lowerChar c
    mapped ++ lowerFrom (c :: before) cs

def lower (cs : List Char) : List Char :=
  lowerFrom [] cs

end MiniBasic.Text
