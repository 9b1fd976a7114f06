import MiniBasic.Heap

/-!
# The text of a value

An array is written as its elements with commas between them. An array that is reached again through
its own elements is written as nothing, so that arrays which hold themselves have a text too.
-/

namespace MiniBasic

/-- The text of a value that is not an array. -/
def Value.atomText : Value → String
  | .empty => ""
  | .number x => Number.write .printed x
  | .text s => s
  | .boolean true => "True"
  | .boolean false => "False"
  | .array _ => ""
  | .dictionary _ => "[Dictionary]"
  | .collection _ => "[Collection]"
  | .native f => "[Function " ++ f.name ++ "]"
  | .debug => "[Debug]"

namespace Heap

/-- The arrays that are not open on the way from the root. -/
def closed (h : Heap) (opened : List Nat) : List Nat :=
  (List.range h.arrays.size).filter (· ∉ opened)

theorem length_closed_cons_lt {h : Heap} {opened : List Nat} {id : Nat} (hid : id < h.arrays.size)
    (hopen : id ∉ opened) : (h.closed (id :: opened)).length < (h.closed opened).length := by
  have fewer : h.closed (id :: opened) = (h.closed opened).filter (· ≠ id) := by
    simp [closed, List.filter_filter, not_or]
  rw [fewer, List.length_filter_lt_length_iff_exists]
  exact ⟨id, by simp [closed, hid, hopen], by simp⟩

/-- The text of an array inside the arrays that are open, the innermost first. -/
def arrayText (h : Heap) (opened : List Nat) (id : Nat) : String :=
  if hopen : id ∈ opened then ""
  else if hid : id < h.arrays.size then
    ",".intercalate (h.arrays[id].toList.map fun
      | .array inner => arrayText h (id :: opened) inner
      | v => v.atomText)
  else ""
termination_by (h.closed opened).length
decreasing_by exact length_closed_cons_lt hid hopen

/-- The text of a value, as it is printed, joined to other texts or used as a key. -/
def text (h : Heap) : Value → String
  | .array id => h.arrayText [] id
  | v => v.atomText

end Heap

end MiniBasic
