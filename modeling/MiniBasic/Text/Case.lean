/-!
# Letter case of words

The language compares words, names and member names without regard to the case of ASCII letters.
All such comparisons go through `foldCase`.
-/

namespace MiniBasic.Text

/-- The word with its ASCII capitals made small; every other character stays as it is. -/
def foldCase (word : String) : String :=
  String.ofList (word.toList.map Char.toLower)

/-- Two spellings of one word. -/
def sameWord (a b : String) : Bool :=
  foldCase a == foldCase b

@[simp] theorem toList_foldCase (word : String) :
    (foldCase word).toList = word.toList.map Char.toLower := by
  simp [foldCase]

end MiniBasic.Text
