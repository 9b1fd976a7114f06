import Mathlib.Data.List.TakeWhile
import MiniBasic.Token.Scan

/-!
# The pieces of a text

`Piece` lists the ways in which a text can begin, and `scan_cons` says what scanning does with each:
it goes on behind the piece, and the piece is a token or trivia. Facts about tokens go piece by
piece through a text by `pieces_induct`.
-/

namespace MiniBasic.Token

/-- The word that a text starting with `c` begins with. -/
def wordAt (c : Char) (cs : List Char) : String :=
  String.ofList (c :: cs.take (cs.takeWhile isWordRest).length)

/-- The pieces that a text starting with `c` can begin with, by kind and extent behind `c`. -/
inductive Piece (c : Char) (cs : List Char) : Option Kind → Nat → Prop
  | blank (h : isBlank c = true) : Piece c cs none (cs.takeWhile isBlank).length
  | comment (h : c = '\x27') : Piece c cs none (lineExtent cs)
  | newline (h : c = '\n') : Piece c cs (some .newline) 0
  | text (h : c = '"') : Piece c cs (some .text) (textExtent cs)
  | number (h : c.isDigit = true) : Piece c cs (some .number) (numberExtent cs)
  | remark (h : isWordStart c = true) (hw : Text.sameWord (wordAt c cs) "rem" = true) :
    Piece c cs none ((cs.takeWhile isWordRest).length +
      lineExtent (cs.drop (cs.takeWhile isWordRest).length))
  | word (h : isWordStart c = true) (hw : Text.sameWord (wordAt c cs) "rem" = false) :
    Piece c cs (some (.ofWord (wordAt c cs))) (cs.takeWhile isWordRest).length
  | symbol {s : Symbol} {n : Nat} (h : symbol? c cs.head? = some (s, n)) :
    Piece c cs (some (.symbol s)) n
  | unknown (h : symbol? c cs.head? = none) : Piece c cs (some .unknown) 0

theorem piece_classify (c : Char) (cs : List Char) :
    Piece c cs (classify c cs).1 (classify c cs).2 := by
  unfold classify
  split
  case isTrue h => exact .blank h
  split
  case isTrue h => exact .comment (eq_of_beq h)
  split
  case isTrue h => exact .newline (eq_of_beq h)
  split
  case isTrue h => exact .text (eq_of_beq h)
  split
  case isTrue h => exact .number h
  split
  case isTrue h =>
    dsimp only
    split
    case isTrue hw => exact .remark h hw
    case isFalse hw => exact .word h (Bool.eq_false_iff.mpr hw)
  split
  case h_1 h => exact .symbol h
  case h_2 h => exact .unknown h

/-- The token that a text at the given place begins with, if it does not begin with trivia. -/
def pieceToken? (line offset : Nat) (c : Char) (cs : List Char) : Option Token :=
  (classify c cs).1.map fun kind ↦
    ⟨kind, pieceText kind c cs (classify c cs).2, line, offset,
      offset + byteLength (c :: cs.take (classify c cs).2)⟩

theorem scan_nil (line offset : Nat) :
    scan line offset [] = [⟨.eof, "", line, offset, offset⟩] := by
  rw [scan]

theorem scan_cons (line offset : Nat) (c : Char) (cs : List Char) :
    scan line offset (c :: cs) =
      (pieceToken? line offset c cs).toList ++
        scan (line + (c :: cs.take (classify c cs).2).count '\n')
          (offset + byteLength (c :: cs.take (classify c cs).2)) (cs.drop (classify c cs).2) := by
  rw [scan]
  unfold pieceToken?
  cases (classify c cs).1 with
  | none => rfl
  | some kind => rfl

/-- What passes from behind the first piece of a text to the whole text holds of every text. -/
theorem pieces_induct {motive : List Char → Prop} (nil : motive [])
    (cons : ∀ c cs, motive (cs.drop (classify c cs).2) → motive (c :: cs)) (cs : List Char) :
    motive cs := by
  induction h : cs.length using Nat.strongRecOn generalizing cs with
  | _ n ih =>
    cases cs with
    | nil => exact nil
    | cons c cs =>
      refine cons c cs (ih (cs.drop (classify c cs).2).length ?_ _ rfl)
      rw [← h, List.length_drop, List.length_cons]
      omega

/-- Every token but the last is a piece of the text. -/
theorem eq_pieceToken?_of_mem_scan {line offset : Nat} {cs : List Char} {t : Token}
    (h : t ∈ scan line offset cs) (hkind : t.kind ≠ .eof) :
    ∃ line offset c cs, pieceToken? line offset c cs = some t := by
  induction cs using pieces_induct generalizing line offset with
  | nil =>
    rw [scan_nil, List.mem_singleton] at h
    subst h
    exact absurd rfl hkind
  | cons c cs ih =>
    rw [scan_cons, List.mem_append, Option.mem_toList] at h
    cases h with
    | inl h => exact ⟨line, offset, c, cs, h⟩
    | inr h => exact ih h

theorem pieceText_of_ne {kind : Kind} (h : kind ≠ .text) (c : Char) (cs : List Char) (n : Nat) :
    pieceText kind c cs n = String.ofList (c :: cs.take n) := by
  unfold pieceText
  split
  · exact absurd rfl h
  · rfl

theorem isWord_ofWord (word : String) : (Kind.ofWord word).isWord = true := by
  unfold Kind.ofWord
  cases Keyword.ofWord? word <;> rfl

theorem Piece.eq_textExtent {c : Char} {cs : List Char} {n : Nat} (h : Piece c cs (some .text) n) :
    n = textExtent cs := by
  generalize hk : some Kind.text = k at h
  cases h with
  | text => rfl
  | word =>
    have word := isWord_ofWord (wordAt c cs)
    rw [← Option.some.inj hk] at word
    cases word
  | _ => cases hk

theorem Piece.eq_numberExtent {c : Char} {cs : List Char} {n : Nat}
    (h : Piece c cs (some .number) n) : c.isDigit = true ∧ n = numberExtent cs := by
  generalize hk : some Kind.number = k at h
  cases h with
  | number h => exact ⟨h, rfl⟩
  | word =>
    have word := isWord_ofWord (wordAt c cs)
    rw [← Option.some.inj hk] at word
    cases word
  | _ => cases hk

/-! ## Number literals -/

/-- A point and digits, or nothing. -/
inductive Fraction : List Char → Prop
  | none : Fraction []
  | point {ds : List Char} (h : ∀ d ∈ ds, d.isDigit = true) : Fraction ('.' :: ds)

/-- A type mark, or nothing. -/
inductive Mark : List Char → Prop
  | none : Mark []
  | mark {c : Char} (h : isTypeMark c = true) : Mark [c]

theorem take_length_takeWhile (p : Char → Bool) (cs : List Char) :
    cs.take (cs.takeWhile p).length = cs.takeWhile p :=
  (List.prefix_iff_eq_take.mp (List.takeWhile_prefix p)).symm

theorem fraction_take_fractionExtent (cs : List Char) : Fraction (cs.take (fractionExtent cs)) := by
  cases cs with
  | nil => exact .none
  | cons c cs =>
    simp only [fractionExtent]
    split
    · obtain rfl : c = '.' := eq_of_beq ‹_›
      rw [Nat.add_comm, List.take_succ_cons, take_length_takeWhile]
      exact .point fun d hd ↦ List.mem_takeWhile_imp hd
    · exact .none

theorem mark_take_markExtent (cs : List Char) : Mark (cs.take (markExtent cs)) := by
  cases cs with
  | nil => exact .none
  | cons c cs =>
    simp only [markExtent]
    split
    · exact .mark ‹_›
    · exact .none

/-- The parts of a number literal behind its first digit. -/
theorem exists_numberExtent (cs : List Char) :
    ∃ ds fs ms, cs.take (numberExtent cs) = ds ++ fs ++ ms ∧ (∀ d ∈ ds, d.isDigit = true) ∧
      Fraction fs ∧ Mark ms := by
  have whole := take_length_takeWhile Char.isDigit cs
  refine ⟨cs.takeWhile Char.isDigit, _, _, ?_, fun d hd ↦ List.mem_takeWhile_imp hd,
    fraction_take_fractionExtent (cs.drop (cs.takeWhile Char.isDigit).length),
    mark_take_markExtent (cs.drop ((cs.takeWhile Char.isDigit).length +
      fractionExtent (cs.drop (cs.takeWhile Char.isDigit).length)))⟩
  rw [numberExtent, List.take_add, List.take_add, whole]

/-! ## Byte lengths -/

@[simp] theorem byteLength_nil : byteLength [] = 0 :=
  rfl

@[simp] theorem byteLength_cons (c : Char) (cs : List Char) :
    byteLength (c :: cs) = c.utf8Size + byteLength cs :=
  rfl

@[simp] theorem byteLength_append (cs ds : List Char) :
    byteLength (cs ++ ds) = byteLength cs + byteLength ds := by
  induction cs with
  | nil => simp
  | cons c cs ih => simp [ih, Nat.add_assoc]

/-- Every character takes at least one byte, so a longer part of a text takes more bytes. -/
theorem byteLength_take_lt {cs : List Char} {i n : Nat} (hi : i < n) (hn : i < cs.length) :
    byteLength (cs.take i) < byteLength (cs.take n) := by
  obtain ⟨k, rfl⟩ : ∃ k, n = i + (k + 1) := ⟨n - i - 1, by omega⟩
  have next : cs.drop i = cs[i] :: cs.drop (i + 1) := List.drop_eq_getElem_cons hn
  have pos := cs[i].utf8Size_pos
  rw [List.take_add, next]
  simp only [List.take_succ_cons, byteLength_append, byteLength_cons]
  omega

end MiniBasic.Token
