import MiniBasic.Proofs.Print.Layout
import MiniBasic.Proofs.Token.Join

/-!
# Tokens with single blanks between them

Blanks, comments and the places of tokens can be taken out of a source text without any effect on
its tokens: written with single blanks between them, the tokens scan as what they are. That needs of
each token that it scans as itself before a blank. For what is spelled by the rules of its kind this
is `Spelled.scans`; what is left are the characters that start no token, and each of them is a token
whatever stands behind it.
-/

namespace MiniBasic.Token

/-! ## Characters that start no token -/

/-- Whether a symbol starts with `c` does not depend on what follows. -/
theorem isSome_symbol? (c : Char) (a b : Option Char) :
    (symbol? c a).isSome = (symbol? c b).isSome := by
  unfold symbol?
  split
  case h_1 => split_ifs <;> rfl
  case h_2 => split_ifs <;> rfl
  all_goals rfl

theorem classify_of_unknown {c : Char} {cs : List Char} (h : (classify c cs).1 = some .unknown)
    (ds : List Char) :
    classify c ds = (some .unknown, 0) := by
  unfold classify at h ⊢
  split at h
  case isTrue => cases h
  case isFalse blank =>
  split at h
  case isTrue => cases h
  case isFalse apostrophe =>
  split at h
  case isTrue => cases h
  case isFalse newline =>
  split at h
  case isTrue => cases h
  case isFalse quote =>
  split at h
  case isTrue => cases h
  case isFalse digit =>
  split at h
  case isTrue =>
    dsimp only at h
    split at h
    · cases h
    · have word := isWord_ofWord (String.ofList (c :: cs.take (cs.takeWhile isWordRest).length))
      rw [Option.some.inj h] at word
      cases word
  case isFalse word =>
  rw [if_neg blank, if_neg apostrophe, if_neg newline, if_neg quote, if_neg digit, if_neg word]
  split at h
  case h_1 => cases h
  case h_2 none =>
    have same := isSome_symbol? c cs.head? ds.head?
    rw [none] at same
    rw [Option.not_isSome_iff_eq_none.mp (Bool.eq_false_iff.mp same.symm)]

/-! ## Tokens before a blank -/

/-- What is written for the token scans as the token, at the end of a text and before a blank. -/
def Stands (t : Token) : Prop :=
  ∀ ⦃cs : List Char⦄, (∀ c ∈ cs.head?, c = ' ') → Scans t.kind t.text t.written cs

theorem Spelled.stands {t : Token} (h : Spelled t.kind t.text) : t.Stands := by
  intro cs hcs
  refine h.scans fun c hc ↦ endsBefore_of_mem ?_ t.kind
  rw [hcs c hc]
  decide

/-- Every token of a source text stands for itself. -/
theorem stands_of_mem_tokenize {source : String} {t : Token} (ht : t ∈ tokenize source)
    (inside : t.kind ≠ .eof) :
    t.Stands := by
  by_cases odd : t.kind = .unknown
  · obtain ⟨line, offset, c, ds, found⟩ := eq_pieceToken?_of_mem_scan ht inside
    obtain ⟨kind, hkind, rfl⟩ := Option.map_eq_some_iff.mp found
    obtain rfl : kind = .unknown := odd
    have alone := classify_of_unknown hkind
    have text : pieceText .unknown c ds (classify c ds).2 = String.ofList [c] := by
      rw [alone, pieceText_of_ne (by decide), List.take_zero]
    intro cs _
    refine ⟨c, [], ?_, alone _, ?_⟩
    · change (pieceText .unknown c ds (classify c ds).2).toList = [c]
      rw [text, String.toList_ofList]
    · exact (pieceText_of_ne (by decide : Kind.unknown ≠ .text) ..).trans text.symm
  · exact (spelled_of_mem_tokenize ht odd inside).stands

/-! ## Written tokens -/

/-- What a token is, without its place. -/
def kindAndText (t : Token) : Kind × String :=
  (t.kind, t.text)

/-- The token as text, a string literal with both of its quotes. -/
def rendering (t : Token) : String :=
  if t.kind = .text then "\"" ++ t.text ++ "\"" else t.text

/-- The tokens as text, with single blanks between them. -/
def spaced (ts : List Token) : String :=
  " ".intercalate (ts.map rendering)

theorem toList_rendering (t : Token) : t.rendering.toList = t.written := by
  unfold rendering written
  split
  next hk =>
    rw [hk, String.toList_append, String.toList_append]
    rfl
  next hk =>
    split
    next hk' => exact absurd hk' hk
    next => rfl

theorem toList_spaced_singleton (t : Token) : (spaced [t]).toList = t.written := by
  rw [spaced, List.map_singleton, String.intercalate_singleton, toList_rendering]

theorem toList_spaced_cons_cons (t u : Token) (us : List Token) :
    (spaced (t :: u :: us)).toList = t.written ++ ' ' :: (spaced (u :: us)).toList := by
  rw [spaced, List.map_cons, List.map_cons, String.intercalate_cons_cons, String.toList_append,
    String.toList_append, toList_rendering, List.append_assoc]
  rfl

/-- The first token is written at the start. -/
theorem exists_toList_spaced (t : Token) (ts : List Token) :
    ∃ cs, (spaced (t :: ts)).toList = t.written ++ cs := by
  cases ts with
  | nil => exact ⟨[], by rw [toList_spaced_singleton, List.append_nil]⟩
  | cons u us => exact ⟨_, toList_spaced_cons_cons t u us⟩

/-- Tokens that stand for themselves are scanned as they are written. -/
theorem kindAndText_scan_spaced {ts : List Token} (h : ∀ t ∈ ts, t.Stands) (line offset : Nat) :
    (scan line offset (spaced ts).toList).map kindAndText = ts.map kindAndText ++ [(.eof, "")] := by
  induction ts generalizing line offset with
  | nil =>
    rw [spaced, List.map_nil, String.intercalate_nil, String.toList_empty, scan_nil]
    rfl
  | cons t ts ih =>
    obtain ⟨ht, hts⟩ := List.forall_mem_cons.mp h
    cases ts with
    | nil =>
      have atEnd : Scans t.kind t.text t.written [] := ht fun c hc ↦ by cases hc
      obtain ⟨line', stop, first⟩ := atEnd.scan_append line offset
      rw [toList_spaced_singleton, ← List.append_nil t.written, first, scan_nil]
      rfl
    | cons u us =>
      have blank (c : Char) (hc : c ∈ (' ' :: (spaced (u :: us)).toList).head?) : c = ' ' :=
        (Option.some.inj hc).symm
      obtain ⟨line', stop, first⟩ := (ht blank).scan_append line offset
      obtain ⟨behind, split⟩ := exists_toList_spaced u us
      have next : Scans u.kind u.text u.written [] := hts u List.mem_cons_self fun c hc ↦
          by cases hc
      obtain ⟨c, cs, written, hc⟩ := next.head_not_blank
      rw [toList_spaced_cons_cons, first, List.map_cons]
      rw [written, List.cons_append] at split
      rw [split, scan_blank line' stop hc, ← split, ih hts]
      rfl

/-- A source text can be replaced by its tokens with single blanks between them: scanned again,
these are the same tokens, up to their places. -/
theorem tokenize_spaced (source : String) :
    (tokenize (spaced (contents source))).map kindAndText = (tokenize source).map kindAndText := by
  have stands (t : Token) (ht : t ∈ contents source) : t.Stands := by
    rw [contents, List.mem_filter] at ht
    exact stands_of_mem_tokenize ht.1 (of_decide_eq_true ht.2)
  obtain ⟨⟨line, last⟩, -⟩ := (covers_tokenize source).last
  have pairs := congrArg (List.map kindAndText) (List.dropLast_append_getLast? _ last)
  rw [List.map_append, ← contents_eq_dropLast] at pairs
  exact (kindAndText_scan_spaced stands 1 0).trans pairs

end MiniBasic.Token
