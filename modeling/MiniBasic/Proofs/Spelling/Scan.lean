import MiniBasic.Proofs.Spelling.Case
import MiniBasic.Proofs.Token.Piece

/-!
# Scanning and letter case

Where the pieces of a text end and what kind they are does not depend on the case of letters. So two
texts that differ only in the case of letters outside string literals have the same tokens, up to
the case of letters in their texts.
-/

namespace MiniBasic.Token

open Text

/-! ## Classification of pieces -/

theorem caseBlind_isBlank : CaseBlind isBlank :=
  caseBlind_of_capitals (by decide)

theorem caseBlind_isDigit : CaseBlind Char.isDigit :=
  caseBlind_of_capitals (by decide)

theorem caseBlind_isWordStart : CaseBlind isWordStart :=
  caseBlind_of_capitals (by decide)

theorem caseBlind_isWordRest : CaseBlind isWordRest :=
  caseBlind_of_capitals (by decide)

theorem caseBlind_isTypeMark : CaseBlind isTypeMark :=
  caseBlind_of_capitals (by decide)

/-- A character that is no letter is the small form of itself only. -/
theorem toLower_eq_iff {d : Char} (hd : d.isAlpha = false) (c : Char) : c.toLower = d ↔ c = d := by
  have small : ∀ n : Fin 26, (Char.ofNat (97 + n)).isAlpha = true := by decide
  have capital : ∀ n : Fin 26, (Char.ofNat (65 + n)).isAlpha = true := by decide
  refine toLower_cases (P := fun c e ↦ e = d ↔ c = d) (fun c _ ↦ Iff.rfl) (fun n ↦ ?_) c
  constructor
  · rintro rfl
    rw [small] at hd
    cases hd
  · rintro rfl
    rw [capital] at hd
    cases hd

theorem caseBlind_beq {d : Char} (hd : d.isAlpha = false) : CaseBlind (· == d) := by
  intro c
  rw [Bool.eq_iff_iff, beq_iff_eq, beq_iff_eq]
  exact toLower_eq_iff hd c

theorem caseBlind_bne {d : Char} (hd : d.isAlpha = false) : CaseBlind (· != d) := by
  intro c
  simp only [bne, caseBlind_beq hd c]

theorem lineExtent_toLower (cs : List Char) : lineExtent (cs.map Char.toLower) = lineExtent cs :=
  (caseBlind_bne (by decide)).length_takeWhile cs

theorem textExtent_toLower (cs : List Char) : textExtent (cs.map Char.toLower) = textExtent cs := by
  have quote : CaseBlind (· != '"') := caseBlind_bne (by decide)
  simp only [textExtent, quote.length_takeWhile, List.length_map]

theorem fractionExtent_toLower (cs : List Char) :
    fractionExtent (cs.map Char.toLower) = fractionExtent cs := by
  have point : CaseBlind (· == '.') := caseBlind_beq (by decide)
  cases cs with
  | nil => rfl
  | cons c cs =>
    simp only [List.map_cons, fractionExtent, point c, caseBlind_isDigit.length_takeWhile]

theorem markExtent_toLower (cs : List Char) : markExtent (cs.map Char.toLower) = markExtent cs := by
  cases cs with
  | nil => rfl
  | cons c cs => simp only [List.map_cons, markExtent, caseBlind_isTypeMark c]

theorem numberExtent_toLower (cs : List Char) :
    numberExtent (cs.map Char.toLower) = numberExtent cs := by
  simp only [numberExtent, caseBlind_isDigit.length_takeWhile, ← List.map_drop,
    fractionExtent_toLower, markExtent_toLower]

/-- No symbol starts with a letter. -/
theorem symbol?_of_isAlpha {c : Char} (hc : c.isAlpha = true) (next : Option Char) :
    symbol? c next = none := by
  unfold symbol?
  split <;> first | rfl | exact absurd hc (by decide)

theorem symbol?_toLower (c : Char) (next : Option Char) :
    symbol? c.toLower (next.map Char.toLower) = symbol? c next := by
  have letters : ∀ n : Fin 26, (Char.ofNat (97 + n)).isAlpha = true ∧
      (Char.ofNat (65 + n)).isAlpha = true := by decide
  have following {d : Char} (hd : d.isAlpha = false) :
      next.map Char.toLower = some d ↔ next = some d := by
    simp only [Option.map_eq_some_iff, toLower_eq_iff hd, exists_eq_right]
  refine toLower_cases (P := fun c d ↦ symbol? d (next.map Char.toLower) = symbol? c next)
    (fun c _ ↦ ?_) (fun n ↦ ?_) c
  · simp only [symbol?, following (d := '>') (by decide), following (d := '=') (by decide)]
  · rw [symbol?_of_isAlpha (letters n).1, symbol?_of_isAlpha (letters n).2]

theorem Kind.ofWord_foldCase (word : String) : Kind.ofWord (foldCase word) = Kind.ofWord word := by
  simp only [Kind.ofWord, Keyword.ofWord?, foldCase_foldCase]

/-- The kind of a piece and its extent do not depend on the case of letters. -/
theorem classify_toLower (c : Char) (cs : List Char) :
    classify c.toLower (cs.map Char.toLower) = classify c cs := by
  have blank : CaseBlind (· == '\x27') := caseBlind_beq (by decide)
  have line : CaseBlind (· == '\n') := caseBlind_beq (by decide)
  have quote : CaseBlind (· == '"') := caseBlind_beq (by decide)
  have word (n : Nat) : String.ofList (c.toLower :: (cs.map Char.toLower).take n) =
      foldCase (String.ofList (c :: cs.take n)) := by
    rw [foldCase_ofList, List.map_cons, List.map_take]
  simp only [classify, caseBlind_isBlank c, caseBlind_isBlank.length_takeWhile, blank c, line c,
    quote c, lineExtent_toLower, textExtent_toLower, caseBlind_isDigit c, numberExtent_toLower,
    caseBlind_isWordStart c, caseBlind_isWordRest.length_takeWhile, word, sameWord,
      foldCase_foldCase,
    Kind.ofWord_foldCase, ← List.map_drop, List.head?_map, symbol?_toLower]
  rfl

theorem byteLength_toLower (cs : List Char) : byteLength (cs.map Char.toLower) = byteLength cs := by
  induction cs with
  | nil => rfl
  | cons c cs ih => simp [ih, utf8Size_toLower]

theorem count_newline_toLower (cs : List Char) :
    (cs.map Char.toLower).count '\n' = cs.count '\n' := by
  have line : CaseBlind (· == '\n') := caseBlind_beq (by decide)
  rw [List.count_eq_countP, List.countP_map, List.count_eq_countP]
  exact congrArg (List.countP · cs) (funext line)

/-! ## Tokens -/

/-- The token with the letters of its text made small, unless it is a string literal. -/
def folded (t : Token) : Token :=
  { t with text := if t.kind = .text then t.text else foldCase t.text }

/-- A byte offset inside one of the string literals among the tokens. -/
def InText (tokens : List Token) (offset : Nat) : Prop :=
  ∃ t ∈ tokens, t.kind = .text ∧ t.start ≤ offset ∧ offset < t.stop

instance (tokens : List Token) (offset : Nat) : Decidable (InText tokens offset) :=
  inferInstanceAs (Decidable (∃ t ∈ tokens, t.kind = .text ∧ t.start ≤ offset ∧ offset < t.stop))

/-- Two texts that differ only in the case of ASCII letters, and not inside the string literals of
the first. -/
def Recased (a b : String) : Prop :=
  foldCase a = foldCase b ∧
    ∀ i < a.toList.length, InText (tokenize a) (byteLength (a.toList.take i)) →
      a.toList[i]? = b.toList[i]?

instance (a b : String) : Decidable (Recased a b) :=
  inferInstanceAs (Decidable (_ ∧ _))

/-- What stands between the quotes is determined by the characters that the literal takes. -/
theorem takeWhile_eq_of_take_textExtent {cs ds : List Char}
    (same : cs.map Char.toLower = ds.map Char.toLower)
    (h : cs.take (textExtent cs) = ds.take (textExtent cs)) :
    cs.takeWhile (· != '"') = ds.takeWhile (· != '"') := by
  have quote : CaseBlind (· != '"') := caseBlind_bne (by decide)
  have extent : (cs.takeWhile (· != '"')).length = (ds.takeWhile (· != '"')).length := by
    rw [← quote.length_takeWhile, same, quote.length_takeWhile]
  have short : (cs.takeWhile (· != '"')).length ≤ textExtent cs := by
    have := (List.takeWhile_prefix (l := cs) (· != '"')).length_le
    unfold textExtent
    omega
  calc cs.takeWhile (· != '"')
      = cs.take (cs.takeWhile (· != '"')).length :=
        List.prefix_iff_eq_take.mp (List.takeWhile_prefix _)
    _ = (cs.take (textExtent cs)).take (cs.takeWhile (· != '"')).length := by
        rw [List.take_take, Nat.min_eq_left short]
    _ = (ds.take (textExtent cs)).take (ds.takeWhile (· != '"')).length := by rw [h, extent]
    _ = ds.take (ds.takeWhile (· != '"')).length := by
        rw [List.take_take, Nat.min_eq_left (extent ▸ short)]
    _ = ds.takeWhile (· != '"') := (List.prefix_iff_eq_take.mp (List.takeWhile_prefix _)).symm

/-- The tokens that two such texts begin with are the same up to the case of letters. -/
theorem pieceToken?_recased (line offset : Nat) {c d : Char} {cs ds : List Char}
    (same : (c :: cs).map Char.toLower = (d :: ds).map Char.toLower)
    (literal : (classify c cs).1 = some .text →
      cs.take (classify c cs).2 = ds.take (classify c cs).2) :
    (pieceToken? line offset c cs).map folded = (pieceToken? line offset d ds).map folded := by
  obtain ⟨hc, hcs⟩ := List.cons.inj same
  have piece : classify d ds = classify c cs := by
    rw [← classify_toLower c, ← classify_toLower d, hc, hcs]
  have taken : (c :: cs.take (classify c cs).2).map Char.toLower =
      (d :: ds.take (classify c cs).2).map Char.toLower := by
    rw [List.map_cons, List.map_cons, List.map_take, List.map_take, hc, hcs]
  have bytes : byteLength (c :: cs.take (classify c cs).2) =
      byteLength (d :: ds.take (classify c cs).2) := by
    rw [← byteLength_toLower, taken, byteLength_toLower]
  unfold pieceToken?
  rw [piece, bytes]
  have view := piece_classify c cs
  generalize classify c cs = p at *
  obtain ⟨kind, n⟩ := p
  cases kind with
  | none => rfl
  | some kind =>
    simp only [Option.map_some, folded, Option.some.injEq, mk.injEq, true_and, and_true]
    by_cases htext : kind = .text
    · subst htext
      obtain rfl := view.eq_textExtent
      simp only [if_true, pieceText]
      rw [takeWhile_eq_of_take_textExtent hcs (literal rfl)]
    · simp only [htext, if_false, pieceText_of_ne htext, foldCase_ofList, taken]

/-- A string literal covers the offsets of all its characters. -/
theorem inText_piece (line offset : Nat) {c : Char} {cs : List Char} {i : Nat}
    (h : (classify c cs).1 = some .text) (hi : i ≤ (classify c cs).2) (hlen : i ≤ cs.length) :
    InText (scan line offset (c :: cs)) (offset + byteLength ((c :: cs).take i)) := by
  have shorter :
      byteLength ((c :: cs).take i) < byteLength ((c :: cs).take ((classify c cs).2 + 1)) :=
    byteLength_take_lt (by omega) (by simp only [List.length_cons]; omega)
  let t : Token := ⟨.text, pieceText .text c cs (classify c cs).2, line, offset,
    offset + byteLength (c :: cs.take (classify c cs).2)⟩
  refine ⟨t, ?_, rfl, Nat.le_add_right _ _, Nat.add_lt_add_left shorter offset⟩
  rw [scan_cons, pieceToken?, h]
  exact List.mem_cons_self

theorem inText_behind {line offset k : Nat} {c : Char} {cs : List Char}
    (h : InText (scan (line + (c :: cs.take (classify c cs).2).count '\n')
      (offset + byteLength (c :: cs.take (classify c cs).2)) (cs.drop (classify c cs).2)) k) :
    InText (scan line offset (c :: cs)) k := by
  obtain ⟨t, ht, rest⟩ := h
  refine ⟨t, ?_, rest⟩
  rw [scan_cons]
  exact List.mem_append_right _ ht

/-- Texts that differ only in the case of letters outside string literals have the same tokens up to
the case of letters. -/
theorem scan_recased (line offset : Nat) (cs ds : List Char)
    (same : cs.map Char.toLower = ds.map Char.toLower)
    (literal : ∀ i, InText (scan line offset cs) (offset + byteLength (cs.take i)) →
      cs[i]? = ds[i]?) :
    (scan line offset cs).map folded = (scan line offset ds).map folded := by
  induction cs using pieces_induct generalizing line offset ds with
  | nil =>
    obtain rfl : ds = [] := List.map_eq_nil_iff.mp same.symm
    rfl
  | cons c cs ih =>
    obtain ⟨d, ds, rfl, hd, hds⟩ := List.map_eq_cons_iff.mp same.symm
    have piece : classify d ds = classify c cs := by
      rw [← classify_toLower c, ← classify_toLower d, hd, hds]
    have length : cs.length = ds.length := by
      rw [← List.length_map Char.toLower, ← hds, List.length_map]
    have quoted (htext : (classify c cs).1 = some .text) :
        cs.take (classify c cs).2 = ds.take (classify c cs).2 := by
      refine List.ext_getElem? fun i ↦ ?_
      by_cases hi : i < (classify c cs).2
      · rw [List.getElem?_take_of_lt hi, List.getElem?_take_of_lt hi]
        by_cases hlen : i < cs.length
        · exact literal (i + 1) (inText_piece line offset htext hi hlen)
        · rw [List.getElem?_eq_none (by omega), List.getElem?_eq_none (by omega)]
      · rw [List.getElem?_take_eq_none (by omega), List.getElem?_take_eq_none (by omega)]
    rw [scan_cons, scan_cons, piece, List.map_append, List.map_append]
    generalize hn : (classify c cs).2 = n at *
    have taken : (c :: cs.take n).map Char.toLower = (d :: ds.take n).map Char.toLower := by
      rw [List.map_cons, List.map_cons, List.map_take, List.map_take, hd, hds]
    congr 1
    · rw [← Option.toList_map, ← Option.toList_map, pieceToken?_recased line offset same]
      rw [hn]
      exact quoted
    · rw [← byteLength_toLower (d :: ds.take n), ← count_newline_toLower (d :: ds.take n), ← taken,
        byteLength_toLower, count_newline_toLower]
      refine ih _ _ _ ?_ fun i hi ↦ ?_
      · rw [List.map_drop, List.map_drop, hds]
      -- the i-th character behind the piece is the one at n + 1 + i of the whole text
      · have split : (c :: cs).take (n + 1 + i) = c :: cs.take n ++ (cs.drop n).take i := by
          rw [List.take_add]
          rfl
        rw [Nat.add_assoc, ← byteLength_append, ← split] at hi
        have here := literal (n + 1 + i) (inText_behind (hn ▸ hi))
        rw [List.getElem?_drop, List.getElem?_drop]
        simpa [Nat.add_right_comm] using here

theorem Recased.tokenize {a b : String} (h : Recased a b) :
    (tokenize a).map folded = (tokenize b).map folded := by
  obtain ⟨same, literal⟩ := h
  have lower : a.toList.map Char.toLower = b.toList.map Char.toLower := by
    rw [← toList_foldCase, same, toList_foldCase]
  refine scan_recased 1 0 a.toList b.toList lower fun i hi ↦ ?_
  by_cases hlen : i < a.toList.length
  · exact literal i hlen (by rwa [Nat.zero_add] at hi)
  · have length : a.toList.length = b.toList.length := by
      rw [← List.length_map Char.toLower, lower, List.length_map]
    rw [List.getElem?_eq_none (by omega), List.getElem?_eq_none (by omega)]

/-! ## Numbers -/

/-- The characters of number literals: digits, the point and type marks. -/
def isNumberChar (c : Char) : Bool :=
  c.isDigit || c == '.' || isTypeMark c

theorem toLower_of_isNumberChar {c : Char} (h : isNumberChar c = true) : c.toLower = c := by
  have letters : ∀ n : Fin 26, isNumberChar (Char.ofNat (65 + n)) = false := by decide
  refine toLower_cases (P := fun c d ↦ isNumberChar c = true → d = c) (fun _ _ _ ↦ rfl)
    (fun n hn ↦ ?_) c h
  rw [letters] at hn
  cases hn

theorem isNumberChar_of_mem_take {cs : List Char} {d : Char} (h : d ∈ cs.take (numberExtent cs)) :
    isNumberChar d = true := by
  have digit {d : Char} (hd : d.isDigit = true) : isNumberChar d = true := by
    simp [isNumberChar, hd]
  obtain ⟨ds, fs, ms, parts, hds, hfs, hms⟩ := exists_numberExtent cs
  rw [parts, List.mem_append, List.mem_append] at h
  rcases h with (h | h) | h
  · exact digit (hds d h)
  · cases hfs with
    | none => cases h
    | point hpoint =>
      rcases List.mem_cons.mp h with rfl | h
      · rfl
      · exact digit (hpoint d h)
  · cases hms with
    | none => cases h
    | mark hmark =>
      obtain rfl := List.mem_singleton.mp h
      simp [isNumberChar, hmark]

/-- There are no letters in a number. -/
theorem foldCase_number {s : String} {t : Token} (ht : t ∈ tokenize s) (hk : t.kind = .number) :
    foldCase t.text = t.text := by
  obtain ⟨line, offset, c, cs, piece⟩ := eq_pieceToken?_of_mem_scan ht (by simp [hk])
  obtain ⟨kind, hkind, rfl⟩ := Option.map_eq_some_iff.mp piece
  obtain rfl : kind = .number := hk
  have view := piece_classify c cs
  rw [hkind] at view
  obtain ⟨hc, hn⟩ := view.eq_numberExtent
  have small : (c :: cs.take (classify c cs).2).map Char.toLower =
      c :: cs.take (classify c cs).2 := by
    refine (List.map_congr_left fun d hd ↦ ?_).trans (List.map_id _)
    rcases List.mem_cons.mp hd with rfl | hd
    · exact toLower_of_isNumberChar (by simp [isNumberChar, hc])
    · rw [hn] at hd
      exact toLower_of_isNumberChar (isNumberChar_of_mem_take hd)
  simp only [pieceText, foldCase_ofList, small]

end MiniBasic.Token
