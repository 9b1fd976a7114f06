import MiniBasic.Proofs.Token.Lossless

/-!
# Scanning two texts that are joined

A line end cuts a text: what stands before it is scanned as if the text ended there, and what stands
behind it as a text of its own, with all places moved. The one exception is a string literal that is
still open at the line end, since it goes on behind it.
-/

namespace MiniBasic.Token

/-! ## Moved tokens -/

/-- The token as it stands in a text with so many lines and bytes more in front. -/
def shift (lines bytes : Nat) (t : Token) : Token :=
  ⟨t.kind, t.text, t.line + lines, t.start + bytes, t.stop + bytes⟩

theorem pieceToken?_shift (lines bytes line offset : Nat) (c : Char) (cs : List Char) :
    pieceToken? (line + lines) (offset + bytes) c cs =
      (pieceToken? line offset c cs).map (shift lines bytes) := by
  unfold pieceToken?
  rw [Option.map_map]
  refine congrArg (Option.map · _) (funext fun kind ↦ ?_)
  rw [Function.comp_apply, shift, Nat.add_right_comm]

theorem scan_shift (lines bytes line offset : Nat) (cs : List Char) :
    scan (line + lines) (offset + bytes) cs = (scan line offset cs).map (shift lines bytes) := by
  induction cs using pieces_induct generalizing line offset with
  | nil =>
    rw [scan_nil, scan_nil]
    rfl
  | cons c cs ih =>
    rw [scan_cons, scan_cons, List.map_append, pieceToken?_shift, Option.toList_map, ← ih,
      Nat.add_right_comm line, Nat.add_right_comm offset]

/-! ## Pieces before a line end -/

theorem takeWhile_append_newline {p : Char → Bool} (hp : p '\n' = false) (cs ds : List Char) :
    (cs ++ '\n' :: ds).takeWhile p = cs.takeWhile p := by
  induction cs with
  | nil => rw [List.nil_append, List.takeWhile_cons_of_neg (by rw [hp]; exact Bool.false_ne_true),
      List.takeWhile_nil]
  | cons c cs ih => rw [List.cons_append, List.takeWhile_cons, List.takeWhile_cons, ih]

theorem lineExtent_append_newline (cs ds : List Char) :
    lineExtent (cs ++ '\n' :: ds) = lineExtent cs := by
  rw [lineExtent, takeWhile_append_newline rfl, lineExtent]

theorem fractionExtent_append_newline (cs ds : List Char) :
    fractionExtent (cs ++ '\n' :: ds) = fractionExtent cs := by
  cases cs with
  | nil => rfl
  | cons c cs => rw [List.cons_append, fractionExtent, takeWhile_append_newline rfl, fractionExtent]

theorem markExtent_append_newline (cs ds : List Char) :
    markExtent (cs ++ '\n' :: ds) = markExtent cs := by
  cases cs with
  | nil => rfl
  | cons c cs => rfl

theorem fractionExtent_le_length (cs : List Char) : fractionExtent cs ≤ cs.length := by
  cases cs with
  | nil => exact le_rfl
  | cons c cs =>
    have digits := (List.takeWhile_prefix Char.isDigit (l := cs)).length_le
    rw [fractionExtent, List.length_cons]
    split
    · omega
    · exact Nat.zero_le _

theorem markExtent_le_length (cs : List Char) : markExtent cs ≤ cs.length := by
  cases cs with
  | nil => exact le_rfl
  | cons c cs =>
    rw [markExtent, List.length_cons]
    split
    · omega
    · exact Nat.zero_le _

theorem numberExtent_le_length (cs : List Char) : numberExtent cs ≤ cs.length := by
  have whole := (List.takeWhile_prefix Char.isDigit (l := cs)).length_le
  have fraction := fractionExtent_le_length (cs.drop (cs.takeWhile Char.isDigit).length)
  have mark := markExtent_le_length (cs.drop ((cs.takeWhile Char.isDigit).length +
    fractionExtent (cs.drop (cs.takeWhile Char.isDigit).length)))
  rw [List.length_drop] at fraction mark
  unfold numberExtent
  dsimp only
  omega

theorem numberExtent_append_newline (cs ds : List Char) :
    numberExtent (cs ++ '\n' :: ds) = numberExtent cs := by
  have whole := (List.takeWhile_prefix Char.isDigit (l := cs)).length_le
  have fraction := fractionExtent_le_length (cs.drop (cs.takeWhile Char.isDigit).length)
  rw [List.length_drop] at fraction
  unfold numberExtent
  dsimp only
  rw [takeWhile_append_newline rfl, List.drop_append_of_le_length whole,
    fractionExtent_append_newline, List.drop_append_of_le_length (by omega),
      markExtent_append_newline]

theorem symbol?_newline (c : Char) : symbol? c (some '\n') = symbol? c none := by
  unfold symbol?
  rfl

theorem symbol?_append_newline (c : Char) (cs ds : List Char) :
    symbol? c (cs ++ '\n' :: ds).head? = symbol? c cs.head? := by
  cases cs with
  | nil => exact symbol?_newline c
  | cons d cs => rfl

theorem takeWhile_append_of_mem {p : Char → Bool} {cs : List Char} {c : Char} (hc : c ∈ cs)
    (hp : p c = false) (ds : List Char) : (cs ++ ds).takeWhile p = cs.takeWhile p := by
  induction cs with
  | nil => cases hc
  | cons d cs ih =>
    rw [List.cons_append, List.takeWhile_cons, List.takeWhile_cons]
    rcases List.mem_cons.mp hc with rfl | hc
    · rw [hp]
      rfl
    · rw [ih hc]

/-- A string literal that is closed does not depend on what follows. -/
theorem textExtent_append {cs : List Char} (closed : '"' ∈ cs) (ds : List Char) :
    textExtent (cs ++ ds) = textExtent cs := by
  have inside := takeWhile_append_of_mem (p := (· != '"')) closed rfl ds
  have short : (cs.takeWhile (· != '"')).length < cs.length := by
    refine (List.takeWhile_prefix _).length_le.lt_of_ne fun same ↦ ?_
    have whole := (List.takeWhile_prefix (· != '"')).eq_of_length same
    rw [← whole] at closed
    exact absurd (List.mem_takeWhile_imp closed) (by decide)
  unfold textExtent
  rw [inside, List.length_append]
  omega

/-- Before a line end, a text begins with the same piece as before the end of the text. -/
theorem classify_append_newline {c : Char} {cs : List Char} (closed : c = '"' → '"' ∈ cs)
    (ds : List Char) :
    classify c (cs ++ '\n' :: ds) = classify c cs := by
  have word := (List.takeWhile_prefix isWordRest (l := cs)).length_le
  unfold classify
  simp only [takeWhile_append_newline (p := isBlank) rfl,
    takeWhile_append_newline (p := isWordRest) rfl, lineExtent_append_newline,
      numberExtent_append_newline, symbol?_append_newline,
    List.take_append_of_le_length word, List.drop_append_of_le_length word]
  by_cases quote : c = '"'
  · rw [textExtent_append (closed quote)]
  · simp only [beq_eq_false_iff_ne.mpr quote]
    rfl

theorem symbol?_le_length {c : Char} {cs : List Char} {s : Symbol} {n : Nat}
    (h : symbol? c cs.head? = some (s, n)) : n ≤ cs.length := by
  cases cs with
  | nil =>
    unfold symbol? at h
    split at h <;> simp_all
  | cons d cs =>
    unfold symbol? at h
    rw [List.length_cons]
    split at h <;> grind

theorem Piece.le_length {c : Char} {cs : List Char} {kind : Option Kind} {n : Nat}
    (h : Piece c cs kind n) : n ≤ cs.length := by
  have word := (List.takeWhile_prefix isWordRest (l := cs)).length_le
  cases h with
  | blank => exact (List.takeWhile_prefix isBlank).length_le
  | comment => exact (List.takeWhile_prefix _).length_le
  | newline => exact Nat.zero_le _
  | text => exact Nat.min_le_right _ _
  | number => exact numberExtent_le_length cs
  | remark =>
    have line : lineExtent (cs.drop (cs.takeWhile isWordRest).length) ≤ _ :=
      (List.takeWhile_prefix _).length_le
    rw [List.length_drop] at line
    omega
  | word => exact word
  | symbol h => exact symbol?_le_length h
  | unknown => exact Nat.zero_le _

/-! ## Joined texts -/

/-- A string literal without a closing quote: behind its opening quote stands its text only. -/
def Unclosed (t : Token) : Prop :=
  t.kind = .text ∧ t.stop = t.start + 1 + t.text.utf8ByteSize

instance (t : Token) : Decidable t.Unclosed :=
  inferInstanceAs (Decidable (_ ∧ _))

/-- The text ends inside a string literal. -/
def EndsInText (source : String) : Prop :=
  ∃ t ∈ tokenize source, t.Unclosed

instance (source : String) : Decidable (EndsInText source) :=
  inferInstanceAs (Decidable (∃ t ∈ _, _))

theorem pieceToken?_quote (line offset : Nat) (cs : List Char) :
    pieceToken? line offset '"' cs = some ⟨.text, String.ofList (cs.takeWhile (· != '"')),
      line, offset, offset + byteLength ('"' :: cs.take (textExtent cs))⟩ :=
  rfl

/-- A quote that opens a literal which is closed has a second one behind it. -/
theorem mem_of_closed {line offset : Nat} {cs : List Char}
    (closed : ∀ t ∈ pieceToken? line offset '"' cs, ¬t.Unclosed) : '"' ∈ cs := by
  rcases textExtent_cases cs with ⟨body, rest, rfl, -⟩ | ⟨whole, extent⟩
  · exact List.mem_append_right _ List.mem_cons_self
  · refine absurd ⟨rfl, ?_⟩ (closed _ (pieceToken?_quote line offset cs))
    dsimp only
    rw [extent, whole, List.take_length, byteLength_cons, ← byteLength_toList, String.toList_ofList,
      Nat.add_assoc]
    rfl

/-- Behind the opening quote of a literal that is not closed there is no other quote. -/
theorem not_mem_of_unclosed {line offset : Nat} {c : Char} {cs : List Char} {t : Token}
    (ht : t ∈ pieceToken? line offset c cs) (unclosed : t.Unclosed) : c = '"' ∧ '"' ∉ cs := by
  obtain ⟨kind, hk, rfl⟩ := Option.map_eq_some_iff.mp ht
  obtain ⟨rfl, stop⟩ := unclosed
  have piece := piece_classify c cs
  rw [hk] at piece
  have quote := piece.eq_quote
  dsimp only [pieceText] at stop
  rw [piece.eq_textExtent] at stop
  refine ⟨quote, fun closed ↦ ?_⟩
  rcases textExtent_cases cs with ⟨body, rest, split, inside, extent⟩ | ⟨whole, -⟩
  · have taken : cs.take (body.length + 1) = body ++ ['"'] := by
      rw [split, List.take_append, List.take_of_length_le (Nat.le_succ _), Nat.add_sub_cancel_left,
        List.take_succ_cons, List.take_zero]
    rw [extent, taken, inside, ← byteLength_toList, String.toList_ofList, quote] at stop
    simp only [byteLength_cons, byteLength_append, byteLength_nil] at stop
    have one : '"'.utf8Size = 1 := rfl
    omega
  · rw [← whole] at closed
    exact absurd (List.mem_takeWhile_imp closed) (by decide)

theorem pieceToken?_append_newline {line offset : Nat} {c : Char} {cs : List Char}
    (closed : ∀ t ∈ pieceToken? line offset c cs, ¬t.Unclosed) (ds : List Char) :
    classify c (cs ++ '\n' :: ds) = classify c cs ∧
      pieceToken? line offset c (cs ++ '\n' :: ds) = pieceToken? line offset c cs := by
  have quoted : c = '"' → '"' ∈ cs := by
    rintro rfl
    exact mem_of_closed closed
  have same := classify_append_newline quoted ds
  have piece := piece_classify c cs
  have within : (cs ++ '\n' :: ds).take (classify c cs).2 = cs.take (classify c cs).2 :=
    List.take_append_of_le_length piece.le_length
  refine ⟨same, ?_⟩
  unfold pieceToken?
  rw [same, within]
  cases hk : (classify c cs).1 with
  | none => rfl
  | some kind =>
    have text : pieceText kind c (cs ++ '\n' :: ds) (classify c cs).2 =
        pieceText kind c cs (classify c cs).2 := by
      by_cases literal : kind = .text
      · subst literal
        rw [hk] at piece
        rw [pieceText, pieceText, takeWhile_append_of_mem (quoted piece.eq_quote) rfl]
      · rw [pieceText_of_ne literal, pieceText_of_ne literal, within]
    rw [Option.map_some, Option.map_some, text]

theorem scan_ne_nil (line offset : Nat) (cs : List Char) : scan line offset cs ≠ [] := by
  obtain ⟨⟨eof, last⟩, -⟩ := (covers_scan line offset cs).last
  rintro none
  rw [none] at last
  cases last

/-- A literal that is not closed before a line end is another token if the line end follows. -/
theorem scan_quote_append_ne {cs : List Char} (unclosed : '"' ∉ cs) (line offset : Nat)
    (ds : List Char) (us : List Token) :
    scan line offset ('"' :: cs ++ '\n' :: ds) ≠ (scan line offset ('"' :: cs)).dropLast ++ us := by
  intro same
  have longer (rest : List Char) :
      (cs ++ rest).takeWhile (· != '"') = cs ++ rest.takeWhile (· != '"') :=
    List.takeWhile_append_of_pos fun d hd ↦ bne_iff_ne.mpr fun quote ↦ unclosed (quote ▸ hd)
  have whole := longer []
  rw [List.takeWhile_nil, List.append_nil] at whole
  rw [List.cons_append, scan_cons, pieceToken?_quote, scan_cons, pieceToken?_quote,
    List.dropLast_append_of_ne_nil (scan_ne_nil _ _ _)] at same
  have texts := congrArg Token.text (List.cons.inj same).1
  dsimp only at texts
  rw [longer, whole, String.ofList_inj] at texts
  have lengths := congrArg List.length texts
  rw [List.takeWhile_cons_of_pos rfl, List.length_append, List.length_cons] at lengths
  omega

/-- A text is scanned up to a line end and, with all places moved, behind it, unless the line end
stands in a string literal. -/
theorem scan_append_newline_iff (line offset : Nat) (cs ds : List Char) :
    scan line offset (cs ++ '\n' :: ds) = (scan line offset cs).dropLast ++
        ⟨.newline, "\n", line + cs.count '\n', offset + byteLength cs,
          offset + byteLength cs + 1⟩ :: scan (line + cs.count '\n' + 1)
            (offset + byteLength cs + 1) ds ↔
      ∀ t ∈ scan line offset cs, ¬t.Unclosed := by
  induction cs using pieces_induct generalizing line offset with
  | nil =>
    rw [List.nil_append, scan_cons, scan_nil]
    refine ⟨fun _ t ht unclosed ↦ ?_, fun _ ↦ rfl⟩
    rw [List.mem_singleton] at ht
    rw [ht] at unclosed
    cases unclosed.1
  | cons c cs ih =>
    by_cases here : ∀ t ∈ pieceToken? line offset c cs, ¬t.Unclosed
    · obtain ⟨same, token⟩ := pieceToken?_append_newline here ds
      have extent := (piece_classify c cs).le_length
      have lines :
          (c :: cs.take (classify c cs).2).count '\n' + (cs.drop (classify c cs).2).count '\n' =
          (c :: cs).count '\n' := by
        rw [← List.count_append, List.cons_append, List.take_append_drop]
      have bytes :
          byteLength (c :: cs.take (classify c cs).2) + byteLength (cs.drop (classify c cs).2) =
          byteLength (c :: cs) := by
        rw [← byteLength_append, List.cons_append, List.take_append_drop]
      rw [List.cons_append, scan_cons, scan_cons, same, token, List.take_append_of_le_length extent,
        List.drop_append_of_le_length extent, List.dropLast_append_of_ne_nil (scan_ne_nil _ _ _),
          List.append_assoc,
        List.append_cancel_left_eq, ← lines, ← bytes, List.forall_mem_append]
      simp only [← Nat.add_assoc]
      rw [ih, and_iff_right fun t ht ↦ here t (Option.mem_toList.mp ht)]
    · -- the literal that starts here goes on behind the line end
      push Not at here
      obtain ⟨t, ht, unclosed⟩ := here
      obtain ⟨rfl, none⟩ := not_mem_of_unclosed ht unclosed
      refine iff_of_false (scan_quote_append_ne none line offset ds _) fun all ↦ all t ?_ unclosed
      rw [scan_cons]
      exact List.mem_append_left _ (Option.mem_toList.mpr ht)

/-- The lines that end in a text. -/
def lineCount (source : String) : Nat :=
  source.toList.count '\n'

theorem lineCount_append_newline (source : String) :
    lineCount (source ++ "\n") = lineCount source + 1 := by
  rw [lineCount, String.toList_append, List.count_append]
  rfl

theorem utf8ByteSize_append_newline (source : String) :
    (source ++ "\n").utf8ByteSize = source.utf8ByteSize + 1 :=
  String.utf8ByteSize_append ..

/-- A line end cuts the tokens of a text in two, unless it stands in a string literal. -/
theorem tokenize_cut_iff (a b : String) :
    tokenize (a ++ "\n" ++ b) = (tokenize a).dropLast ++
        ⟨.newline, "\n", lineCount a + 1, a.utf8ByteSize, a.utf8ByteSize + 1⟩ ::
          (tokenize b).map (shift (lineCount a + 1) (a.utf8ByteSize + 1)) ↔
      ¬EndsInText a := by
  have chars : (a ++ "\n" ++ b).toList = a.toList ++ '\n' :: b.toList := by
    rw [String.toList_append, String.toList_append, List.append_assoc]
    rfl
  have cut := scan_append_newline_iff 1 0 a.toList b.toList
  rw [← chars, Nat.zero_add, byteLength_toList, Nat.add_comm 1] at cut
  have moved := scan_shift (lineCount a + 1) (a.utf8ByteSize + 1) 1 0 b.toList
  rw [Nat.zero_add, Nat.add_comm 1] at moved
  rw [tokenize, tokenize, tokenize, ← moved, EndsInText, not_exists]
  refine cut.trans (forall_congr' fun t ↦ ?_)
  rw [not_and]
  rfl

/-- The tokens of two texts joined by a line end are the tokens of the first one, the line end, and
the tokens of the second one, moved behind it. -/
theorem tokenize_join {a : String} (closed : ¬EndsInText a) (b : String) :
    ∃ newline : Token, newline.kind = .newline ∧
      tokenize (a ++ "\n" ++ b) = (tokenize a).dropLast ++
        newline :: (tokenize b).map (shift (lineCount (a ++ "\n")) (a ++ "\n").utf8ByteSize) := by
  rw [lineCount_append_newline, utf8ByteSize_append_newline]
  exact ⟨_, rfl, (tokenize_cut_iff a b).mpr closed⟩

/-- The tokens of a text without the one that marks its end. -/
def contents (source : String) : List Token :=
  (tokenize source).filter (·.kind ≠ .eof)

theorem contents_eq_dropLast (source : String) : contents source = (tokenize source).dropLast := by
  obtain ⟨⟨line, last⟩, inside⟩ := (covers_tokenize source).last
  have kept : (tokenize source).dropLast.filter (·.kind ≠ .eof) = (tokenize source).dropLast :=
    List.filter_eq_self.mpr fun t ht ↦ decide_eq_true (inside t ht)
  have split := congrArg (List.filter (·.kind ≠ .eof)) (List.dropLast_append_getLast? _ last)
  rw [List.filter_append, kept] at split
  exact split.symm.trans (List.append_nil _)

/-- Scanning starts anew behind every line end that is not part of a string literal: the tokens of
two texts joined by a line end are those of the first text, the line end, and those of the second
text with the lines and bytes before it added to their places. Only a string literal that is open at
the end of the first text goes on behind the line end. -/
theorem tokenize_append_newline_iff (a b : String) :
    tokenize (a ++ "\n" ++ b) = contents a ++
        ⟨.newline, "\n", lineCount a + 1, a.utf8ByteSize, a.utf8ByteSize + 1⟩ ::
          (tokenize b).map (shift (lineCount a + 1) (a.utf8ByteSize + 1)) ↔
      ¬EndsInText a := by
  rw [contents_eq_dropLast]
  exact tokenize_cut_iff a b

end MiniBasic.Token
