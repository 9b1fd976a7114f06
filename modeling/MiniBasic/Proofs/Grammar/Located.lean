import MiniBasic.Proofs.Grammar.Lookahead
import MiniBasic.Proofs.Print.Layout

/-!
# Errors point into the source

A token tells on which line it starts: line ends are counted as the text goes by, inside string
literals too. An error that a source text gets is about one of its tokens. The end of the text is
such a token, so a cursor never has to make one up; and a number of a source text can always be
read.
-/

namespace MiniBasic

namespace Token

/-! ## Lines -/

theorem line_of_mem_scan {line offset : Nat} {cs : List Char} {t : Token}
    (h : t ∈ scan line offset cs) :
    ∃ l rest, cs = l ++ rest ∧ t.start = offset + byteLength l ∧ t.line = line + l.count '\n' := by
  induction cs using pieces_induct generalizing line offset with
  | nil =>
    rw [scan_nil, List.mem_singleton] at h
    subst h
    exact ⟨[], [], rfl, rfl, rfl⟩
  | cons c cs ih =>
    rw [scan_cons, List.mem_append, Option.mem_toList] at h
    rcases h with here | behind
    · obtain ⟨kind, -, rfl⟩ := Option.map_eq_some_iff.mp here
      exact ⟨[], c :: cs, rfl, rfl, rfl⟩
    · obtain ⟨l, rest, split, start, line⟩ := ih behind
      refine ⟨c :: cs.take (classify c cs).2 ++ l, rest, ?_, ?_, ?_⟩
      · rw [List.append_assoc, ← split, List.cons_append, List.take_append_drop]
      · rw [start, byteLength_append, Nat.add_assoc]
      · rw [line, List.count_append, Nat.add_assoc]

/-- A token starts on the line behind the line ends before it. -/
theorem line_eq_of_mem_tokenize {source : String} {t : Token} (h : t ∈ tokenize source) :
    t.line = 1 + lineCount (slice source 0 t.start) := by
  obtain ⟨l, rest, split, start, line⟩ := line_of_mem_scan h
  have before : slice source 0 (0 + byteLength l) = String.ofList l := slice_eq (l := []) split
  rw [line, start, before, lineCount, String.toList_ofList]

/-! ## Numbers -/

theorem isSome_literal?_of_mem_tokenize {source : String} {t : Token} (h : t ∈ tokenize source)
    (hk : t.kind = .number) : (Parser.literal? t.text).isSome = true := by
  have spelled := spelled_of_mem_tokenize h (by rw [hk]; decide) (by rw [hk]; decide)
  rw [hk] at spelled
  obtain ⟨ds, fs, ms, text, numeral, mark⟩ := spelled
  rw [numeral.literal? mark text]
  rfl

end Token

/-! ## Errors -/

namespace Parser

open Token (tokenize Lexeme lineCount)

variable {α : Type} {p : Parser α} {source : String} {e : SyntaxError} {k : Nat} {moves : Prop}
  {R : α → α → Prop}

/-- The parser refuses a source text at one of its tokens, and the error tells where that token
stands. -/
structure Located (p : Parser α) (source : String) (e : SyntaxError) : Prop where
  /-- The token has its place among those of the text, and what is put behind the last of them does
  not matter. -/
  token : ∃ k, (tokenize source)[k]? = some e.token ∧
    ∀ eof, p ⟨tokenize source, eof⟩ = .error e.complaint ⟨(tokenize source).drop k, eof⟩
  line : e.line = e.token.line
  /-- The reported part of the text lies within it and is what the token was made from. -/
  part : ∃ before lexeme after, source = before ++ lexeme ++ after ∧
    e.span = (before.utf8ByteSize, lexeme.utf8ByteSize) ∧ e.token.start = before.utf8ByteSize ∧
    e.token.stop = (before ++ lexeme).utf8ByteSize ∧ e.line = 1 + lineCount before ∧
    (Lexeme e.token lexeme.toList after.toList ∨ e.token.kind = .eof ∧ lexeme = "" ∧ after = "")
  number : e.complaint ≠ .invalidNumber

/-- A run on the tokens of a source text fails in front of one of them. -/
theorem exists_index (hp : Comparison.lookahead.Follows k Token.Any moves R p p)
    (refused : p.run (tokenize source) = .error e) :
    e.complaint.Fits e.token ∧ ∃ k, (tokenize source)[k]? = some e.token ∧
      ∀ eof, p ⟨tokenize source, eof⟩ = .error e.complaint ⟨(tokenize source).drop k, eof⟩ := by
  obtain ⟨c, failed, token⟩ := exists_of_run_eq_error refused
  obtain ⟨passed, split, inside, fits, run⟩ := hp.error (Cursor.kind_eof_ofTokens _) failed
  obtain ⟨⟨line, last⟩, -⟩ := (Token.covers_tokenize source).last
  have tokens : tokenize source = passed ++ c.rest := congrArg Cursor.rest split
  rw [tokens] at last ⊢
  obtain ⟨t, rest, stop, rfl⟩ : ∃ t rest stop, c = ⟨t :: rest, stop⟩ := by
    obtain ⟨_ | ⟨t, rest⟩, stop⟩ := c
    · rw [List.append_nil] at last
      exact absurd rfl (inside _ (List.mem_of_getLast? last))
    · exact ⟨t, rest, stop, rfl⟩
  refine ⟨token ▸ fits, passed.length, ?_, fun eof ↦ ?_⟩
  · rw [List.getElem?_append_right (Nat.le_refl _), Nat.sub_self, ← token]
    rfl
  · rw [List.drop_left]
    refine run ⟨t :: rest, eof⟩ ⟨rfl, fun here ↦ ?_⟩
    -- the last token ends the input, so there is a second one behind a token that does not
    cases rest with
    | nil =>
      rw [List.getLast?_concat, Option.some.injEq] at last
      change t.Inside at here
      subst last
      exact absurd rfl here
    | cons u rest => rfl

/-- What stands at a token of a source text, and before and behind it. -/
theorem exists_part {t : Token} (h : t ∈ tokenize source) :
    ∃ before lexeme after : String, source = before ++ lexeme ++ after ∧
      t.start = before.utf8ByteSize ∧
      t.stop = (before ++ lexeme).utf8ByteSize ∧ t.line = 1 + lineCount before ∧
      (Lexeme t lexeme.toList after.toList ∨ t.kind = .eof ∧ lexeme = "" ∧ after = "") := by
  have covers := Token.covers_tokenize source
  have line := Token.line_eq_of_mem_tokenize h
  obtain ⟨front, back, split⟩ := List.append_of_mem h
  rw [split] at covers
  obtain ⟨l, g, w, rest, chars, -, start, stop, -, found⟩ := covers.locate
  have size (cs : List Char) : Token.byteLength cs = (String.ofList cs).utf8ByteSize := by
    rw [← Token.byteLength_toList, String.toList_ofList]
  have before : Token.slice source 0 t.start = String.ofList (l ++ g) := by
    rw [start]
    exact Token.slice_eq (l := []) (r := w ++ rest)
      (by rw [chars, List.nil_append, List.append_assoc])
  refine ⟨String.ofList (l ++ g), String.ofList w, String.ofList rest, ?_, ?_, ?_, ?_, ?_⟩
  · rw [← String.ofList_append, ← String.ofList_append, List.append_assoc, List.append_assoc,
      ← chars, String.ofList_toList]
  · rw [start, Nat.zero_add, size]
  · rw [stop, Nat.zero_add, size, String.ofList_append]
  · rw [line, before]
  · rcases found with lexeme | ⟨eof, rfl, rfl, -⟩
    · exact .inl (by rwa [String.toList_ofList, String.toList_ofList])
    · exact .inr ⟨eof, rfl, rfl⟩

theorem located (hp : Comparison.lookahead.Follows k Token.Any moves R p p)
    (refused : p.run (tokenize source) = .error e) : Located p source e := by
  obtain ⟨fits, index⟩ := exists_index hp refused
  have member : e.token ∈ tokenize source := by
    obtain ⟨k, here, -⟩ := index
    exact List.mem_of_getElem? here
  refine ⟨index, rfl, ?_, fun number ↦ ?_⟩
  · obtain ⟨before, lexeme, after, split, start, stop, line, found⟩ := exists_part member
    refine ⟨before, lexeme, after, split, ?_, start, stop, line, found⟩
    rw [SyntaxError.span, start, stop, String.utf8ByteSize_append, Nat.add_sub_cancel_left]
  · rw [number] at fits
    have read := Token.isSome_literal?_of_mem_tokenize member fits.1
    rw [fits.2] at read
    cases read

end Parser

/-- Line numbers and syntax errors point into the source. A token starts on the line that comes
behind the line ends before it. If a text is refused, as a program or as an expression, the error is
about one of its tokens; it tells the line of that token and the part of the text that the token was
made from; and it is not about a number that cannot be read. -/
theorem errors_located (source : String) :
    (∀ t ∈ Token.tokenize source, t.line = 1 + Token.lineCount (Token.slice source 0 t.start)) ∧
      (∀ e, parse (Token.tokenize source) = .error e →
        (Parser.program (Parser.nestingBound (Token.tokenize source))).Located source e) ∧
      ∀ e, parseExpression (Token.tokenize source) = .error e →
        (Parser.wholeExpression (Parser.nestingBound (Token.tokenize source))).Located source e :=
  ⟨fun _ ↦ Token.line_eq_of_mem_tokenize,
    fun _ ↦ Parser.located (Comparison.follows_program .lookahead trivial (.same _)),
    fun _ ↦ Parser.located (Comparison.follows_wholeExpression .lookahead trivial (.same _))⟩

/-- The string literal in front of the parenthesis goes over two lines. -/
theorem errors_located_parenthesis :
    ∃ e, parse (Token.tokenize "s = \"a\nb\" )") = .error e ∧ e.line = 2 ∧ e.span = (10, 1) ∧
      (Parser.program (Parser.nestingBound (Token.tokenize "s = \"a\nb\" )"))).Located
      "s = \"a\nb\" )" e := by
  have refused : (parse (Token.tokenize "s = \"a\nb\" )")).map (fun _ ↦ ()) =
      .error ⟨.unexpected .startOfStatement, ⟨.symbol .rightParen, ")", 2, 10, 11⟩⟩ := by
    decide +kernel
  cases h : parse (Token.tokenize "s = \"a\nb\" )") with
  | ok p =>
    rw [h] at refused
    cases refused
  | error e =>
    have located := (errors_located "s = \"a\nb\" )").2.1 e h
    rw [h] at refused
    cases refused
    exact ⟨_, rfl, rfl, rfl, located⟩

end MiniBasic
