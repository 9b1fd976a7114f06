import MiniBasic.Proofs.Print.Statements

/-!
# Printing is undone by parsing

A program that has been parsed from a source text is printed as a text that parses as the same
program.
-/

namespace MiniBasic

/-- The places of tokens do not count. -/
theorem parse_eq_of_bare {ts us : List Token}
    (same : ts.map (Token.bare id) = us.map (Token.bare id)) {p : Program} (h : parse ts = .ok p) :
    parse us = .ok p := by
  unfold parse at h ⊢
  rw [Parser.nestingBound_eq_of_bare same]
  have follows := Comparison.follows_program_bare Text.folding_id (Parser.nestingBound ts)
  refine follows.run_eq_ok (fun p ↦ ?_) same h
  exact map_respell_id fun s _ ↦ s.respell_id

/-- The lines of a program, up to the end of the input. -/
theorem parse_lines {p : Program} (h : ∀ s ∈ p, s.Printable) (eof : Token)
    (heof : eof.kind = .eof) :
    parse (lines p ++ [eof]) = .ok p := by
  have bound : (lines p).length < Parser.nestingBound (lines p ++ [eof]) := by
    rw [Parser.nestingBound, List.length_append]
    omega
  have each (s : Stmt) (hs : s ∈ p) :
      Parser.Reads Parser.endsStmt (Parser.statement (Parser.nestingBound _)) s.tokens s :=
    Parser.reads_statement _ (h s hs) ((length_tokens_lt_lines hs).trans bound)
  have read : Parser.Reads (Parser.endsBlock []) _ ([] ++ lines p) p :=
    Parser.reads_block (List.forall_mem_nil _) h each ((length_le_lines p).trans_lt bound)
      (List.forall_mem_nil _)
  have ends : Parser.endsBlock [] eof.kind = true :=
    Bool.or_eq_true_iff.mpr (.inl (beq_iff_eq.mpr heof))
  unfold parse Parser.run
  dsimp only
  rw [show Parser.block _ [] _ (.ofTokens (lines p ++ [eof])) = _ from read ends]

theorem parse_tokenize_print_of_printable {p : Program} (h : ∀ s ∈ p, s.Printable) :
    parse (Token.tokenize (print p)) = .ok p := by
  have spelled : AllSpelled (lines p) := allSpelled_lines fun s hs ↦ (h s hs).allSpelled
  refine parse_eq_of_bare ?_ (parse_lines h ⟨.eof, "", 0, 0, 0⟩ rfl)
  rw [Token.tokenize, print, String.toList_ofList, Token.bare_scan_layout spelled, List.map_append]
  rfl

/-- The number literals of a source text stand for finite numbers. -/
def FiniteLiterals (source : String) : Prop :=
  ∀ t ∈ Token.tokenize source, t.kind = .number → ∀ x ∈ Parser.literal? t.text, x.isFinite = true

instance (source : String) : Decidable (FiniteLiterals source) :=
  inferInstanceAs (Decidable (∀ t ∈ _, _ → _))

/-- Canonical printing is undone by scanning and parsing, for every source text with finite numbers
that is a program. -/
theorem parse_tokenize_print {source : String} {p : Program}
    (h : parse (Token.tokenize source) = .ok p) (finite : FiniteLiterals source) :
    parse (Token.tokenize (print p)) = .ok p := by
  have sound (t : Token) (ht : t ∈ Token.tokenize source) : t.Sound :=
    ⟨Token.spelled_of_mem_tokenize ht, finite t ht⟩
  exact parse_tokenize_print_of_printable (printable_of_parse sound h)

theorem parse_tokenize_print_inline :
    FiniteLiterals "If a(0.5) Then b.c = -2 ^ -d: E 1.50, New F.G Else Exit Sub" ∧
      ∃ p, parse (Token.tokenize "If a(0.5) Then b.c = -2 ^ -d: E 1.50, New F.G Else Exit Sub") =
        .ok p ∧
        parse (Token.tokenize (print p)) = .ok p := by
  have finite : FiniteLiterals "If a(0.5) Then b.c = -2 ^ -d: E 1.50, New F.G Else Exit Sub" := by
    decide +kernel
  have program : (parse (Token.tokenize
      "If a(0.5) Then b.c = -2 ^ -d: E 1.50, New F.G Else Exit Sub")).toOption.isSome = true := by
    decide +kernel
  cases h :
      parse (Token.tokenize "If a(0.5) Then b.c = -2 ^ -d: E 1.50, New F.G Else Exit Sub") with
  | ok p => exact ⟨finite, p, rfl, parse_tokenize_print h finite⟩
  | error e =>
    rw [h] at program
    cases program

end MiniBasic
