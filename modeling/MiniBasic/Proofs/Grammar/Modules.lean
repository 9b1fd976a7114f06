import MiniBasic.Proofs.Grammar.Bare
import MiniBasic.Proofs.Grammar.Bound
import MiniBasic.Proofs.Grammar.Extension
import MiniBasic.Proofs.Token.Join

/-!
# Programs that are joined

A program can be cut at any line end that stands between two of its statements. So the program of
two texts joined by a line end is the program of the first one followed by that of the second one;
and if the second one is refused, the joined text is refused for the same reason, at the same token
of the second text.
-/

namespace MiniBasic

/-! ## Token lists -/

theorem Cursor.Before.of_append {e : Cursor} {ts : List Token} (inner : ∀ t ∈ ts, t.kind ≠ .eof)
    {stop eof : Token} (hstop : stop.kind = .eof) (heof : eof.kind = .eof) :
    Before e ⟨ts ++ [stop], eof⟩ ⟨ts ++ e.rest, e.eof⟩ := by
  induction ts with
  | nil => exact .last stop eof hstop heof
  | cons t ts ih =>
    obtain ⟨here, behind⟩ := List.forall_mem_cons.mp inner
    exact .next t here (ih behind)

theorem Cursor.eof_ofTokens_append (ts : List Token) {us : List Token} (nonempty : us ≠ []) :
    (ofTokens (ts ++ us)).eof = (ofTokens us).eof := by
  unfold ofTokens
  rw [List.getLast?_append_of_ne_nil ts nonempty]

namespace Parser

/-- A block starts behind the line ends before it. -/
theorem block_newline {stmt : Parser Stmt} {closing : List Keyword} {fuel : Nat}
    {newline eof : Token} {rest : List Token} (line : newline.kind = .newline) :
    block stmt closing (fuel + 1) ⟨newline :: rest, eof⟩ = block stmt closing (fuel + 1)
      ⟨rest, eof⟩ := by
  have skipped : Cursor.skip isSeparator ⟨newline :: rest, eof⟩ =
      Cursor.skip isSeparator ⟨rest, eof⟩ := by
    unfold Cursor.skip
    rw [List.dropWhile_cons_of_pos (by simp [isSeparator, line])]
  rw [block_succ, block_succ, skipped]

theorem run_of_ok {α : Type} {p : Parser α} {tokens : List Token} {a : α} {c : Cursor}
    (h : p (.ofTokens tokens) = .ok a c) : p.run tokens = .ok a := by
  rw [run, h]

theorem run_of_error {α : Type} {p : Parser α} {tokens : List Token} {complaint : Complaint}
    {c : Cursor} (h : p (.ofTokens tokens) = .error complaint c) :
    p.run tokens = .error ⟨complaint, c.peek⟩ := by
  rw [run, h]

theorem exists_of_run_eq_ok {α : Type} {p : Parser α} {tokens : List Token} {a : α}
    (h : p.run tokens = .ok a) : ∃ c, p (.ofTokens tokens) = .ok a c := by
  unfold run at h
  split at h
  next c hr =>
    cases h
    exact ⟨c, hr⟩
  next => cases h

end Parser

/-- A line end between two token lists that spell programs. -/
theorem parse_append {ts us : List Token} {stop newline : Token} {p : Program}
    (inner : ∀ t ∈ ts, t.kind ≠ .eof) (hstop : stop.kind = .eof) (line : newline.kind = .newline)
    (nonempty : us ≠ []) (h : parse (ts ++ [stop]) = .ok p) :
    parse (ts ++ newline :: us) = (parse us).map (p ++ ·) := by
  obtain ⟨c, first⟩ := Parser.exists_of_run_eq_ok h
  have eof : (Cursor.ofTokens (ts ++ newline :: us)).eof = (Cursor.ofTokens us).eof := by
    rw [Cursor.eof_ofTokens_append _ (List.cons_ne_nil _ _)]
    exact Cursor.eof_ofTokens_append [newline] nonempty
  have before : Cursor.Before ⟨newline :: us, (Cursor.ofTokens us).eof⟩ (.ofTokens (ts ++ [stop]))
      (.ofTokens (ts ++ newline :: us)) := by
    rw [← eof]
    exact .of_append inner hstop (Cursor.kind_eof_ofTokens _)
  -- all bounds are raised to one that leaves enough for the second list behind the first program
  let bound := Parser.nestingBound (ts ++ newline :: us)
  have length : (ts ++ newline :: us).length = (ts ++ [stop]).length + us.length := by
    rw [List.length_append, List.length_append, List.length_cons, List.length_singleton]
    omega
  have first : Parser.block (Parser.statement bound) [] (bound + p.length)
      (.ofTokens (ts ++ [stop])) =
      .ok p c := by
    rw [← first]
    apply Parser.block_eq_of_bound (Cursor.kind_eof_ofTokens _) <;>
      simp only [Cursor.ofTokens, bound, Parser.nestingBound] <;> omega
  have whole : Parser.block (Parser.statement bound) [] bound (.ofTokens (ts ++ newline :: us)) =
      Parser.block (Parser.statement bound) [] (bound + p.length)
        (.ofTokens (ts ++ newline :: us)) := by
    apply Parser.block_eq_of_bound (Cursor.kind_eof_ofTokens _) <;>
      simp only [Cursor.ofTokens, bound, Parser.nestingBound] <;> omega
  have second : Parser.block (Parser.statement bound)
      [] bound ⟨newline :: us, (Cursor.ofTokens us).eof⟩ =
      Parser.block (Parser.statement (Parser.nestingBound us)) [] (Parser.nestingBound us)
        (.ofTokens us) := by
    rw [show bound = (ts ++ newline :: us).length + 1 + 1 from rfl, Parser.block_newline line]
    apply Parser.block_eq_of_bound (Cursor.kind_eof_ofTokens _) <;>
      simp only [Cursor.ofTokens, Parser.nestingBound] <;> omega
  have goesOn := Parser.block_before before line first
  rw [Nat.add_sub_cancel, ← whole] at goesOn
  unfold parse
  cases hb : Parser.block (Parser.statement (Parser.nestingBound us)) [] (Parser.nestingBound us)
      (.ofTokens us) with
  | ok q d =>
    rw [bind_ok (second.trans hb)] at goesOn
    rw [Parser.run_of_ok goesOn, Parser.run_of_ok hb]
    rfl
  | error complaint d =>
    rw [bind_error (second.trans hb)] at goesOn
    rw [Parser.run_of_error goesOn, Parser.run_of_error hb]
    rfl

/-! ## Moved tokens -/

/-- The error in a text with so many lines and bytes more in front. -/
def SyntaxError.shift (lines bytes : Nat) (e : SyntaxError) : SyntaxError :=
  ⟨e.complaint, e.token.shift lines bytes⟩

theorem SyntaxError.detail_shift (lines bytes : Nat) (e : SyntaxError) :
    (e.shift lines bytes).detail = e.detail := by
  obtain ⟨complaint, token⟩ := e
  cases complaint <;> rfl

/-- At the same distance from the end of a token list and of the moved list, the moved token is
seen. -/
theorem Cursor.peek_shift {lines bytes : Nat} {ts : List Token} (nonempty : ts ≠ []) {c d : Cursor}
    (hc : c.Along (.ofTokens ts)) (hd : d.Along (.ofTokens (ts.map (Token.shift lines bytes))))
    (length : d.rest.length = c.rest.length) : d.peek = c.peek.shift lines bytes := by
  have rest : d.rest = c.rest.map (Token.shift lines bytes) := by
    have left := List.suffix_iff_eq_drop.mp hc.rest
    have right := List.suffix_iff_eq_drop.mp hd.rest
    change c.rest = ts.drop (ts.length - c.rest.length) at left
    change d.rest = (ts.map _).drop ((ts.map _).length - d.rest.length) at right
    rw [right, length, List.length_map, ← List.map_drop, ← left]
  have eof : d.eof = c.eof.shift lines bytes := by
    rw [hd.eof, hc.eof]
    unfold ofTokens
    rw [List.getLast?_map, List.getLast?_eq_some_getLast nonempty]
    rfl
  unfold peek
  rw [rest, eof]
  cases c.rest with
  | nil => rfl
  | cons t rest => rfl

/-- Where a token list stands shows in the places of errors only. -/
theorem parse_map_shift {ts : List Token} (nonempty : ts ≠ []) (lines bytes : Nat) :
    parse (ts.map (Token.shift lines bytes)) =
      (parse ts).mapError (SyntaxError.shift lines bytes) := by
  have same : ts.map (Token.bare id) = (ts.map (Token.shift lines bytes)).map (Token.bare id) := by
    rw [List.map_map]
    rfl
  have fuel : Parser.nestingBound (ts.map (Token.shift lines bytes)) = Parser.nestingBound ts := by
    rw [Parser.nestingBound, Parser.nestingBound, List.length_map]
  have ended := (Comparison.follows_program_bare Text.folding_id (Parser.nestingBound ts)).ended
    (fun _ _ _ ↦ rfl) (fun _ _ _ ↦ rfl) same
  unfold Parser.program at ended
  unfold parse
  rw [fuel]
  cases left : Parser.block (Parser.statement (Parser.nestingBound ts)) [] (Parser.nestingBound ts)
      (.ofTokens ts) with
  | ok p c =>
    rw [left] at ended
    generalize right : Parser.block _ [] _ _ = y at ended
    cases ended with
    | ok result state =>
      rw [map_respell_id fun s _ ↦ s.respell_id, map_respell_id fun s _ ↦ s.respell_id] at result
      subst result
      rw [Parser.run_of_ok left, Parser.run_of_ok right]
      rfl
  | error complaint c =>
    rw [left] at ended
    generalize right : Parser.block _ [] _ _ = y at ended
    cases ended with
    | @error _ _ _ d error state =>
      obtain ⟨bare, hc, hd⟩ := state
      subst error
      have length : d.rest.length = c.rest.length := by
        have lengths := congrArg (·.rest.length) bare
        simpa only [Cursor.bare, List.length_map] using lengths.symm
      rw [Parser.run_of_error left, Parser.run_of_error right,
        Cursor.peek_shift nonempty hc hd length]
      rfl

/-! ## Source texts -/

/-- Parsing takes texts joined by line ends to programs joined. A text `b` behind a text `a` that is
a program and does not end inside a string literal is parsed as it is parsed alone: its statements
follow those of `a`, or it is refused with the same words at the same token, which stands as many
lines and bytes further on as there are before it. -/
theorem parse_join {a b : String} {p : Program} (h : parse (Token.tokenize a) = .ok p)
    (closed : ¬Token.EndsInText a) :
    (∀ q, parse (Token.tokenize b) = .ok q → parse (Token.tokenize (a ++ "\n" ++ b)) =
      .ok (p ++ q)) ∧
      ∀ e, parse (Token.tokenize b) = .error e →
        ∃ e', parse (Token.tokenize (a ++ "\n" ++ b)) = .error e' ∧ e'.detail = e.detail ∧
        e'.help = e.help ∧
          e'.line = e.line + Token.lineCount (a ++ "\n") ∧
          e'.token = e.token.shift (Token.lineCount (a ++ "\n")) (a ++ "\n").utf8ByteSize := by
  obtain ⟨newline, line, tokens⟩ := Token.tokenize_join closed b
  obtain ⟨⟨row, last⟩, inner⟩ := (Token.covers_tokenize a).last
  have nonempty : Token.tokenize b ≠ [] := Token.scan_ne_nil 1 0 b.toList
  have joined : parse (Token.tokenize (a ++ "\n" ++ b)) = ((parse (Token.tokenize b)).mapError
      (SyntaxError.shift (Token.lineCount (a ++ "\n")) (a ++ "\n").utf8ByteSize)).map (p ++ ·) := by
    rw [tokens, ← parse_map_shift nonempty]
    rw [← List.dropLast_append_getLast? _ last] at h
    exact parse_append inner rfl line (mt List.map_eq_nil_iff.mp nonempty) h
  constructor
  · intro q hq
    rw [joined, hq]
    rfl
  · intro e he
    refine ⟨e.shift _ _, ?_, e.detail_shift _ _, rfl, rfl, rfl⟩
    rw [joined, he]
    rfl

theorem parse_join_next :
    ∃ p e, parse (Token.tokenize "For i = 1 To 2\nNext") = .ok p ∧
      ¬Token.EndsInText "For i = 1 To 2\nNext" ∧
      parse (Token.tokenize "i = 3\nEnd If") = .error e ∧
      ∃ e', parse (Token.tokenize ("For i = 1 To 2\nNext" ++ "\n" ++ "i = 3\nEnd If")) = .error e' ∧
        e'.detail = e.detail ∧ e'.line = e.line + 2 := by
  have closed : ¬Token.EndsInText "For i = 1 To 2\nNext" := by decide +kernel
  have program : (parse (Token.tokenize "For i = 1 To 2\nNext")).toOption.isSome = true := by
    decide +kernel
  have refused : (parse (Token.tokenize "i = 3\nEnd If")).toOption.isSome = false := by
    decide +kernel
  cases hp : parse (Token.tokenize "For i = 1 To 2\nNext") with
  | error e =>
    rw [hp] at program
    cases program
  | ok p =>
    cases he : parse (Token.tokenize "i = 3\nEnd If") with
    | ok q =>
      rw [he] at refused
      cases refused
    | error e =>
      obtain ⟨e', joined, detail, -, line, -⟩ := (parse_join hp closed).2 e he
      exact ⟨p, e, rfl, closed, rfl, e', joined, detail, line⟩

end MiniBasic
