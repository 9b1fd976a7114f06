import MiniBasic.Proofs.Grammar.Modules

/-!
# Parsers see two tokens

A rule of the grammar looks at the next token and sometimes at the one behind it, and moves past
tokens that do not end the input. So how a run ends is settled by the tokens it has moved past and
by what it sees where it stops, the next token and the one behind it; what lies further on has no
part in it.
-/

namespace MiniBasic

/-- A parser cannot tell the two places apart by what it sees there. Behind the end of the input it
does not look. -/
structure Cursor.SameView (c d : Cursor) : Prop where
  next : d.peek = c.peek
  second : c.peek.Inside → d.peekSecond = c.peekSecond

/-- The second input looks like the first one where a run ends. -/
def Comparison.lookahead : Comparison where
  __ := self Token.Any False
  View := Cursor.SameView
  next := Cursor.SameView.next
  second := Cursor.SameView.second
  rewind h _ := ⟨rfl, fun _ ↦ h.next⟩

def Comparison.Trees.lookahead : Comparison.lookahead.Trees :=
  .same fun _ _ ↦ rfl

/-- A failing run moves past some tokens, and fails in the same way in front of whatever looks the
same behind them. -/
theorem Comparison.Follows.error {α : Type} {k : Nat} {moves : Prop} {R : α → α → Prop}
    {p : Parser α} (hp : lookahead.Follows k Token.Any moves R p p) {c c' : Cursor}
    {complaint : Complaint} (eof : c.eof.kind = .eof) (h : p c = .error complaint c') :
    ∃ passed, c = c'.rewind passed ∧ (∀ t ∈ passed, t.Inside) ∧ complaint.Fits c'.peek ∧
      ∀ d, c'.SameView d → p (d.rewind passed) = .error complaint d := by
  cases hp ⟨eof, fun _ _ _ ↦ trivial⟩ trivial False.elim with
  | ok _ _ _ _ _ left => cases left.symm.trans h
  | error passed split inside fits _ left right =>
    cases left.symm.trans h
    exact ⟨passed, split, inside, fits, fun d view ↦ List.map_id passed ▸ right trivial d view⟩

namespace Parser

variable {α : Type}

/-- The index of the token at which the parser fails; behind the last token, the length of the
list. -/
def errorIndex? (p : Parser α) (tokens : List Token) : Option Nat :=
  match p (.ofTokens tokens) with
  | .ok _ _ => none
  | .error _ c => some (tokens.length - c.rest.length)

theorem exists_of_run_eq_error {p : Parser α} {tokens : List Token} {e : SyntaxError}
    (h : p.run tokens = .error e) :
    ∃ c, p (.ofTokens tokens) = .error e.complaint c ∧ c.peek = e.token := by
  unfold run at h
  split at h
  next => cases h
  next complaint c hr =>
    cases h
    exact ⟨c, hr, rfl⟩

theorem errorIndex?_of_error {p : Parser α} {tokens : List Token} {complaint : Complaint}
    {c : Cursor} (h : p (.ofTokens tokens) = .error complaint c) :
    p.errorIndex? tokens = some (tokens.length - c.rest.length) := by
  rw [errorIndex?, h]

end Parser

/-- The index of the token at which no program can go on. -/
def parseErrorIndex? (tokens : List Token) : Option Nat :=
  (Parser.program (Parser.nestingBound tokens)).errorIndex? tokens

/-- The bound on nesting that is taken for a token list has no effect, as long as it is large
enough. -/
theorem Parser.program_nestingBound {ts : List Token} {fuel : Nat} (h : nestingBound ts ≤ fuel) :
    program (nestingBound ts) (.ofTokens ts) = program fuel (.ofTokens ts) := by
  unfold nestingBound at h
  apply block_eq_of_bound (Cursor.kind_eof_ofTokens ts) <;> simp only [Cursor.ofTokens,
    nestingBound] <;> omega

/-- A token list that starts like another one is that one up to the second token behind the
cursor. -/
theorem Cursor.ofTokens_eq_rewind {passed rest us : List Token} {t u : Token}
    (same : (passed ++ t :: u :: rest).take (passed.length + 2) = us.take (passed.length + 2)) :
    Cursor.ofTokens us = rewind passed ⟨t :: u :: us.drop (passed.length + 2),
      (Cursor.ofTokens us).eof⟩ := by
  have front : us.take (passed.length + 2) = passed ++ [t, u] := by
    rw [← same, List.take_length_add_append]
    rfl
  have tokens : us = passed ++ t :: u :: us.drop (passed.length + 2) := by
    calc
      us = us.take (passed.length + 2) ++ us.drop (passed.length + 2) :=
        (List.take_append_drop _ _).symm
      _ = passed ++ t :: u :: us.drop (passed.length + 2) := by rw [front, List.append_assoc]; rfl
  exact congrArg (Cursor.mk · (Cursor.ofTokens us).eof) tokens

/-- What lies beyond the token behind an error has no part in it: if a token list is refused at
index `k`, every token list that has the same tokens up to index `k + 1` is refused at that index,
with the same error. -/
theorem parse_error_of_take_eq {ts us : List Token} {e : SyntaxError} {k : Nat}
    (refused : parse ts = .error e) (index : parseErrorIndex? ts = some k) (hts : k + 2 ≤ ts.length)
    (hus : k + 2 ≤ us.length) (same : ts.take (k + 2) = us.take (k + 2)) :
    ts[k]? = some e.token ∧ parse us = .error e ∧ parseErrorIndex? us = some k := by
  -- one bound for both lists
  let fuel := max (Parser.nestingBound ts) (Parser.nestingBound us)
  have left :=
    Parser.program_nestingBound (le_max_left (Parser.nestingBound ts) (Parser.nestingBound us))
  have right :=
    Parser.program_nestingBound (le_max_right (Parser.nestingBound ts) (Parser.nestingBound us))
  obtain ⟨c, failed, token⟩ := Parser.exists_of_run_eq_error refused
  change Parser.program (Parser.nestingBound ts) (.ofTokens ts) = _ at failed
  rw [parseErrorIndex?, Parser.errorIndex?_of_error failed, Option.some.injEq] at index
  rw [left] at failed
  obtain ⟨passed, split, -, -, run⟩ :=
    (Comparison.follows_program .lookahead trivial (.same fuel)).error (Cursor.kind_eof_ofTokens ts)
      failed
  have tokens : ts = passed ++ c.rest := congrArg Cursor.rest split
  obtain rfl : passed.length = k := by
    rw [← index, tokens, List.length_append]
    omega
  rcases c with ⟨_ | ⟨t, _ | ⟨u, rest⟩⟩, stop⟩
  · rw [tokens, List.append_nil] at hts
    omega
  · rw [tokens, List.length_append, List.length_singleton] at hts
    omega
  let d : Cursor := ⟨t :: u :: us.drop (passed.length + 2), (Cursor.ofTokens us).eof⟩
  have failed' : Parser.program (Parser.nestingBound us) (.ofTokens us) = .error e.complaint d := by
    rw [tokens] at same
    rw [right, Cursor.ofTokens_eq_rewind same]
    exact run d ⟨rfl, fun _ ↦ rfl⟩
  refine ⟨?_, ?_, ?_⟩
  · rw [tokens, List.getElem?_append_right (Nat.le_refl _), Nat.sub_self, ← token]
    rfl
  · exact (Parser.run_of_error failed').trans
      (congrArg (Except.error <| SyntaxError.mk e.complaint ·) token)
  · rw [parseErrorIndex?, Parser.errorIndex?_of_error failed', Option.some.injEq]
    change us.length - (us.drop (passed.length + 2)).length.succ.succ = passed.length
    rw [List.length_drop]
    omega

/-- Behind the second `=` the lists differ in all but the next token. -/
theorem parse_error_of_take_eq_repeated :
    ∃ e, parse (Token.tokenize "x = = 1 \"a") = .error e ∧
      parse (Token.tokenize "x = = 1\nEnd If") = .error e := by
  have same :
      (Token.tokenize "x = = 1 \"a").take 4 = (Token.tokenize "x = = 1\nEnd If").take 4 := by
        decide +kernel
  have index : parseErrorIndex? (Token.tokenize "x = = 1 \"a") = some 2 := by decide +kernel
  have refused : (parse (Token.tokenize "x = = 1 \"a")).toOption.isSome = false := by decide +kernel
  cases h : parse (Token.tokenize "x = = 1 \"a") with
  | ok p =>
    rw [h] at refused
    cases refused
  | error e =>
    exact ⟨e, rfl,
      (parse_error_of_take_eq h index (by decide +kernel) (by decide +kernel) same).2.1⟩

end MiniBasic
