import MiniBasic.Proofs.Print.Yield

/-!
# What closes an `If`

Behind an `If` or `ElseIf` whose line ends with `Then` stand blocks, and the blocks of the whole
chain end with one `End If`. But an `ElseIf` of the chain may have its statements on its own line,
and then no `End If` is asked for, for the whole chain. So a chain is closed by `End If`, unless its
last branch is such a line with no `End If` on it.
-/

namespace MiniBasic

namespace Cursor

/-- The line ends here. -/
def AtLineEnd (c : Cursor) : Prop :=
  c.peek.kind = .newline ∨ c.peek.kind = .eof

def AtEndIf (c : Cursor) : Prop :=
  c.peek.kind = .keyword .endKw ∧ c.peekSecond.kind = .keyword .ifKw

/-- The last two tokens between the two places are `End If`. -/
def ClosedByEndIf (c c' : Cursor) : Prop :=
  ∃ before closing opening, c.rest = before ++ closing :: opening :: c'.rest ∧
    closing.kind = .keyword .endKw ∧ opening.kind = .keyword .ifKw

/-- What is behind the first place may be put before the first place. -/
theorem ClosedByEndIf.of_along {c d c' : Cursor} (h : d.ClosedByEndIf c') (along : d.Along c) :
    c.ClosedByEndIf c' := by
  obtain ⟨before, closing, opening, rest, hclosing, hopening⟩ := h
  obtain ⟨skipped, hskipped⟩ := along.rest
  refine ⟨skipped ++ before, closing, opening, ?_, hclosing, hopening⟩
  rw [← hskipped, rest, List.append_assoc]

theorem AtEndIf.closed {c : Cursor} (eof : c.eof.kind = .eof) (h : c.AtEndIf) :
    c.ClosedByEndIf c.advance.advance := by
  obtain ⟨closing, opening⟩ := h
  have first : c.rest = c.peek :: c.advance.rest := rest_eq_cons eof (by rw [closing]; decide)
  have second : c.advance.rest = c.advance.peek :: c.advance.advance.rest :=
    rest_eq_cons eof (by change c.peekSecond.kind ≠ _; rw [opening]; decide)
  exact ⟨[], c.peek, c.advance.peek, by rw [first, second]; rfl, closing, opening⟩

end Cursor

namespace Parser

/-- The condition behind `If` or `ElseIf` and the `Then` behind it. -/
def heading (expr : Parser Expr) : Parser Expr := do
  advance
  let condition ← expr
  expectKeyword .thenKw .thenAfterCondition
  return condition

/-- The statements on the line of a `Then`, with those behind an `Else` on it. -/
def inlineBranches (stmt : Parser Stmt) (fuel : Nat) : Parser (List Stmt × Option (List Stmt)) := do
  let body ← inlineBlock stmt fuel
  let otherwise ← optionally (.keyword .elseKw) (inlineBlock stmt fuel)
  return (body, otherwise)

/-- The last branch of the chain from the first place to the second stands on one line, with no `End
If` behind it. -/
inductive LeftOpen (expr : Parser Expr) (stmt : Parser Stmt) : Nat → Cursor → Cursor → Prop
  | here {fuel : Nat} {c d c' : Cursor} {condition : Expr}
    {branches : List Stmt × Option (List Stmt)} (head : heading expr c = .ok condition d)
    (goesOn : ¬d.AtLineEnd) (line : inlineBranches stmt fuel d = .ok branches c')
    (missing : ¬c'.AtEndIf) :
    LeftOpen expr stmt (fuel + 1) c c'
  | later {fuel : Nat} {c d e c' : Cursor} {condition : Expr} {body : List Stmt}
    (head : heading expr c = .ok condition d) (ends : d.AtLineEnd)
    (lines : block stmt [.endKw, .elseKw, .elseIfKw] fuel d = .ok body e)
    (elseIf : e.peek.kind = .keyword .elseIfKw) (more : LeftOpen expr stmt fuel e c') :
    LeftOpen expr stmt (fuel + 1) c c'

theorem expectKeyword_cases {k : Keyword} {what : Expected} {c c' : Cursor} {u : Unit}
    (h : expectKeyword k what c = .ok u c') : c.peek.kind = .keyword k ∧ c' = c.advance := by
  obtain ⟨t, d, ht, h⟩ := exists_of_bind_eq_ok h
  cases h
  exact expect_cases ht

theorem expectEnd_cases {c c' : Cursor} {u : Unit} (h : expectEnd .ifKw c = .ok u c') :
    c.AtEndIf ∧ c' = c.advance.advance := by
  obtain ⟨_, d, first, second⟩ := exists_of_bind_eq_ok h
  obtain ⟨closing, rfl⟩ := expectKeyword_cases first
  obtain ⟨opening, rfl⟩ := expectKeyword_cases second
  exact ⟨⟨closing, opening⟩, rfl⟩

theorem skipEndIf_cases {c c' : Cursor} {u : Unit} (h : skipEndIf c = .ok u c') :
    c.AtEndIf ∧ c' = c.advance.advance ∨ ¬c.AtEndIf ∧ c' = c := by
  rw [skipEndIf_eq] at h
  change (if _ ∧ _ then _ else _ : Parser Unit) c = _ at h
  by_cases here : c.peek.kind = .keyword .endKw ∧ c.peekSecond.kind = .keyword .ifKw
  · rw [if_pos here] at h
    cases h
    exact .inl ⟨here, rfl⟩
  · rw [if_neg here] at h
    cases h
    exact .inr ⟨here, rfl⟩

theorem exists_of_run' {α : Type} {p : Parser α} {c c' : Cursor} (h : (p *> get).run' c = some c') :
    ∃ a, p c = .ok a c' := by
  cases hp : p c with
  | ok a d =>
    have same : (p *> get).run' c = some d := by
      unfold EStateM.run' EStateM.run
      rw [seqRight_eq_bind, bind_ok hp]
      rfl
    rw [same] at h
    cases h
    exact ⟨a, rfl⟩
  | error e d =>
    unfold EStateM.run' EStateM.run at h
    rw [seqRight_eq_bind, bind_error hp] at h
    cases h

section

variable {expr : Parser Expr} {stmt : Parser Stmt} {fuel : Nat} {c c' : Cursor}

/-- The ways through one branch. -/
theorem conditional_cases {r : Expr × List Stmt × Alternative}
    (h : conditional expr stmt (fuel + 1) c = .ok r c') :
    ∃ condition d, heading expr c = .ok condition d ∧
      (d.AtLineEnd ∧ (∃ body e, block stmt [.endKw, .elseKw, .elseIfKw] fuel d = .ok body e ∧
          (e.peek.kind = .keyword .elseIfKw ∧ (∃ r', conditional expr stmt fuel e = .ok r' c') ∨
            expectEnd .ifKw e = .ok () c' ∨
            ∃ otherwise f, block stmt [.endKw] fuel e.advance = .ok otherwise f ∧
            expectEnd .ifKw f = .ok () c')) ∨
        ¬d.AtLineEnd ∧ ∃ branches e, inlineBranches stmt fuel d = .ok branches e ∧
        skipEndIf e = .ok () c') := by
  obtain ⟨_, c₁, advanced, h⟩ := exists_of_bind_eq_ok h
  obtain ⟨condition, c₂, hexpr, h⟩ := exists_of_bind_eq_ok h
  obtain ⟨_, d, hthen, h⟩ := exists_of_bind_eq_ok h
  have head : heading expr c = .ok condition d := by
    rw [heading, bind_ok advanced, bind_ok hexpr, bind_ok hthen]
    rfl
  refine ⟨condition, d, head, ?_⟩
  rw [peekKind_bind] at h
  by_cases ends : d.peek.kind = .newline ∨ d.peek.kind = .eof
  · rw [if_pos ends] at h
    obtain ⟨body, e, hbody, h⟩ := exists_of_bind_eq_ok h
    refine .inl ⟨ends, body, e, hbody, ?_⟩
    rw [peekKind_bind] at h
    revert h
    generalize hkind : e.peek.kind = kind
    split
    · intro h
      obtain ⟨r', f, hnext, h⟩ := exists_of_bind_eq_ok h
      cases h
      exact .inl ⟨rfl, r', hnext⟩
    · intro h
      obtain ⟨_, f, advanced, h⟩ := exists_of_bind_eq_ok h
      cases advanced
      obtain ⟨otherwise, f, hblock, h⟩ := exists_of_bind_eq_ok h
      obtain ⟨_, g, hend, h⟩ := exists_of_bind_eq_ok h
      cases h
      exact .inr (.inr ⟨otherwise, f, hblock, hend⟩)
    · intro h
      obtain ⟨_, g, hend, h⟩ := exists_of_bind_eq_ok h
      cases h
      exact .inr (.inl hend)
  · rw [if_neg ends] at h
    obtain ⟨body, e, hbody, h⟩ := exists_of_bind_eq_ok h
    obtain ⟨otherwise, f, hotherwise, h⟩ := exists_of_bind_eq_ok h
    obtain ⟨_, g, hskip, h⟩ := exists_of_bind_eq_ok h
    have line : inlineBranches stmt fuel d = .ok (body, otherwise) f := by
      rw [inlineBranches, bind_ok hbody, bind_ok hotherwise]
      rfl
    refine .inr ⟨ends, (body, otherwise), f, line, ?_⟩
    cases otherwise with
    | none =>
      cases h
      exact hskip
    | some statements =>
      cases h
      exact hskip

end

section Along

open Comparison

theorem follows_statement_self (n k : Nat) :
    (Comparison.self Token.Any False).Follows k Token.Any True Eq (statement n) (statement n) :=
  (follows_statement (.self Token.Any False) (.same n)).unbounded id

variable {n fuel : Nat} {c c' : Cursor} (eof : c.eof.kind = .eof)

include eof

theorem heading_along {condition : Expr} (h : heading (expression n 1) c = .ok condition c') :
    c'.Along c := by
  obtain ⟨_, d, ⟨⟩, h⟩ := exists_of_bind_eq_ok h
  have follows := (follows_expression (.self Token.Any False) (.same n) 1).bind fun a b same ↦
    (Follows.expectKeyword .thenKw .thenAfterCondition).bind fun _ _ _ ↦ .pure same
  exact (follows.along_self (c := c.advance) eof h).trans c.advance_along

theorem lines_along {closing : List Keyword} {body : List Stmt}
    (h : block (statement n) closing fuel c = .ok body c') : c'.Along c := by
  have stmt := follows_statement_self n fuel
  exact (follows_block (.self _ _) stmt (.same fuel) trivial closing).along_self eof h

theorem inlineBranches_along {branches : List Stmt × Option (List Stmt)}
    (h : inlineBranches (statement n) fuel c = .ok branches c') : c'.Along c := by
  have stmt := follows_statement_self n fuel
  have inline := follows_inlineBlock (P := Token.Any) (.self _ _) stmt (.same fuel)
  have follows := inline.bind fun a b _ ↦
    (Follows.optionally (.keyword .elseKw) inline).bind fun a' b' _ ↦
      .pure (a := (a, a')) (b := (b, b')) (R := fun _ _ ↦ True) trivial
  exact follows.along_self eof h

/-- A chain is closed by `End If`, or its last branch stands on one line with no `End If`. -/
theorem closed_or_leftOpen {r : Expr × List Stmt × Alternative}
    (h : conditional (expression n 1) (statement n) fuel c = .ok r c') :
    c.ClosedByEndIf c' ∨ LeftOpen (expression n 1) (statement n) fuel c c' := by
  induction fuel generalizing c r with
  | zero => cases h
  | succ fuel ih =>
    obtain ⟨condition, d, head, inBlocks | onLine⟩ := conditional_cases h
    · obtain ⟨ends, body, e, lines, ways⟩ := inBlocks
      have behind := heading_along eof head
      have along := (lines_along (behind.eof ▸ eof) lines).trans behind
      have eof' : e.eof.kind = .eof := along.eof ▸ eof
      rcases ways with ⟨elseIf, r', next⟩ | final | ⟨otherwise, f, more, final⟩
      · rcases ih eof' next with closed | left
        · exact .inl (closed.of_along along)
        · exact .inr (.later head ends lines elseIf left)
      · obtain ⟨closing, rfl⟩ := expectEnd_cases final
        exact .inl ((closing.closed eof').of_along along)
      · have behind := ((lines_along (c := e.advance) eof' more).trans e.advance_along).trans along
        obtain ⟨closing, rfl⟩ := expectEnd_cases final
        exact .inl ((closing.closed (behind.eof ▸ eof)).of_along behind)
    · obtain ⟨goesOn, branches, e, line, skip⟩ := onLine
      have behind := heading_along eof head
      have along := (inlineBranches_along (behind.eof ▸ eof) line).trans behind
      rcases skipEndIf_cases skip with ⟨closing, rfl⟩ | ⟨missing, rfl⟩
      · exact .inl ((closing.closed (along.eof ▸ eof)).of_along along)
      · exact .inr (.here head goesOn line missing)

end Along

/-- Wherever it stands in a text, an `If` that is read to its end is closed by `End If`, or the last
branch of its chain stands on one line with no `End If`. -/
theorem conditional_closed_or_leftOpen {tokens : List Token} {c c' : Cursor}
    (place : c.Along (.ofTokens tokens)) {fuel : Nat} {r : Expr × List Stmt × Alternative}
    (h : conditional (expression fuel 1) (statement fuel) fuel c = .ok r c') :
    c.ClosedByEndIf c' ∨ LeftOpen (expression fuel 1) (statement fuel) fuel c c' := by
  have eof : c.eof.kind = .eof := by
    rw [place.eof]
    exact Cursor.kind_eof_ofTokens tokens
  exact closed_or_leftOpen eof h

/-- A chain of three branches, with another `If` in the first one. -/
theorem conditional_closed_or_leftOpen_nested :
    let start :=
      Cursor.ofTokens
        (Token.tokenize "If a Then\nIf b Then x = 1\nElseIf c Then\nElse y = 2\nEnd If\n")
    ∃ r, conditional (expression 40 1) (statement 40) 40 start =
      .ok r ⟨start.rest.drop 22, start.eof⟩ ∧
      (start.ClosedByEndIf ⟨start.rest.drop 22, start.eof⟩ ∨
        LeftOpen (expression 40 1) (statement 40) 40 start ⟨start.rest.drop 22, start.eof⟩) := by
  intro start
  obtain ⟨r, h⟩ : ∃ r, conditional (expression 40 1) (statement 40) 40 start =
      .ok r ⟨start.rest.drop 22, start.eof⟩ :=
    exists_of_run' (by decide +kernel)
  exact ⟨r, h, conditional_closed_or_leftOpen (.refl _) h⟩

/-- The `If` ends its line with `Then`, the `ElseIf` does not, and no `End If` is asked for. -/
theorem elseIf_line_left_open :
    let start := Cursor.ofTokens (Token.tokenize "If a Then\nElseIf b Then x = 1\n")
    (∃ condition, heading (expression 40 1) start = .ok condition ⟨start.rest.drop 3, start.eof⟩) ∧
      (Cursor.mk (start.rest.drop 3) start.eof).peek.kind = .newline ∧
      (∃ r, conditional (expression 40 1) (statement 40) 40 start =
        .ok r ⟨start.rest.drop 10, start.eof⟩) ∧
      ¬start.ClosedByEndIf ⟨start.rest.drop 10, start.eof⟩ := by
  intro start
  refine ⟨exists_of_run' (by decide +kernel),
    by decide +kernel, exists_of_run' (by decide +kernel), ?_⟩
  rintro ⟨before, closing, opening, rest, hclosing, -⟩
  have noEnd : ∀ t ∈ start.rest, t.kind ≠ .keyword .endKw := by decide +kernel
  refine noEnd closing ?_ hclosing
  rw [rest]
  exact List.mem_append_right _ List.mem_cons_self

end Parser

end MiniBasic
