import MiniBasic.Proofs.Grammar.InPlace
import MiniBasic.Proofs.Print.RoundTrip

/-!
# Calls with and without parentheses

A call statement is written `Call F(a, b)` or `F a, b`, with any tokens for the arguments that are
accepted as expressions. In the second form the name is read with the suffixes behind it, so an
opening parenthesis behind the name belongs to the name first. If it is the whole first argument,
the parenthesis is taken for that argument after all, and the two forms are the same statement. A
name with suffixes in front of `=` is what is assigned to: `F (x) = 1` is an assignment, and no call
with the argument `(x) = 1`.
-/

namespace MiniBasic.Parser

open Token (keyword symbol)

variable {expr : Parser Expr} {G : Kind → Bool} {f : Token} {n : Nat}

/-- One expression in parentheses, and nothing else: the parenthesis that the tokens begin with is
closed by the last of them. -/
def Grouped (ts : List Token) : Prop :=
  let start := Cursor.ofTokens ts
  start.peek.kind = .symbol .leftParen ∧ ∃ e closing, closing.kind = .symbol .rightParen ∧
    expression (ts.length + 1) 1 start.advance = .ok e ⟨[closing], start.eof⟩

/-! ## Arguments -/

theorem not_endsCall {kind : Kind} (h : opensExpr kind = true) : endsCall kind = false := by
  unfold endsCall
  split
  case h_9 => rfl
  all_goals cases h

theorem endsExpr_of_endsCall {kind : Kind} (h : endsCall kind = true) : endsExpr kind = true := by
  unfold endsCall at h
  split at h
  case h_9 => cases h
  all_goals rfl

/-- Arguments without parentheses around them. -/
theorem reads_bareArguments {args : List (List Token × Expr)} (nonempty : args ≠ [])
    (h : ∀ a ∈ args, Spells a.1 a.2) (length : (commas (args.map Prod.fst)).length < n) :
    Reads endsCall (commaList (expression n 1) n) (commas (args.map Prod.fst))
      (args.map Prod.snd) := by
  have pos (a : List Token × Expr) (ha : a ∈ args) : 0 < a.1.length :=
    List.length_pos_iff.mpr (h a ha).ne_nil
  have each (a : List Token × Expr) (ha : a ∈ args) : Reads endsExpr (expression n 1) a.1 a.2 :=
    (h a ha).reads ((length_tokens_le_commas ha).trans_lt length)
  refine reads_commaList_map nonempty each rfl (fun kind hkind ↦ ?_)
    ((length_le_commas pos).trans length.le)
  exact ⟨endsExpr_of_endsCall hkind, ne_of_true_of_false hkind rfl⟩

/-- Arguments behind an opening parenthesis, and the closing one. -/
theorem reads_spelledArguments {args : List (List Token × Expr)} (h : ∀ a ∈ args, Spells a.1 a.2)
    (length : (commas (args.map Prod.fst)).length < n) {m : Nat}
    (hm : (commas (args.map Prod.fst)).length ≤ m) :
    Reads G (arguments (expression n 1) m) (commas (args.map Prod.fst) ++ [symbol .rightParen])
      (args.map Prod.snd) := by
  refine reads_listed_map (fun a ha ↦ (h a ha).reads ((length_tokens_le_commas ha).trans_lt length))
    rfl rfl (fun a ha next ↦ ?_) hm
  exact ne_of_true_of_false ((h a ha).opens next) rfl

theorem commas_cons_cons (first second : List Token) (rest : List (List Token)) :
    commas (first :: second :: rest) = first ++ symbol .comma :: commas (second :: rest) := by
  rw [commas, List.intercalate_cons_cons]
  simp [commas]

/-! ## The name -/

theorem reads_primary_identifier (hf : f.kind = .identifier) :
    Reads G (primary expr) [f] (.name f.text) := by
  refine .peek ?_
  rw [hf]
  exact .advance f (.pure _)

theorem reads_name (hf : f.kind = .identifier) (m : Nat) :
    Reads endsChain (chain expr (m + 1)) [f] (.name f.text) :=
  (reads_primary_identifier hf).bind_nil (reads_suffixes_nil expr m _) fun _ ↦ id

/-! ## A parenthesis -/

section Parenthesis

variable {opening closing stop : Token} {us : List Token} {e : Expr}

/-- What stands in the parenthesis is the expression that the tokens are accepted as. -/
theorem Spells.parenthesis (h : Spells (opening :: us) e) (grouped : Grouped (opening :: us)) :
    ∃ closing, closing.kind = .symbol .rightParen ∧
      expression (us.length + 2) 1 ⟨us, (Cursor.ofTokens (opening :: us)).eof⟩ =
        .ok e ⟨[closing], (Cursor.ofTokens (opening :: us)).eof⟩ := by
  obtain ⟨hopening, e', closing, hclosing, inner⟩ := grouped
  change expression (us.length + 2) 1 ⟨us, (Cursor.ofTokens (opening :: us)).eof⟩ = _ at inner
  have hstop := Cursor.kind_eof_ofTokens (opening :: us)
  have run := h.run
  change expression (us.length + 2 + 1) 1 ⟨opening :: us, (Cursor.ofTokens (opening :: us)).eof⟩ = _
    at run
  generalize (Cursor.ofTokens (opening :: us)).eof = stop at hopening hstop run inner ⊢
  change opening.kind = _ at hopening
  have ends : endsExpr (Cursor.mk [] stop).peek.kind = true := by
    change endsExpr stop.kind = true
    rw [hstop]
    rfl
  have close : expectSymbol .rightParen .closeExpression ⟨[closing], stop⟩ = .ok () ⟨[], stop⟩ :=
    (Reads.expect hclosing _).discard rfl
  have group : primary (expression (us.length + 2) 1) ⟨opening :: us, stop⟩ =
      .ok e' ⟨[], stop⟩ := by
    rw [primary, peek_bind, show (Cursor.mk (opening :: us) stop).peek.kind = _ from hopening]
    change (expression (us.length + 2) 1 >>= _) ⟨us, stop⟩ = _
    rw [bind_ok inner, bind_ok close]
    rfl
  have whole : operand (expression (us.length + 2)) (us.length + 2) 1 ⟨opening :: us, stop⟩ =
      .ok e' ⟨[], stop⟩ := by
    rw [operand, peekKind_bind,
      show (Cursor.mk (opening :: us) stop).peek.kind = _ from hopening]
    change (primary _ >>= _) _ = _
    rw [bind_ok group]
    exact reads_suffixes_nil _ (us.length + 1) e' (endsChain_of_endsExpr ends)
  have noOperator := reads_operators_nil (expression (us.length + 2)) 1 (us.length + 1) e'
    (endsAt_of_endsExpr ends 1)
  rw [expression, bind_ok whole] at run
  cases noOperator.symm.trans run
  exact ⟨closing, hclosing, inner⟩

/-- The name with a parenthesis behind it is read as a call with one argument. -/
theorem reads_name_grouped (hf : f.kind = .identifier) {ts : List Token} (h : Spells ts e)
    (grouped : Grouped ts) {m : Nat} (length : ts.length < m + 2) :
    Reads endsChain (chain (expression (m + 2) 1) (m + 2)) (f :: ts)
      (.call (.name f.text) [e]) := by
  cases ts with
  | nil => exact absurd rfl h.ne_nil
  | cons opening us =>
    have hopening : opening.kind = .symbol .leftParen := grouped.1
    obtain ⟨closing, hclosing, run⟩ := h.parenthesis grouped
    have argument : Reads (fun _ ↦ true) (arguments (expression (m + 2) 1) (m + 1)) us [e] := by
      intro k eof _
      have inPlace := expression_inPlace (d := ⟨k, eof⟩)
        (Cursor.kind_eof_ofTokens (opening :: us)) run (Nat.lt_of_succ_lt length)
        (Nat.lt_add_of_pos_right Nat.two_pos) fun none ↦ (by cases none)
      have opens := opensExpr_of_expression inPlace
      have last : (Cursor.mk (closing :: k) eof).peek.kind ≠ .symbol .comma := by
        change closing.kind ≠ _
        rw [hclosing]
        decide
      have close : expectSymbol .rightParen .closeArguments ⟨closing :: k, eof⟩ = .ok () ⟨k, eof⟩ :=
        (Reads.expect hclosing _).discard rfl
      have item : commaList (expression (m + 2) 1) (m + 1) ⟨us ++ k, eof⟩ =
          .ok [e] ⟨closing :: k, eof⟩ := by
        rw [commaList, bind_ok inPlace, acceptSymbol]
        exact bind_ok (accept_false last)
      rw [arguments, acceptSymbol, bind_ok (accept_false (ne_of_true_of_false opens rfl))]
      change (commaList _ _ >>= _) _ = _
      rw [bind_ok item, bind_ok close]
      rfl
    refine (reads_primary_identifier (G := fun _ ↦ true) hf).bind ?_ fun _ _ ↦ rfl
    refine .refuse (fun _ _ hk ↦ ?_) (.accept hopening ?_)
    · cases hopening.symm.trans hk
    · exact argument.bind_nil (reads_suffixes_nil _ m _) fun _ _ ↦ rfl

end Parenthesis

/-! ## What is assigned to -/

/-- Operators leave an expression as it is or make it their operand. -/
theorem operators_cases {sub : Nat → Parser Expr} {level fuel : Nat} {left e : Expr} {c c' : Cursor}
    (h : operators sub level fuel left c = .ok e c') :
    e = left ∧ c' = c ∨ ∃ op l r, e = .binary op l r := by
  induction fuel generalizing left c with
  | zero => cases h
  | succ fuel ih =>
    rw [operators, peekKind_bind] at h
    cases hop : BinaryOp.ofKind? c.peek.kind with
    | none =>
      rw [hop] at h
      cases h
      exact .inl ⟨rfl, rfl⟩
    | some op =>
      rw [hop] at h
      dsimp only at h
      split at h
      · cases h
        exact .inl ⟨rfl, rfl⟩
      · obtain ⟨_, c₁, -, h⟩ := exists_of_bind_eq_ok h
        obtain ⟨right, c₂, -, h⟩ := exists_of_bind_eq_ok h
        rcases ih h with ⟨rfl, -⟩ | binary
        · exact .inr ⟨op, left, right, rfl⟩
        · exact .inr binary

section Target

variable {us : List Token} {e : Expr} (hf : f.kind = .identifier) (h : Spells (f :: us) e)
  (operand : ∀ op l r, e ≠ .binary op l r)

include hf h operand

/-- An accepted expression that begins with a name and has no operator is a name with suffixes. -/
theorem Spells.chain :
    chain (expression (us.length + 2) 1) (us.length + 2)
        ⟨f :: us, (Cursor.ofTokens (f :: us)).eof⟩ =
      .ok e ⟨[], (Cursor.ofTokens (f :: us)).eof⟩ := by
  have run := h.run
  change expression (us.length + 2 + 1) 1 ⟨f :: us, _⟩ = _ at run
  obtain ⟨left, c, first, behind⟩ := exists_of_bind_eq_ok run
  rw [Parser.operand, peekKind_bind, show (Cursor.mk (f :: us) _).peek.kind = _ from hf] at first
  rcases operators_cases behind with ⟨rfl, rfl⟩ | ⟨op, l, r, binary⟩
  · exact first
  · exact absurd binary (operand op l r)

/-- It is read where it stands, also in front of an operator. -/
theorem Spells.reads_chain (length : us.length < n) :
    Reads endsChain (Parser.chain (expression n 1) n) (f :: us) e := by
  intro k eof hk
  exact chain_inPlace (d := ⟨k, eof⟩) (Cursor.kind_eof_ofTokens (f :: us)) (h.chain hf operand)
    length (Nat.le_succ _) fun _ ↦ hk

theorem Spells.not_label {next : Kind} (hnext : next ≠ .symbol .colon) :
    firstKind us next ≠ .symbol .colon := by
  cases us with
  | nil => exact hnext
  | cons t us =>
    intro (colon : t.kind = .symbol .colon)
    have ends (eof : Token) : endsChain (Cursor.mk (t :: us) eof).peek.kind = true := by
      change endsChain t.kind = true
      rw [colon]
      rfl
    -- a colon behind the name would end it
    have name : Parser.chain (expression (us.length + 3) 1) (us.length + 3) _ = _ :=
      reads_name hf (us.length + 2) (ends (Cursor.ofTokens (f :: t :: us)).eof)
    have whole := h.chain hf operand
    rw [List.length_cons] at whole
    rw [show [f] ++ t :: us = f :: t :: us from rfl, whole] at name
    cases name

end Target

/-! ## Statements -/

theorem openCall?_eq_none {e : Expr} {kind : Kind} (h : kind ≠ .symbol .comma) :
    openCall? e kind = none := by
  unfold openCall?
  split
  · exact absurd rfl h
  · rfl

section

variable {m : Nat} {us : List Token} {es : List Expr}

/-- Arguments behind the name that do not open a parenthesis. -/
theorem reads_bareCall (hf : f.kind = .identifier)
    (h : Reads endsCall (commaList expr (m + 1)) us es)
    (opens : ∀ next, opensExpr (firstKind us next) = true)
    (plain : ∀ next, firstKind us next ≠ .symbol .leftParen) :
    Reads endsCall (assignmentOrCall expr (m + 1)) (f :: us) (.call (.call (.name f.text) es)) := by
  refine (reads_name hf m).bind
    (.refuse (fun next _ ↦ ?_) (.peekKind fun next _ ↦ ?_)) fun next _ ↦ ?_
  · exact ne_of_true_of_false (opens next) rfl
  · change Reads endsCall (if endsCall _ = true then _ else _) _ _
    rw [if_neg (Bool.eq_false_iff.mp (not_endsCall (opens next)))]
    exact h.map
  · exact endsChain_of_ne (ne_of_true_of_false (opens next) rfl) (plain next)

variable {ts : List Token} {e : Expr}

/-- One argument behind the name, in a parenthesis. -/
theorem reads_groupedCall
    (h : Reads endsChain (chain expr n) (f :: ts) (.call (.name f.text) [e])) :
    Reads endsCall (assignmentOrCall expr n) (f :: ts) (.call (.call (.name f.text) [e])) := by
  refine h.bind_nil
    (.refuse (fun next hnext ↦ ?_) (.peekKind fun next hnext ↦ ?_)) fun next hnext ↦ ?_
  · exact ne_of_true_of_false hnext rfl
  · simp only [openCall?_eq_none
      (show firstKind [] next ≠ .symbol .comma from ne_of_true_of_false hnext rfl)]
    rw [if_pos (show endsCall (firstKind [] next) = true from hnext)]
    exact .pure _
  · exact endsChain_of_endsExpr (endsExpr_of_endsCall hnext)

/-- Several arguments behind the name, the first one in a parenthesis. -/
theorem reads_groupedCall_cons
    (h : Reads endsChain (chain expr n) (f :: ts) (.call (.name f.text) [e]))
    (more : Reads endsCall (commaList expr n) us es) :
    Reads endsCall (assignmentOrCall expr n) (f :: ts ++ symbol .comma :: us)
      (.call (.call (.name f.text) (e :: es))) := by
  have notEq : Kind.symbol .comma ≠ .symbol .eq := by decide
  refine h.bind (.refuse (fun _ _ ↦ notEq) (.peekKind fun _ _ ↦ ?_)) fun _ _ ↦ rfl
  exact .advance _ more.map

/-- With `Call`, and parentheses around the arguments. -/
theorem reads_keywordCall {call : Token} (hcall : call.kind = .keyword .callKw)
    (hf : f.kind = .identifier)
    (h : Reads (fun _ ↦ true) (arguments (expression (m + 2) 1) (m + 1))
      (us ++ [symbol .rightParen]) es) :
    Reads endsCall (statement (m + 3)) (call :: f :: parens us)
      (.call (.call (.name f.text) es)) := by
  have suffix : Reads endsChain (suffixes (expression (m + 2) 1) (m + 2) (.name f.text)) (parens us)
      (.call (.name f.text) es) := by
    intro k eof hk
    rw [suffixes_call h]
    exact reads_suffixes_nil _ m _ hk
  have callee : Reads endsChain (chain (expression (m + 2) 1) (m + 2)) (f :: parens us)
      (.call (.name f.text) es) :=
    (reads_primary_identifier (G := fun _ ↦ true) hf).bind suffix fun _ _ ↦ rfl
  refine .peek ?_
  rw [hcall]
  exact .advance _ (callee.map.mono fun _ h ↦ endsChain_of_endsExpr (endsExpr_of_endsCall h))

end

/-- A name that opens no label starts an assignment or a call. -/
theorem reads_statement_name (hf : f.kind = .identifier) {us : List Token} {s : Stmt}
    (h : Reads endsCall (assignmentOrCall (expression n 1) n) (f :: us) s)
    (notLabel : ∀ next, endsCall next = true → firstKind us next ≠ .symbol .colon) :
    Reads endsCall (statement (n + 1)) (f :: us) s := by
  refine .peek ?_
  rw [hf]
  refine .secondKind fun next hnext ↦ ?_
  rw [if_neg (notLabel next hnext)]
  exact h

/-! ## Both forms -/

/-- A block of one statement, up to the end of the input. -/
theorem reads_block_single {stmt : Parser Stmt} {ts : List Token} {s : Stmt}
    (h : Reads endsCall stmt ts s) (start : ∀ next, startsStmt (firstKind ts next) = true)
    (n : Nat) :
    Reads (endsBlock []) (block stmt [] (n + 2)) ts [s] := by
  have rest : Reads (endsBlock []) (block stmt [] (n + 1)) ([] ++ lines []) [] :=
    reads_block (List.forall_mem_nil _) (List.forall_mem_nil _) (List.forall_mem_nil _)
      (Nat.succ_pos n) (List.forall_mem_nil _)
  have first : Reads (endsBlock []) (block stmt [] (n + 2)) ([] ++ ts) [s] := by
    refine .skipSeparators (List.forall_mem_nil _) (fun next _ ↦ ?_) (.peekKind fun next _ ↦ ?_)
    · exact ⟨ne_of_true_of_false (start next) rfl, ne_of_true_of_false (start next) rfl⟩
    · change Reads _ (if endsBlock [] (firstKind ts next) = true then _ else _) _ _
      rw [if_neg (Bool.eq_false_iff.mp (not_endsBlock (List.forall_mem_nil _) (start next)))]
      refine h.bind_nil rest.map fun kind hkind ↦ ?_
      rcases Bool.or_eq_true_iff.mp hkind with eof | none
      · rw [eq_of_beq eof]
        rfl
      · cases none
  exact first

theorem parse_single {ts : List Token} {s : Stmt}
    (h : Reads endsCall (statement (ts.length + 3)) ts s)
    (start : ∀ next, startsStmt (firstKind ts next) = true) {eof : Token} (heof : eof.kind = .eof) :
    parse (ts ++ [eof]) = .ok [s] := by
  have bound : nestingBound (ts ++ [eof]) = ts.length + 3 := by
    rw [nestingBound, List.length_append]
    rfl
  have read := reads_block_single h start (ts.length + 1)
  have ends : endsBlock [] eof.kind = true := Bool.or_eq_true_iff.mpr (.inl (beq_iff_eq.mpr heof))
  unfold parse run
  dsimp only
  rw [bound, show block _ [] _ (.ofTokens (ts ++ [eof])) = _ from read ends]

/-- Arguments behind the name without parentheses. -/
theorem reads_statement_bareCall {f : Token} (hf : f.kind = .identifier) {first : List Token × Expr}
    {args : List (List Token × Expr)} (h : ∀ a ∈ first :: args, Spells a.1 a.2)
    (opening : (∀ t ∈ first.1.head?, t.kind ≠ .symbol .leftParen) ∨ Grouped first.1) {n : Nat}
    (length : (commas ((first :: args).map Prod.fst)).length + 3 < n) :
    Reads endsCall (statement n) (f :: commas ((first :: args).map Prod.fst))
      (.call (.call (.name f.text) ((first :: args).map Prod.snd))) := by
  obtain ⟨m, rfl⟩ : ∃ m, n = m + 3 := ⟨n - 3, by omega⟩
  have start (next : Kind) : ∃ next', firstKind (commas ((first :: args).map Prod.fst)) next =
      firstKind first.1 next' := firstKind_commas first args next
  have opens (next : Kind) :
      opensExpr (firstKind (commas ((first :: args).map Prod.fst)) next) = true := by
    obtain ⟨next', start⟩ := start next
    rw [start]
    exact (h first List.mem_cons_self).opens next'
  refine reads_statement_name hf ?_ fun next _ ↦ ne_of_true_of_false (opens next) rfl
  rcases opening with plain | grouped
  · refine reads_bareCall hf (reads_bareArguments (List.cons_ne_nil _ _) h (by omega))
      opens fun next ↦ ?_
    obtain ⟨next', start⟩ := start next
    obtain ⟨t, ts, tokens⟩ := List.exists_cons_of_ne_nil (h first List.mem_cons_self).ne_nil
    rw [start, tokens]
    exact plain t (by rw [tokens]; rfl)
  · have shorter : first.1.length ≤ (commas ((first :: args).map Prod.fst)).length :=
      length_tokens_le_commas List.mem_cons_self
    have callee := reads_name_grouped (m := m) hf (h first List.mem_cons_self) grouped (by omega)
    cases args with
    | nil =>
      rw [commas, List.map_singleton, List.intercalate_singleton]
      exact reads_groupedCall callee
    | cons second args =>
      have tokens : commas ((first :: second :: args).map Prod.fst) =
          first.1 ++ symbol .comma :: commas ((second :: args).map Prod.fst) :=
            commas_cons_cons _ _ _
      rw [tokens, List.length_append, List.length_cons] at length
      have more := reads_bareArguments (List.cons_ne_nil second args)
        (fun a ha ↦ h a (List.mem_cons_of_mem _ ha)) (n := m + 2) (by omega)
      rw [tokens]
      exact reads_groupedCall_cons callee more

/-- Arguments in parentheses behind `Call` and the name. -/
theorem reads_statement_keywordCall {call f : Token} (hcall : call.kind = .keyword .callKw)
    (hf : f.kind = .identifier) {args : List (List Token × Expr)} (h : ∀ a ∈ args, Spells a.1 a.2)
    {n : Nat} (length : (commas (args.map Prod.fst)).length + 3 < n) :
    Reads endsCall (statement n) (call :: f :: parens (commas (args.map Prod.fst)))
      (.call (.call (.name f.text) (args.map Prod.snd))) := by
  obtain ⟨m, rfl⟩ : ∃ m, n = m + 3 := ⟨n - 3, by omega⟩
  exact reads_keywordCall hcall hf (reads_spelledArguments h (by omega) (by omega))

/-- A name with suffixes, in front of `=` and a value. -/
theorem reads_statement_assign (hf : f.kind = .identifier) {us vs : List Token}
    {target value : Expr} (left : Spells (f :: us) target)
    (operand : ∀ op l r, target ≠ .binary op l r) (right : Spells vs value)
    (length : (us ++ symbol .eq :: vs).length + 1 < n) :
    Reads endsCall (statement n) (f :: us ++ symbol .eq :: vs) (.assign target value) := by
  obtain ⟨m, rfl⟩ : ∃ m, n = m + 1 := ⟨n - 1, by omega⟩
  rw [List.length_append, List.length_cons] at length
  refine reads_statement_name hf ?_ fun next _ ↦ ?_
  · have chain : Reads endsChain (chain (expression m 1) m) (f :: us) target :=
      left.reads_chain hf operand (by omega)
    have value : Reads endsExpr (expression m 1) vs value := right.reads (by omega)
    refine chain.bind (.accept rfl (value.map.mono fun _ ↦ endsExpr_of_endsCall)) fun _ _ ↦ rfl
  · change firstKind (us ++ symbol .eq :: vs) next ≠ _
    rw [firstKind_append]
    exact left.not_label hf operand (show Kind.symbol .eq ≠ .symbol .colon by decide)

end MiniBasic.Parser

namespace MiniBasic

open Token (symbol)

/-- The arguments of a call may stand in parentheses behind `Call` and the name, or behind the name
without parentheses. The two are the same statement, alone and wherever a statement may end behind
it, if the first argument does not begin with a parenthesis or is one expression in parentheses.
What is assigned to goes first: the name, or the name with suffixes such as a parenthesis, makes an
assignment if `=` and a value stand behind it. -/
theorem bareCall_eq_keywordCall {call f : Token} (hcall : call.kind = .keyword .callKw)
    (hf : f.kind = .identifier) {first : List Token × Expr} {args : List (List Token × Expr)}
    (h : ∀ a ∈ first :: args, Parser.Spells a.1 a.2) :
    (∀ ts eof, ts.map (Token.bare id) =
          (call :: f :: parens (commas ((first :: args).map Prod.fst))).map (Token.bare id) →
        eof.kind = .eof →
          parse (ts ++ [eof]) =
            .ok [.call (.call (.name f.text) ((first :: args).map Prod.snd))]) ∧
      ((∀ t ∈ first.1.head?, t.kind ≠ .symbol .leftParen) ∨ Parser.Grouped first.1 →
        ∀ ts eof, ts.map (Token.bare id) =
            (f :: commas ((first :: args).map Prod.fst)).map (Token.bare id) →
          eof.kind = .eof →
            parse (ts ++ [eof]) =
              .ok [.call (.call (.name f.text) ((first :: args).map Prod.snd))]) ∧
      (∀ n, (commas ((first :: args).map Prod.fst)).length + 3 < n →
        Parser.Reads Parser.endsCall (Parser.statement n)
            (call :: f :: parens (commas ((first :: args).map Prod.fst)))
            (.call (.call (.name f.text) ((first :: args).map Prod.snd))) ∧
          ((∀ t ∈ first.1.head?, t.kind ≠ .symbol .leftParen) ∨ Parser.Grouped first.1 →
            Parser.Reads Parser.endsCall (Parser.statement n)
              (f :: commas ((first :: args).map Prod.fst))
              (.call (.call (.name f.text) ((first :: args).map Prod.snd))))) ∧
      ∀ us vs target value, Parser.Spells (f :: us) target →
        (∀ op l r, target ≠ .binary op l r) → Parser.Spells vs value →
          ∀ ts eof, ts.map (Token.bare id) = (f :: us ++ symbol .eq :: vs).map (Token.bare id) →
            eof.kind = .eof → parse (ts ++ [eof]) = .ok [.assign target value] := by
  have keyword (n : Nat) (length : (commas ((first :: args).map Prod.fst)).length + 3 < n) :=
    Parser.reads_statement_keywordCall hcall hf h length
  have bare (n : Nat) (length : (commas ((first :: args).map Prod.fst)).length + 3 < n)
      (opening : (∀ t ∈ first.1.head?, t.kind ≠ .symbol .leftParen) ∨ Parser.Grouped first.1) :=
    Parser.reads_statement_bareCall hf h opening length
  have named (ts : List Token) (next : Kind) : startsStmt (firstKind (f :: ts) next) = true := by
    rw [firstKind, hf]
    rfl
  refine ⟨fun ts eof same heof ↦ ?_, fun opening ts eof same heof ↦ ?_,
    fun n length ↦ ⟨keyword n length, bare n length⟩,
    fun us vs target value left operand right ts eof same heof ↦ ?_⟩
  · refine parse_eq_of_bare ?_ (Parser.parse_single (keyword _ ?_) (fun next ↦ ?_) heof)
    · rw [List.map_append, List.map_append, same]
    · rw [List.length_cons, List.length_cons, length_parens]
      omega
    · rw [firstKind, hcall]
      rfl
  · refine parse_eq_of_bare ?_ (Parser.parse_single (bare _ ?_ opening) (named _) heof)
    · rw [List.map_append, List.map_append, same]
    · rw [List.length_cons]
      omega
  · have assign : Parser.Reads Parser.endsCall
        (Parser.statement ((f :: (us ++ symbol .eq :: vs)).length + 3))
        (f :: (us ++ symbol .eq :: vs)) (.assign target value) :=
      Parser.reads_statement_assign hf left operand right (by rw [List.length_cons]; omega)
    refine parse_eq_of_bare ?_ (Parser.parse_single assign (named _) heof)
    rw [List.map_append, List.map_append, same]
    rfl

theorem bareCall_eq_keywordCall_grouped :
    let f : Token := ⟨.identifier, "F", 1, 0, 1⟩
    let a : List Token := [⟨.symbol .leftParen, "(", 1, 2, 3⟩, ⟨.identifier, "a", 1, 3, 4⟩,
      ⟨.symbol .rightParen, ")", 1, 4, 5⟩]
    let b : List Token := [⟨.symbol .minus, "-", 1, 7, 8⟩, ⟨.identifier, "b", 1, 8, 9⟩]
    Parser.Spells a (.name "a") ∧ Parser.Spells b (.unary .neg (.name "b")) ∧ Parser.Grouped a ∧
      Parser.Spells (f :: a) (.call (.name "F") [.name "a"]) ∧
      parse (Token.tokenize "F (a), -b") =
        .ok [.call (.call (.name "F") [.name "a", .unary .neg (.name "b")])] ∧
      parse (Token.tokenize "call F((a), -b)") =
        .ok [.call (.call (.name "F") [.name "a", .unary .neg (.name "b")])] ∧
      parse (Token.tokenize "F (a) = -b") =
        .ok [.assign (.call (.name "F") [.name "a"]) (.unary .neg (.name "b"))] := by
  intro f a b
  have ha : Parser.Spells a (.name "a") := ⟨rfl, rfl, by decide⟩
  have hb : Parser.Spells b (.unary .neg (.name "b")) := ⟨rfl, rfl, by decide⟩
  have hfa : Parser.Spells (f :: a) (.call (.name "F") [.name "a"]) := ⟨rfl, rfl, by decide⟩
  have grouped : Parser.Grouped a := ⟨rfl, .name "a", _, rfl, rfl⟩
  have spelled : ∀ x ∈ [(a, Expr.name "a"), (b, .unary .neg (.name "b"))],
      Parser.Spells x.1 x.2 := by
    simp only [List.forall_mem_cons, List.not_mem_nil, false_implies, implies_true, and_true]
    exact ⟨ha, hb⟩
  have bare : Token.tokenize "F (a), -b" =
      (f :: a ++ ⟨.symbol .comma, ",", 1, 5, 6⟩ :: b) ++ [⟨.eof, "", 1, 9, 9⟩] := by
    decide +kernel
  have called : Token.tokenize "call F((a), -b)" =
      [⟨.keyword .callKw, "call", 1, 0, 4⟩, ⟨.identifier, "F", 1, 5, 6⟩,
        ⟨.symbol .leftParen, "(", 1, 6, 7⟩, ⟨.symbol .leftParen, "(", 1, 7, 8⟩,
        ⟨.identifier, "a", 1, 8, 9⟩, ⟨.symbol .rightParen, ")", 1, 9, 10⟩,
        ⟨.symbol .comma, ",", 1, 10, 11⟩, ⟨.symbol .minus, "-", 1, 12, 13⟩,
        ⟨.identifier, "b", 1, 13, 14⟩, ⟨.symbol .rightParen, ")", 1, 14, 15⟩] ++
      [⟨.eof, "", 1, 15, 15⟩] := by
    decide +kernel
  have assignment : Token.tokenize "F (a) = -b" =
      (f :: a ++ [⟨.symbol .eq, "=", 1, 6, 7⟩, ⟨.symbol .minus, "-", 1, 8, 9⟩,
        ⟨.identifier, "b", 1, 9, 10⟩]) ++ [⟨.eof, "", 1, 10, 10⟩] := by
    decide +kernel
  have hcall : (⟨.keyword .callKw, "call", 1, 0, 4⟩ : Token).kind = .keyword .callKw := rfl
  have hf : f.kind = .identifier := rfl
  obtain ⟨between, without, -, assigned⟩ := bareCall_eq_keywordCall hcall hf spelled
  rw [bare, called, assignment]
  exact ⟨ha, hb, grouped, hfa, without (.inr grouped) _ _ rfl rfl, between _ _ rfl rfl,
    assigned _ _ _ _ hfa (by simp) hb _ _ rfl rfl⟩

/-- What can be assigned to in front of `=` is not read as an argument. -/
theorem bareCall_assigns :
    parseExpression (Token.tokenize "(x) = 1") = .ok (.binary .eq (.name "x") (.number 1)) ∧
      parse (Token.tokenize "F (x) = 1") =
        .ok [.assign (.call (.name "F") [.name "x"]) (.number 1)] ∧
      parse (Token.tokenize "Call F((x) = 1)") =
        .ok [.call (.call (.name "F") [.binary .eq (.name "x") (.number 1)])] := by
  have argument :
      Token.tokenize "(x) = 1" = [⟨.symbol .leftParen, "(", 1, 0, 1⟩, ⟨.identifier, "x", 1, 1, 2⟩,
        ⟨.symbol .rightParen, ")", 1, 2, 3⟩, ⟨.symbol .eq, "=", 1, 4, 5⟩, ⟨.number, "1", 1, 6, 7⟩,
      ⟨.eof, "", 1, 7, 7⟩] := by decide +kernel
  have bare :
      Token.tokenize "F (x) = 1" = [⟨.identifier, "F", 1, 0, 1⟩, ⟨.symbol .leftParen, "(", 1, 2, 3⟩,
        ⟨.identifier, "x", 1, 3, 4⟩, ⟨.symbol .rightParen, ")", 1, 4, 5⟩,
        ⟨.symbol .eq, "=", 1, 6, 7⟩,
      ⟨.number, "1", 1, 8, 9⟩, ⟨.eof, "", 1, 9, 9⟩] := by decide +kernel
  have called :
      Token.tokenize "Call F((x) = 1)" =
        [⟨.keyword .callKw, "Call", 1, 0, 4⟩, ⟨.identifier, "F", 1, 5, 6⟩,
          ⟨.symbol .leftParen, "(", 1, 6, 7⟩, ⟨.symbol .leftParen, "(", 1, 7, 8⟩,
          ⟨.identifier, "x", 1, 8, 9⟩,
      ⟨.symbol .rightParen, ")", 1, 9, 10⟩, ⟨.symbol .eq, "=", 1, 11, 12⟩,
      ⟨.number, "1", 1, 13, 14⟩, ⟨.symbol .rightParen, ")", 1, 14, 15⟩,
      ⟨.eof, "", 1, 15, 15⟩] := by decide +kernel
  rw [argument, bare, called]
  exact ⟨rfl, rfl, rfl⟩

end MiniBasic
