import MiniBasic.Proofs.Grammar.Modules
import MiniBasic.Proofs.Print.Reads

/-!
# Parentheses where they are needed

An expression can be written with few parentheses by anyone who knows which operator binds tighter
than which. `precedenceTable` lists the operators from the loosest to the tightest, and
`Expr.tokensAt` writes an expression by that table, with parentheses around an operator only where
the table asks for them. Parsing gives the expression back, so the grammar goes by the same table.
-/

namespace MiniBasic

open Token (Word Spelled word keyword symbol)

/-! ## The table -/

inductive Operator where
  | unary (op : UnaryOp)
  | binary (op : BinaryOp)
  deriving DecidableEq

/-- The operators from the loosest to the tightest. Those in one row bind equally tight. -/
def precedenceTable : List (List Operator) :=
  [[.binary .or],
    [.binary .and],
    [.unary .not],
    [.binary .eq, .binary .notEq],
    [.binary .lt, .binary .ltEq, .binary .gt, .binary .gtEq],
    [.binary .concat],
    [.binary .add, .binary .sub],
    [.binary .mod],
    [.binary .intDiv],
    [.binary .mul, .binary .div],
    [.unary .neg, .unary .plus],
    [.binary .pow]]

/-- The row of an operator, counted from one. -/
def Operator.precedence (o : Operator) : Nat :=
  precedenceTable.findIdx (·.contains o) + 1

@[simp] theorem UnaryOp.precedence_eq (op : UnaryOp) :
    (Operator.unary op).precedence = op.level := by
  cases op <;> rfl

@[simp] theorem BinaryOp.precedence_eq (op : BinaryOp) :
    (Operator.binary op).precedence = op.level := by
  cases op <;> rfl

/-! ## Writing by the table -/

namespace Expr

/-- The tokens of an object or callee, where `write` writes it at a level. Parentheses are needed
around an operator, and around a `New`: dots and empty parentheses behind it would be a part of its
type name. -/
def enclosed (e : Expr) (write : Nat → List Token) : List Token :=
  match e with
  | unary _ _ | binary _ _ _ | new _ => parens (write 1)
  | _ => write 1

/-- The tokens of the left operand of a binary operator with the given precedence. A prefix operator
reaches over all operators that bind as tight as itself or tighter, so it needs parentheses before
one of these. -/
def onLeft (precedence : Nat) (e : Expr) (write : Nat → List Token) : List Token :=
  match e with
  | unary op _ =>
    if precedence ≥ (Operator.unary op).precedence then parens (write 1) else write precedence
  | _ => write precedence

/-- The tokens of an expression at a level: a binary operator of a lower precedence stands in
parentheses. -/
def tokensAt : Expr → Nat → List Token
  | number x, _ => [.number (Number.write .subscript x)]
  | text s, _ => [.quoted s]
  | name n, _ => [word n]
  | unary op e, level => op.token :: e.tokensAt (max (Operator.unary op).precedence level)
  | binary op l r, level =>
    let precedence := (Operator.binary op).precedence
    let ts := l.onLeft precedence l.tokensAt ++ op.token :: r.tokensAt (precedence + 1)
    if precedence < level then parens ts else ts
  | call callee args, _ =>
    callee.enclosed callee.tokensAt ++ parens (commas (args.map (·.tokensAt 1)))
  | member object property, _ => object.enclosed object.tokensAt ++ [symbol .dot, word property]
  | new typeName, _ => keyword .newKw :: typeTokens typeName

theorem tokensAt_binary (op : BinaryOp) (l r : Expr) {level : Nat} (h : level ≤ op.level) :
    (binary op l r).tokensAt level =
      l.onLeft op.level l.tokensAt ++ op.token :: r.tokensAt (op.level + 1) := by
  simp only [tokensAt, BinaryOp.precedence_eq]
  exact if_neg h.not_gt

theorem tokensAt_binary_of_lt (op : BinaryOp) (l r : Expr) {level : Nat} (h : op.level < level) :
    (binary op l r).tokensAt level = parens ((binary op l r).tokensAt 1) := by
  rw [tokensAt_binary op l r (Parser.one_le_level op)]
  simp only [tokensAt, BinaryOp.precedence_eq]
  exact if_pos h

theorem enclosed_call (callee : Expr) (args : List Expr) :
    (call callee args).enclosed (call callee args).tokensAt =
      callee.enclosed callee.tokensAt ++ parens (commas (args.map (·.tokensAt 1))) := by
  change (call callee args).tokensAt 1 = _
  rw [tokensAt]

theorem enclosed_member (object : Expr) (property : String) :
    (member object property).enclosed (member object property).tokensAt =
      object.enclosed object.tokensAt ++ [symbol .dot, word property] := by
  change (member object property).tokensAt 1 = _
  rw [tokensAt]

/-- A primary with its suffixes, as opposed to an operator with its operands. -/
def isChain : Expr → Bool
  | unary _ _ | binary _ _ _ => false
  | _ => true

theorem onLeft_of_isChain {e : Expr} (h : e.isChain = true) (precedence : Nat) :
    e.onLeft precedence e.tokensAt = e.tokensAt precedence := by
  cases e with
  | unary op e => cases h
  | _ => rfl

end Expr

namespace Parser

variable {F : Kind → Bool}

/-! ## First tokens -/

theorem startsExpr_enclosed {e : Expr} (h : e.Printable) (next : Kind) :
    startsExpr (firstKind (e.enclosed e.tokensAt) next) = true := by
  induction h generalizing next with
  | name h =>
    simp only [Expr.enclosed, Expr.tokensAt]
    change startsExpr (Kind.ofWord _) = true
    rcases h with h | h
    · rw [h.2]
      rfl
    · rw [h.2]
      rfl
  | call h hargs ih ihargs =>
    rw [Expr.enclosed_call, firstKind_append]
    exact ih _
  | member h hp ih =>
    rw [Expr.enclosed_member, firstKind_append]
    exact ih _
  | _ =>
    simp only [Expr.enclosed, Expr.tokensAt]
    rfl

theorem startsExpr_of_isChain {e : Expr} (h : e.Printable) (chain : e.isChain = true) (level : Nat)
    (next : Kind) :
    startsExpr (firstKind (e.tokensAt level) next) = true := by
  have object := startsExpr_enclosed h next
  cases h with
  | new h =>
    rw [Expr.tokensAt]
    rfl
  | unary h => cases chain
  | binary hl hr => cases chain
  | _ =>
    simp only [Expr.enclosed, Expr.tokensAt] at object ⊢
    exact object

/-- What an expression may start with: an operand or a prefix operator. -/
def opensExpr (kind : Kind) : Bool :=
  startsExpr kind || (UnaryOp.ofKind? kind).isSome

theorem opensExpr_onLeft {e : Expr}
    (h : ∀ level next, opensExpr (firstKind (e.tokensAt level) next) = true) (precedence : Nat)
    (next : Kind) :
    opensExpr (firstKind (e.onLeft precedence e.tokensAt) next) = true := by
  cases e with
  | unary op e =>
    simp only [Expr.onLeft]
    split
    · rfl
    · exact h precedence next
  | _ => exact h precedence next

theorem opensExpr_tokensAt {e : Expr} (h : e.Printable) (level : Nat) (next : Kind) :
    opensExpr (firstKind (e.tokensAt level) next) = true := by
  induction h generalizing level next with
  | @unary op e h ih =>
    rw [Expr.tokensAt, firstKind, opensExpr, ofKind?_unaryToken]
    exact Bool.or_true _
  | @binary op l r hl hr ihl ihr =>
    rcases Nat.lt_or_ge op.level level with lt | ge
    · rw [Expr.tokensAt_binary_of_lt op l r lt]
      rfl
    · rw [Expr.tokensAt_binary op l r ge, firstKind_append]
      exact opensExpr_onLeft ihl _ _
  | _ =>
    rw [opensExpr, startsExpr_of_isChain (by constructor <;> assumption) rfl]
    rfl

theorem length_tokensAt_pos {e : Expr} (h : e.Printable) (level : Nat) :
    0 < (e.tokensAt level).length := by
  apply List.length_pos_iff.mpr
  intro none
  have opens := opensExpr_tokensAt h level .eof
  rw [none] at opens
  cases opens

/-! ## Operands -/

/-- The parser reads all expressions of fewer than `n` tokens at every level. -/
def ReadsAt (n : Nat) (sub : Nat → Parser Expr) : Prop :=
  ∀ ⦃e : Expr⦄, e.Printable → ∀ level, (e.tokensAt level).length < n →
    Reads (endsAt level) (sub level) (e.tokensAt level) e

theorem endsAt_mono {low high : Nat} (h : low ≤ high) {kind : Kind}
    (ends : endsAt low kind = true) :
    endsAt high kind = true := by
  obtain ⟨chain, looser⟩ := Bool.and_eq_true_iff.mp ends
  apply Bool.and_eq_true_iff.mpr
  constructor
  · exact chain
  · cases hop : BinaryOp.ofKind? kind with
    | none => rfl
    | some op =>
      rw [hop, Option.all_some, decide_eq_true_iff] at looser
      rw [Option.all_some, decide_eq_true_iff]
      exact looser.trans_le h

theorem endsAt_binaryToken (op : BinaryOp) : endsAt (op.level + 1) op.token.kind = true := by
  rw [endsAt, endsChain_binaryToken, ofKind?_binaryToken, Option.all_some]
  exact decide_eq_true (Nat.lt_succ_self _)

theorem endsChain_of_endsAt {level : Nat} {kind : Kind} (h : endsAt level kind = true) :
    endsChain kind = true :=
  (Bool.and_eq_true_iff.mp h).1

variable {n : Nat} {sub : Nat → Parser Expr} (hsub : ReadsAt n sub)

include hsub

theorem ReadsAt.inside {e : Expr} (h : e.Printable) (length : (e.tokensAt 1).length < n) :
    Reads endsExpr (sub 1) (e.tokensAt 1) e :=
  (hsub h 1 length).mono fun _ ends ↦ endsAt_of_endsExpr ends 1

theorem readsObject_enclosed {e : Expr} (h : e.Printable)
    (length : (e.enclosed e.tokensAt).length ≤ n) :
    ReadsObject (sub 1) n (e.enclosed e.tokensAt) e := by
  have parens {e : Expr} (h : e.Printable) (length : (parens (e.tokensAt 1)).length ≤ n) :
      ReadsObject (sub 1) n (parens (e.tokensAt 1)) e := by
    rw [length_parens] at length
    exact .of_parens (hsub.inside h (by omega))
  induction h with
  | number h =>
    simp only [Expr.enclosed, Expr.tokensAt]
    exact .of_primary (reads_primary_number h) Nat.one_pos
  | text h =>
    simp only [Expr.enclosed, Expr.tokensAt]
    exact .of_primary (.peek (.advance _ (.pure _))) Nat.one_pos
  | name h =>
    simp only [Expr.enclosed, Expr.tokensAt]
    exact .of_primary (reads_primary_name h) Nat.one_pos
  | unary h => exact parens (.unary h) length
  | binary hl hr => exact parens (.binary hl hr) length
  | new h => exact parens (.new h) length
  | @call callee args h hargs ih ihargs =>
    rw [Expr.enclosed_call] at length ⊢
    rw [List.length_append, length_parens] at length
    apply (ih (by omega)).call
    · intro m hm
      apply reads_listed (F := endsExpr)
      · intro a ha
        have shorter := @length_tokens_le_commas Expr (·.tokensAt 1) args a ha
        exact hsub.inside (hargs a ha) (by omega)
      · rfl
      · rfl
      · intro a ha next
        exact ne_of_true_of_false (opensExpr_tokensAt (hargs a ha) 1 next) rfl
      · exact hm
    · omega
  | @member object property h hp ih =>
    rw [Expr.enclosed_member] at length ⊢
    rw [List.length_append, List.length_cons, List.length_singleton] at length
    exact (ih (by omega)).member property length

theorem reads_operand_enclosed {e : Expr} (h : e.Printable)
    (length : (e.enclosed e.tokensAt).length ≤ n) (level : Nat) :
    Reads endsChain (operand sub n level) (e.enclosed e.tokensAt) e :=
  reads_operand (startsExpr_enclosed h) ((readsObject_enclosed hsub h length).reads_chain length)

theorem reads_operand_chain {e : Expr} (h : e.Printable) (chain : e.isChain = true) {written : Nat}
    (length : (e.tokensAt written).length ≤ n) (level : Nat) :
    Reads endsChain (operand sub n level) (e.tokensAt written) e := by
  have pos := length_tokensAt_pos h written
  have object := reads_operand_enclosed hsub h
  have starts := startsExpr_of_isChain h chain written
  cases h with
  | @new type h =>
    obtain ⟨m, rfl⟩ := Nat.exists_eq_add_one.mpr (pos.trans_le length)
    rw [Expr.tokensAt] at starts ⊢
    exact reads_operand starts
      ((reads_primary_new h).bind_nil (reads_suffixes_nil _ m _) fun _ ↦ id)
  | unary h => cases chain
  | binary hl hr => cases chain
  | _ =>
    simp only [Expr.enclosed, Expr.tokensAt] at object length ⊢
    exact object length level

omit hsub in
theorem ReadsAt.zero : ReadsAt 0 sub :=
  fun _ _ _ none ↦ absurd none (Nat.not_lt_zero _)

/-! ## Operators -/

/-- The parser of expressions reads the tokens as `e` and goes on with the operators behind them, if
what stands there may follow. The bound that is left for these is enough for what the rest of `n`
tokens may hold. -/
def ReadsLeft (sub : Nat → Parser Expr) (n level : Nat) (follow : Kind → Bool) (ts : List Token)
    (e : Expr) : Prop :=
  ∃ m, n < m + ts.length ∧ ∀ k eof, follow (Cursor.mk k eof).peek.kind = true →
    (operand sub n level >>= operators sub level n)
    ⟨ts ++ k, eof⟩ = operators sub level m e ⟨k, eof⟩

namespace ReadsLeft

omit hsub

variable {level : Nat} {G : Kind → Bool} {ts us : List Token} {e l r : Expr}

theorem of_operand (h : Reads F (operand sub n level) ts e) (pos : 0 < ts.length) :
    ReadsLeft sub n level F ts e :=
  ⟨n, by omega, fun _ _ hk ↦ bind_ok (h hk)⟩

/-- One more operator with its right operand. -/
theorem operator (op : BinaryOp) (h : ReadsLeft sub n level F ts l)
    (follow : F op.token.kind = true) (hop : level ≤ op.level)
    (right : Reads G (sub (op.level + 1)) us r) (length : (ts ++ op.token :: us).length ≤ n)
    (pos : 0 < us.length) :
    ReadsLeft sub n level G (ts ++ op.token :: us) (.binary op l r) := by
  obtain ⟨m, hm, read⟩ := h
  rw [List.length_append, List.length_cons] at length
  obtain ⟨m, rfl⟩ : ∃ i, m = i + 1 := ⟨m - 1, by omega⟩
  refine ⟨m, ?_, ?_⟩
  · rw [List.length_append, List.length_cons]
    omega
  · intro k eof hk
    rw [List.append_assoc, read (op.token :: us ++ k) eof follow]
    exact operators_cons op hop right hk

/-- Where no operator of the level follows, the expression ends. -/
theorem reads (h : ReadsLeft sub n level F ts e)
    (follow : ∀ kind, endsAt level kind = true → F kind = true) (length : ts.length ≤ n) :
    Reads (endsAt level) (operand sub n level >>= operators sub level n) ts e := by
  obtain ⟨m, hm, read⟩ := h
  obtain ⟨m, rfl⟩ : ∃ i, m = i + 1 := ⟨m - 1, by omega⟩
  intro k eof hk
  rw [read k eof (follow _ hk)]
  exact reads_operators_nil sub level m e hk

end ReadsLeft

theorem readsLeft_enclosed {e : Expr} (h : e.Printable)
    (length : (e.enclosed e.tokensAt).length ≤ n) (level ends : Nat) :
    ReadsLeft sub n level (endsAt ends) (e.enclosed e.tokensAt) e := by
  have read := reads_operand_enclosed hsub h length level
  apply ReadsLeft.of_operand
  · exact read.mono fun _ ↦ endsChain_of_endsAt
  · apply List.length_pos_iff.mpr
    intro none
    have starts := startsExpr_enclosed h .eof
    rw [none] at starts
    cases starts

theorem readsLeft_chain {e : Expr} (h : e.Printable) (chain : e.isChain = true) {written : Nat}
    (length : (e.tokensAt written).length ≤ n) (level ends : Nat) :
    ReadsLeft sub n level (endsAt ends) (e.tokensAt written) e := by
  have read := reads_operand_chain hsub h chain length level
  apply ReadsLeft.of_operand
  · exact read.mono fun _ ↦ endsChain_of_endsAt
  · exact length_tokensAt_pos h written

/-- A left operand may be followed by operators that bind no tighter than the one it is written
for. -/
theorem readsLeft_onLeft {e : Expr} (h : e.Printable) {level precedence : Nat}
    (hlevel : level ≤ precedence) (length : (e.onLeft precedence e.tokensAt).length ≤ n) :
    ReadsLeft sub n level (endsAt (precedence + 1)) (e.onLeft precedence e.tokensAt) e := by
  induction h generalizing precedence with
  | @unary op e h ih =>
    simp only [Expr.onLeft, UnaryOp.precedence_eq] at length ⊢
    split at length
    case isTrue tight =>
      rw [if_pos tight]
      exact readsLeft_enclosed hsub (.unary h) length level _
    case isFalse loose =>
      -- the operator is tighter than those around it, so they do not matter to its operand
      have own : max op.level precedence = max op.level level := by omega
      have tighter : precedence + 1 ≤ max op.level level := by omega
      rw [Expr.tokensAt, UnaryOp.precedence_eq, own] at length
      rw [if_neg loose, Expr.tokensAt, UnaryOp.precedence_eq, own]
      apply ReadsLeft.of_operand
      · apply reads_operand_unary
        exact (hsub h _ length).mono fun _ ↦ endsAt_mono tighter
      · exact Nat.zero_lt_succ _
  | @binary op l r hl hr ihl ihr =>
    rcases Nat.lt_or_ge op.level precedence with lt | ge
    · have tokens : (Expr.binary op l r).onLeft precedence (Expr.binary op l r).tokensAt = _ :=
        Expr.tokensAt_binary_of_lt op l r lt
      rw [tokens] at length ⊢
      exact readsLeft_enclosed hsub (.binary hl hr) length level _
    · have tokens : (Expr.binary op l r).onLeft precedence (Expr.binary op l r).tokensAt = _ :=
        Expr.tokensAt_binary op l r ge
      rw [tokens] at length ⊢
      have parts := length
      rw [List.length_append, List.length_cons] at parts
      have left := ihl (hlevel.trans ge) (by omega)
      have right := hsub hr (op.level + 1) (by omega)
      apply left.operator op (endsAt_binaryToken op) (hlevel.trans ge)
      · exact right.mono fun _ ↦ endsAt_mono (Nat.succ_le_succ ge)
      · exact length
      · exact length_tokensAt_pos hr _
  | _ =>
    rw [Expr.onLeft_of_isChain rfl] at length ⊢
    exact readsLeft_chain hsub (by constructor <;> assumption) rfl length level _

/-- One more token may be read with a bound that is one larger. -/
theorem ReadsAt.succ {e : Expr} (h : e.Printable) (level : Nat)
    (length : (e.tokensAt level).length ≤ n) :
    Reads (endsAt level) (operand sub n level >>= operators sub level n) (e.tokensAt level) e := by
  have ends (kind : Kind) : endsAt level kind = true → endsAt (level + 1) kind = true :=
    endsAt_mono (Nat.le_succ level)
  have left := readsLeft_onLeft hsub h (Nat.le_refl level)
  cases h with
  | @unary op e h =>
    rw [Expr.tokensAt, UnaryOp.precedence_eq] at length ⊢
    apply ReadsLeft.reads (F := endsAt level)
    · apply ReadsLeft.of_operand
      · apply reads_operand_unary
        exact (hsub h _ length).mono fun _ ↦ endsAt_mono (Nat.le_max_right _ _)
      · exact Nat.zero_lt_succ _
    · exact fun _ ↦ id
    · exact length
  | _ => exact (left length).reads ends length

omit hsub in
theorem readsAt_expression (n : Nat) : ReadsAt n (expression n) := by
  induction n with
  | zero => exact ReadsAt.zero
  | succ n ih =>
    intro e h level length
    exact ih.succ h level (Nat.le_of_lt_succ length)

/-! ## Whole inputs -/

omit hsub in
theorem wholeExpression_tokensAt {e : Expr} (h : e.Printable) {fuel : Nat}
    (length : (e.tokensAt 1).length < fuel) {stop eof : Token} (hstop : stop.kind = .eof) :
    wholeExpression fuel ⟨e.tokensAt 1 ++ [stop], eof⟩ = .ok e ⟨[stop], eof⟩ := by
  have ends : endsAt 1 stop.kind = true := by
    rw [hstop]
    rfl
  have kept : [stop].dropWhile isSeparator = [stop] := by
    apply List.dropWhile_cons_of_neg
    rw [isSeparator, hstop]
    decide
  have first : (e.tokensAt 1 ++ [stop]).dropWhile isSeparator = e.tokensAt 1 ++ [stop] := by
    have opens := opensExpr_tokensAt h 1 .eof
    cases tokens : e.tokensAt 1 with
    | nil => exact kept
    | cons t ts =>
      rw [tokens] at opens
      apply List.dropWhile_cons_of_neg
      rw [not_isSeparator (F := opensExpr) opens rfl rfl]
      decide
  have read : expression fuel 1 ⟨e.tokensAt 1 ++ [stop], eof⟩ = .ok e ⟨[stop], eof⟩ :=
    readsAt_expression fuel h 1 length ends
  have skipped (ts : List Token) : skipSeparators ⟨ts, eof⟩ = .ok ()
      ⟨ts.dropWhile isSeparator, eof⟩ := rfl
  rw [wholeExpression, bind_ok (skipped _), first, bind_ok read, bind_ok (skipped _), kept,
    peekKind_bind]
  exact congrFun (if_pos hstop) _

end Parser

/-- The places of tokens do not count. -/
theorem parseExpression_eq_of_bare {ts us : List Token}
    (same : ts.map (Token.bare id) = us.map (Token.bare id)) {e : Expr}
    (h : parseExpression ts = .ok e) : parseExpression us = .ok e := by
  unfold parseExpression at h ⊢
  rw [Parser.nestingBound_eq_of_bare same]
  have follows := Comparison.follows_wholeExpression (.respell Text.folding_id) trivial
    (.same (Parser.nestingBound ts))
  exact follows.run_eq_ok Expr.respell_id same h

theorem Expr.allSpelled_enclosed {e : Expr} (h : ∀ level, AllSpelled (e.tokensAt level)) :
    AllSpelled (e.enclosed e.tokensAt) := by
  cases e <;> first | exact allSpelled_parens (h 1) | exact h 1

theorem Expr.allSpelled_onLeft {e : Expr} (h : ∀ level, AllSpelled (e.tokensAt level))
    (precedence : Nat) :
    AllSpelled (e.onLeft precedence e.tokensAt) := by
  cases e with
  | unary op e =>
    simp only [onLeft]
    split
    · exact allSpelled_parens (h 1)
    · exact h precedence
  | _ => exact h precedence

theorem Expr.Printable.allSpelled_tokensAt {e : Expr} (h : e.Printable) (level : Nat) :
    AllSpelled (e.tokensAt level) := by
  have leaf {e : Expr} {level : Nat} (h : e.Printable) (same : e.tokensAt level = e.tokens) :
      AllSpelled (e.tokensAt level) :=
    same ▸ h.allSpelled
  induction h generalizing level with
  | @unary op e h ih =>
    rw [tokensAt, allSpelled_cons]
    exact ⟨op.spelled_token, ih _⟩
  | @binary op l r hl hr ihl ihr =>
    simp only [tokensAt]
    have parts : AllSpelled (l.onLeft (Operator.binary op).precedence l.tokensAt ++
        op.token :: r.tokensAt ((Operator.binary op).precedence + 1)) := by
      rw [allSpelled_append, allSpelled_cons]
      exact ⟨allSpelled_onLeft ihl _, op.spelled_token, ihr _⟩
    split
    · exact allSpelled_parens parts
    · exact parts
  | call h hargs ih ihargs =>
    rw [tokensAt, allSpelled_append]
    exact ⟨allSpelled_enclosed ih, allSpelled_parens (allSpelled_commas fun a ha ↦ ihargs a ha 1)⟩
  | @member object property h hp ih =>
    rw [tokensAt, allSpelled_append]
    exact ⟨allSpelled_enclosed ih, by simp [hp.spelled_word]⟩
  | number h => exact leaf (.number h) (by rw [tokens, tokensAt])
  | text h => exact leaf (.text h) (by rw [tokens, tokensAt])
  | name h => exact leaf (.name h) (by rw [tokens, tokensAt])
  | new h => exact leaf (.new h) (by rw [tokens, tokensAt])

/-- Expressions are read by the table of precedences. Written by the table, with parentheses only
where it asks for them, every expression is read back from its tokens, wherever these stand, and
from its text. -/
theorem parseExpression_tokensAt {e : Expr} (h : e.Printable) :
    (∀ (ts : List Token) (eof : Token),
      ts.map (Token.bare id) = (e.tokensAt 1).map (Token.bare id) →
        eof.kind = .eof → parseExpression (ts ++ [eof]) = .ok e) ∧
      parseExpression (Token.tokenize (String.ofList (Token.layout (e.tokensAt 1)))) = .ok e := by
  have written (eof : Token) (heof : eof.kind = .eof) :
      parseExpression (e.tokensAt 1 ++ [eof]) = .ok e := by
    have length : (e.tokensAt 1).length < Parser.nestingBound (e.tokensAt 1 ++ [eof]) := by
      rw [Parser.nestingBound, List.length_append]
      omega
    unfold parseExpression
    exact Parser.run_of_ok (Parser.wholeExpression_tokensAt h length heof)
  constructor
  · intro ts eof same heof
    apply parseExpression_eq_of_bare _ (written eof heof)
    rw [List.map_append, List.map_append, same]
  · apply parseExpression_eq_of_bare _ (written ⟨.eof, "", 0, 0, 0⟩ rfl)
    rw [Token.tokenize, String.toList_ofList, Token.bare_scan_layout (h.allSpelled_tokensAt 1),
      List.map_append]
    rfl

theorem parseExpression_tokensAt_negated :
    let e : Expr := .binary .pow (.unary .neg (.name "a"))
      (.unary .not (.call (.member (.name "b") "Item")
        [.binary .and (.unary .not (.name "c")) (.binary .eq (.name "Empty") (.text "d"))]))
    e.Printable ∧ String.ofList (Token.layout (e.tokensAt 1)) =
      "(- a) ^ Not b.Item(Not c And Empty = \"d\")" ∧
      parseExpression (Token.tokenize "(- a) ^ Not b.Item(Not c And Empty = \"d\")") = .ok e := by
  intro e
  have name (n : String) (h : n ∈ ["a", "b", "c"]) : Spelled .identifier n := by
    simp only [List.mem_cons, List.not_mem_nil, or_false] at h
    rcases h with rfl | rfl | rfl <;>
      exact ⟨⟨⟨_, _, String.toList_ofList, rfl, List.all_eq_true.mp (by decide)⟩, by decide⟩,
        by decide⟩
  have item : Word "Item" :=
    ⟨⟨_, _, String.toList_ofList, rfl, List.all_eq_true.mp (by decide)⟩, by decide⟩
  have printable : e.Printable := by
    apply Expr.Printable.binary
    · exact .unary (.name (.inl (name "a" (by decide))))
    apply Expr.Printable.unary
    apply Expr.Printable.call
    · exact .member (.name (.inl (name "b" (by decide)))) item
    intro argument only
    obtain rfl := List.mem_singleton.mp only
    apply Expr.Printable.binary
    · exact .unary (.name (.inl (name "c" (by decide))))
    apply Expr.Printable.binary
    · exact .name (.inr (spelled_keyword .emptyKw))
    · exact .text (show '"' ∉ "d".toList by decide)
  have tokens :
      e.tokensAt 1 = [symbol .leftParen, symbol .minus, word "a", symbol .rightParen, symbol .caret,
        keyword .notKw, word "b", symbol .dot, word "Item", symbol .leftParen, keyword .notKw,
          word "c",
      keyword .andKw, word "Empty", symbol .eq, .quoted "d", symbol .rightParen] := by
    simp [e, Expr.tokensAt, Expr.onLeft, Expr.enclosed, parens, commas, UnaryOp.token,
      BinaryOp.token, UnaryOp.level, BinaryOp.level]
  have text : String.ofList (Token.layout (e.tokensAt 1)) =
      "(- a) ^ Not b.Item(Not c And Empty = \"d\")" := by
    rw [tokens]
    decide +kernel
  have read := (parseExpression_tokensAt printable).2
  rw [text] at read
  exact ⟨printable, text, read⟩

end MiniBasic
