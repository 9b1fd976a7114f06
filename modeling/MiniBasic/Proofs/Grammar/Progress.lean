import MiniBasic.Proofs.Grammar.Modules

/-!
# Parsing moves forward and ends

The rules of the grammar call each other and loop, and what keeps them from going on for ever is
that they use up tokens. `Rule` lists them, each as a parser with a bound on nesting. A rule
`Finishes` at an index of a token list if it comes to one end there under all bounds above the
number of tokens left, and that end is further on in the list, or at least no further back. The
token list is any one: it may have no `eof` token, or one in its middle.
-/

namespace MiniBasic

namespace Cursor

/-- The cursor before the token of a given index, or behind the last token. -/
def atIndex (tokens : List Token) (i : Nat) : Cursor :=
  ⟨tokens.drop i, (ofTokens tokens).eof⟩

variable {tokens : List Token} {c : Cursor} {i j : Nat}

theorem length_rest_atIndex : (atIndex tokens i).rest.length = tokens.length - i :=
  List.length_drop

/-- A cursor that moves along the tokens stays between them. -/
theorem Along.exists_atIndex (h : c.Along (atIndex tokens i)) (within : i ≤ tokens.length) :
    ∃ j, i ≤ j ∧ j ≤ tokens.length ∧ c = atIndex tokens j := by
  obtain ⟨eof, passed, split⟩ := h
  have length := congrArg List.length split
  rw [List.length_append, length_rest_atIndex] at length
  have rest : c.rest = tokens.drop (i + passed.length) := by
    rw [← List.drop_drop]
    exact (List.drop_left' rfl).symm.trans (congrArg (List.drop passed.length) split)
  refine ⟨i + passed.length, Nat.le_add_right _ _, by omega, ?_⟩
  rw [atIndex, ← rest]
  exact congrArg (Cursor.mk c.rest) eof

end Cursor

namespace Parser

variable {α : Type}

/-- The rules of the grammar, by the type of what they read. -/
inductive Rule : Type → Type
  | program : Rule Program
  | wholeExpression : Rule Expr
  | expression (level : Nat) : Rule Expr
  | operand (level : Nat) : Rule Expr
  | operators (level : Nat) (left : Expr) : Rule Expr
  | chain : Rule Expr
  | suffixes (e : Expr) : Rule Expr
  | primary : Rule Expr
  | typeName : Rule String
  | arguments : Rule (List Expr)
  /-- Arguments without parentheses around them. -/
  | bareArguments : Rule (List Expr)
  | param : Rule Param
  | params : Rule (List Param)
  | bound : Rule Expr
  | bounds : Rule (List Expr)
  | declarator : Rule Declarator
  | moreNames : Rule (List String)
  | block (closing : List Keyword) : Rule (List Stmt)
  | inlineBlock : Rule (List Stmt)
  | statement : Rule Stmt
  | dim : Rule Stmt
  | const : Rule Stmt
  | assignmentOrCall : Rule Stmt
  | forLoop : Rule Stmt
  | conditional : Rule (Expr × List Stmt × Alternative)
  | ifThen : Rule Stmt
  | doWhile : Rule Stmt
  | procedure (kind : ProcedureKind) : Rule Stmt
  | set : Rule Stmt
  | onError : Rule Stmt
  | exit : Rule Stmt
  | erase : Rule Stmt
  | reDim : Rule Stmt
  | option : Rule Stmt
  | withAccess : Rule Stmt

namespace Rule

/-- The parser of a rule. What stands inside is read under the same bound. -/
def parser (fuel : Nat) : Rule α → Parser α
  | program => Parser.program fuel
  | wholeExpression => Parser.wholeExpression fuel
  | expression level => Parser.expression fuel level
  | operand level => Parser.operand (Parser.expression fuel) fuel level
  | operators level left => Parser.operators (Parser.expression fuel) level fuel left
  | chain => Parser.chain (Parser.expression fuel 1) fuel
  | suffixes e => Parser.suffixes (Parser.expression fuel 1) fuel e
  | primary => Parser.primary (Parser.expression fuel 1)
  | typeName => Parser.typeName
  | arguments => Parser.arguments (Parser.expression fuel 1) fuel
  | bareArguments => commaList (Parser.expression fuel 1) fuel
  | param => Parser.param (Parser.expression fuel 1)
  | params => Parser.params (Parser.expression fuel 1) fuel
  | bound => Parser.bound (Parser.expression fuel 1)
  | bounds => Parser.bounds (Parser.expression fuel 1) fuel
  | declarator => Parser.declarator (Parser.expression fuel 1) fuel
  | moreNames => Parser.moreNames fuel
  | block closing => Parser.block (Parser.statement fuel) closing fuel
  | inlineBlock => Parser.inlineBlock (Parser.statement fuel) fuel
  | statement => Parser.statement fuel
  | dim => Parser.dim (Parser.expression fuel 1) fuel
  | const => Parser.const (Parser.expression fuel 1)
  | assignmentOrCall => Parser.assignmentOrCall (Parser.expression fuel 1) fuel
  | forLoop => Parser.forLoop (Parser.expression fuel 1) (Parser.statement fuel) fuel
  | conditional => Parser.conditional (Parser.expression fuel 1) (Parser.statement fuel) fuel
  | ifThen => Parser.ifThen (Parser.expression fuel 1) (Parser.statement fuel) fuel
  | doWhile => Parser.doWhile (Parser.expression fuel 1) (Parser.statement fuel) fuel
  | procedure kind => Parser.procedure (Parser.expression fuel 1) (Parser.statement fuel) fuel kind
  | set => Parser.set (Parser.expression fuel 1) fuel
  | onError => Parser.onError
  | exit => Parser.exit
  | erase => Parser.erase fuel
  | reDim => Parser.reDim (Parser.expression fuel 1) fuel
  | option => Parser.option
  | withAccess => Parser.withAccess (Parser.expression fuel 1) (Parser.statement fuel) fuel

/-- The rule starts by moving past a keyword, which those who call it have seen. -/
def atKeyword : Rule α → Bool
  | forLoop | conditional | ifThen | doWhile | procedure _ | set | onError | exit | erase | reDim
    | option
  | withAccess => true
  | _ => false

/-- The rule reads a token at least, whenever it succeeds. -/
def reads : Rule α → Bool
  | expression _ | operand _ | chain | primary | typeName | statement | assignmentOrCall => true
  | rule => rule.atKeyword

/-- The rule comes to one end at index `i`, under all bounds above the number of tokens left there.
It stops at an index `j` no less, and above `i` if a token has been read. -/
inductive Finishes (rule : Rule α) (tokens : List Token) (i : Nat) : Prop
  | ok (a : α) (j : Nat) (forward : i ≤ j) (within : j ≤ tokens.length)
      (progress : rule.reads → i < j) (run : ∀ fuel, tokens.length - i < fuel →
        rule.parser fuel (.atIndex tokens i) = .ok a (.atIndex tokens j)) : Finishes rule tokens i
  | error (e : Complaint) (j : Nat) (forward : i ≤ j) (within : j ≤ tokens.length)
      (grammar : e ≠ .tooDeep) (run : ∀ fuel, tokens.length - i < fuel →
        rule.parser fuel (.atIndex tokens i) = .error e (.atIndex tokens j)) : Finishes rule
          tokens i

end Rule

section Follows

open Comparison

variable {n m k : Nat} {R : α → α → Prop} {p q : Parser α} {P : Token → Prop}

/-! What is said of a parser, for a rule that may read nothing, for one that reads a token, and for
one that is used at a keyword. -/

theorem follows_anywhere (h : (self Token.Any True).Follows k Token.Any False R p q)
    (hR : ∀ a b, R a b → a = b) :
    (self Token.Any True).Follows k P (false = true) Eq p q :=
  (h.imp (absurd · Bool.false_ne_true) hR).anywhere

theorem follows_reading (h : (self Token.Any True).Follows k Token.Any True R p q)
    (hR : ∀ a b, R a b → a = b) :
    (self Token.Any True).Follows k P (true = true) Eq p q :=
  (h.imp (fun _ ↦ trivial) hR).anywhere

theorem follows_atKeyword (h : (self Token.Any True).Follows (k + 1) Token.Inside True R p q)
    (hR : ∀ a b, R a b → a = b) :
    (self Token.Any True).Follows k (fun t ↦ true = true → t.Inside) (true = true) Eq p q :=
  (h.imp (fun _ ↦ trivial) hR).lower.at_next fun _ inside ↦ inside rfl

/-- Under two bounds, every rule does the same where fewer tokens are left. -/
theorem Rule.follows (rule : Rule α) (fuel : (self Token.Any True).Fuel k n m) :
    (self Token.Any True).Follows k (fun t ↦ rule.atKeyword → t.Inside) rule.reads Eq
      (rule.parser n) (rule.parser m) := by
  let T := Trees.self Token.Any True
  have expr (level : Nat) := follows_expression T fuel level
  have sub (level : Nat) := (expr level).rest
  have stmt := follows_statement T fuel
  have same {β : Type} (a b : β) : a = b → a = b := id
  have list {β : Type} (as bs : List β) : List.Forall₂ Eq as bs → as = bs := eq_of_forall₂
  cases rule with
  | program => exact follows_anywhere (follows_program T trivial fuel) list
  | wholeExpression => exact follows_anywhere (follows_wholeExpression T trivial fuel) same
  | expression level => exact follows_reading (expr level) same
  | operand level => exact follows_reading (follows_operand T sub fuel level).lower same
  | operators level left => exact follows_anywhere (follows_operators T sub fuel level rfl) same
  | chain => exact follows_reading (follows_chain T (sub 1) fuel).lower same
  | suffixes e =>
    exact follows_anywhere (follows_suffixes T (sub 1) fuel rfl) fun _ _ ↦ And.left
  | primary => exact follows_reading (follows_primary T (sub 1)).lower same
  | typeName => exact follows_reading (follows_typeName T) same
  | arguments => exact follows_anywhere (follows_arguments T (sub 1) fuel) list
  | bareArguments =>
    exact follows_anywhere (.commaList fuel (sub 1)) fun _ _ args ↦ list _ _ args.1
  | param => exact follows_anywhere (follows_param T (sub 1)) same
  | params => exact follows_anywhere (follows_params T (sub 1) fuel) list
  | bound => exact follows_anywhere (follows_bound T (sub 1)) same
  | bounds => exact follows_anywhere (follows_bounds T (sub 1) fuel) list
  | declarator => exact follows_anywhere (follows_declarator T (sub 1) fuel) same
  | moreNames =>
    refine follows_anywhere (follows_moreNames fuel) fun _ _ names ↦ list _ _ ?_
    exact names.imp fun _ _ ↦ eq_of_name fun _ _ ↦ rfl
  | block closing => exact follows_anywhere (follows_block T stmt fuel trivial closing) list
  | inlineBlock => exact follows_anywhere (follows_inlineBlock T stmt fuel) list
  | statement => exact follows_reading stmt same
  | dim => exact follows_anywhere (follows_dim T (sub 1) fuel) same
  | const => exact follows_anywhere (follows_const T (sub 1)) same
  | assignmentOrCall =>
    have target : (self Token.Any True).Follows _ Token.Any True T.SameTarget _ _ :=
      (follows_chain T (sub 1) fuel).imp id fun _ _ same ↦ ⟨same, trivial⟩
    exact follows_reading (follows_assignmentOrCall T (sub 1) fuel target).lower same
  | forLoop => exact follows_atKeyword (follows_forLoop T stmt fuel (expr 1)) same
  | conditional =>
    refine follows_atKeyword (follows_conditional T stmt fuel (expr 1)) fun x y parts ↦ ?_
    obtain ⟨first, body, other⟩ := Stmt.ifThen.inj parts
    exact Prod.ext first (Prod.ext body other)
  | ifThen => exact follows_atKeyword (follows_ifThen T stmt fuel (expr 1)) same
  | doWhile => exact follows_atKeyword (follows_doWhile T stmt fuel (expr 1)) same
  | procedure kind => exact follows_atKeyword (follows_procedure T stmt fuel (expr 1) kind) same
  | set => exact follows_atKeyword (follows_set T (sub 1) fuel) same
  | onError => exact follows_atKeyword (follows_onError T) same
  | exit => exact follows_atKeyword (follows_exit T) same
  | erase => exact follows_atKeyword (follows_erase T fuel) same
  | reDim => exact follows_atKeyword (follows_reDim T (sub 1) fuel) same
  | option => exact follows_atKeyword (follows_option T) same
  | withAccess => exact follows_atKeyword (follows_withAccess T stmt fuel (expr 1)) same

end Follows

variable {tokens : List Token} {i : Nat}

/-- The least bound above the number of tokens left settles how the rule ends. -/
theorem Rule.finishes (rule : Rule α) (within : i ≤ tokens.length)
    (start : rule.atKeyword → (Cursor.atIndex tokens i).peek.kind ≠ .eof) :
    rule.Finishes tokens i := by
  let left := tokens.length - i
  have eof : (Cursor.atIndex tokens i).eof.kind = .eof := Cursor.kind_eof_ofTokens tokens
  have below : (Cursor.atIndex tokens i).rest.length < left + 1 := by
    rw [Cursor.length_rest_atIndex]
    exact Nat.lt_succ_self left
  have same (fuel : Nat) (enough : left < fuel) :=
    (rule.follows (.above trivial enough (Nat.le_refl _))).run_eq eof start below
  have ends := rule.follows (.same (left + 1)) (Comparison.self_admits eof) start fun _ ↦ below
  cases ends with
  | @ok a b c passed split inside progress result run =>
    have along : c.Along (.atIndex tokens i) := split ▸ c.along_rewind passed
    obtain ⟨j, forward, within', rfl⟩ := along.exists_atIndex within
    refine .ok a j forward within' (fun reads ↦ ?_) fun fuel enough ↦ (same fuel enough).trans run
    have length := congrArg (·.rest.length) split
    have moved := List.length_pos_iff.mpr (progress reads)
    change (Cursor.atIndex tokens i).rest.length = (passed ++ (Cursor.atIndex tokens j).rest).length
      at length
    rw [List.length_append, Cursor.length_rest_atIndex, Cursor.length_rest_atIndex] at length
    omega
  | @error e c passed split inside fits grammar run =>
    have along : c.Along (.atIndex tokens i) := split ▸ c.along_rewind passed
    obtain ⟨j, forward, within', rfl⟩ := along.exists_atIndex within
    exact .error e j forward within' (grammar trivial) fun fuel enough ↦
      (same fuel enough).trans run

/-- A rule that is run on the whole list has one answer. -/
theorem Rule.Finishes.exists_answer {rule : Rule α} (h : rule.Finishes tokens 0) :
    ∃ answer, (∀ fuel, tokens.length < fuel → (rule.parser fuel).run tokens = answer) ∧
      ∀ error, answer = .error error → error.complaint ≠ .tooDeep := by
  cases h with
  | ok a j _ _ _ run =>
    refine ⟨.ok a, fun fuel enough ↦ run_of_ok (run fuel enough), fun error failed ↦ ?_⟩
    cases failed
  | error e j _ _ grammar run =>
    refine ⟨.error ⟨e, (Cursor.atIndex tokens j).peek⟩, fun fuel enough ↦ ?_, ?_⟩
    · exact run_of_error (run fuel enough)
    · rintro _ ⟨⟩
      exact grammar

/-- At every index of every token list, each rule of the grammar comes to an end that does not
depend on a bound on nesting, and moves forward within the list: by a token at least where it reads
a statement, an operand or an expression. So the programs and the expressions that whole lists spell
do not depend on a bound either. -/
theorem rules_finish (tokens : List Token) :
    (∀ ⦃α : Type⦄ (rule : Rule α) (i : Nat), i ≤ tokens.length →
      (rule.atKeyword → (Cursor.atIndex tokens i).peek.kind ≠ .eof) → rule.Finishes tokens i) ∧
    (∀ fuel, tokens.length < fuel →
      parse tokens = (program fuel).run tokens ∧ parseExpression tokens =
        (wholeExpression fuel).run tokens) ∧
    ∀ error, parse tokens = .error error ∨ parseExpression tokens = .error error →
      error.complaint ≠ .tooDeep := by
  have enough : tokens.length < nestingBound tokens := by
    unfold nestingBound
    omega
  have whole {α : Type} (rule : Rule α) (anywhere : rule.atKeyword = false) :
      rule.Finishes tokens 0 :=
    rule.finishes (Nat.zero_le _) fun seen ↦ absurd seen (Bool.eq_false_iff.mp anywhere)
  obtain ⟨answer, same, known⟩ := (whole .program rfl).exists_answer
  obtain ⟨answer', same', known'⟩ := (whole .wholeExpression rfl).exists_answer
  have parsed : parse tokens = answer := same _ enough
  have parsed' : parseExpression tokens = answer' := same' _ enough
  refine ⟨fun _ rule _ within start ↦ rule.finishes within start, fun fuel above ↦ ?_, ?_⟩
  · exact ⟨parsed.trans (same fuel above).symm, parsed'.trans (same' fuel above).symm⟩
  · rintro error (failed | failed)
    · exact known error (parsed ▸ failed)
    · exact known' error (parsed' ▸ failed)

/-- An `eof` token between an `If` and a comma, and none at the end. -/
theorem rules_finish_around_eof :
    let tokens : List Token :=
      [⟨.keyword .ifKw, "If", 1, 0, 2⟩, ⟨.eof, "", 1, 2, 2⟩, ⟨.symbol .comma, ",", 1, 2, 3⟩]
    0 ≤ tokens.length ∧ (Cursor.atIndex tokens 0).peek.kind ≠ .eof ∧
    Rule.conditional.Finishes tokens 0 ∧
      2 ≤ tokens.length ∧ Rule.statement.Finishes tokens 2 := by
  intro tokens
  have finish := (rules_finish tokens).1
  have seen : (Cursor.atIndex tokens 0).peek.kind ≠ .eof := by decide
  have within : 2 ≤ tokens.length := by decide
  refine ⟨Nat.zero_le _, seen, finish .conditional 0 (Nat.zero_le _) fun _ ↦ seen, within, ?_⟩
  exact finish .statement 2 within Bool.noConfusion

end Parser

end MiniBasic
