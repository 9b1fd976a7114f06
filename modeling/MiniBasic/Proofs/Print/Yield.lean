import Mathlib.Data.List.DropRight
import MiniBasic.Proofs.Grammar.Modules
import MiniBasic.Proofs.Print.Reads

/-!
# Expressions keep their tokens

The yield of an expression is what stands at the leaves of its tree and at its operators, from left
to right. Parentheses aside, and line ends and colons around the expression, it is the list of
tokens that the expression was parsed from. So parsing drops no token, invents none and changes the
place of none.
-/

namespace MiniBasic

open Token (Word)

/-! ## The yield -/

/-- What an expression keeps of one token. -/
inductive Leaf where
  | number (x : Float)
  | text (s : String)
  /-- A name, a property or a word of a type name. -/
  | word (w : String)
  | unary (op : UnaryOp)
  | binary (op : BinaryOp)
  | dot
  | comma
  | new

/-- The token is what the leaf was read from. -/
def Token.Shows (t : Token) : Leaf → Prop
  | .number x => t.kind = .number ∧ Parser.literal? t.text = some x
  | .text s => t.kind = .text ∧ t.text = s
  | .word w => t.kind = .ofWord w ∧ t.text = w
  | .unary op => t.kind = op.token.kind
  | .binary op => t.kind = op.token.kind
  | .dot => t.kind = .symbol .dot
  | .comma => t.kind = .symbol .comma
  | .new => t.kind = .keyword .newKw

/-- The words of a type name such as `Scripting.Dictionary`. -/
def typeWords (name : String) : List String :=
  (name.toList.splitOn '.').map String.ofList

def Expr.yield : Expr → List Leaf
  | number x => [.number x]
  | text s => [.text s]
  | name n => [.word n]
  | unary op e => .unary op :: e.yield
  | binary op l r => l.yield ++ .binary op :: r.yield
  | call callee args => callee.yield ++ [.comma].intercalate (args.map yield)
  | member object property => object.yield ++ [.dot, .word property]
  | new typeName => .new :: [.dot].intercalate ((typeWords typeName).map fun w ↦ [.word w])

theorem typeWords_foldl {w : String} (hw : Word w) {ws : List String} (hws : ∀ v ∈ ws, Word v) :
    typeWords (ws.foldl (fun n v ↦ n ++ "." ++ v) w) = w :: ws := by
  have first : w.toList.splitOn '.' = [w.toList] := List.splitOn_eq_singleton hw.dot_not_mem
  rw [typeWords, splitOn_foldl hws, first, List.singleton_append, List.map_cons, List.map_map,
    String.ofList_toList]
  simp

/-- A type name shows its words with dots between them. -/
theorem Expr.yield_new {w : String} (hw : Word w) {ws : List String} (hws : ∀ v ∈ ws, Word v) :
    (new (ws.foldl (fun n v ↦ n ++ "." ++ v) w)).yield =
      .new :: .word w :: ws.flatMap fun v ↦ [.dot, .word v] := by
  rw [yield, typeWords_foldl hw hws, List.map_cons, separated_cons, List.flatMap_map]
  rfl

/-- The arguments of a call show the first one and the others behind commas. -/
theorem Expr.yield_call (callee first : Expr) (rest : List Expr) :
    (call callee (first :: rest)).yield =
      callee.yield ++ (first.yield ++ rest.flatMap fun a ↦ .comma :: a.yield) := by
  rw [yield, List.map_cons, separated_cons, List.flatMap_map]

/-! ## Moving along the yield -/

def Token.isParen (t : Token) : Bool :=
  t.kind == .symbol .leftParen || t.kind == .symbol .rightParen

/-- The kinds of tokens that an expression keeps. -/
def Kind.isKept : Kind → Bool
  | .newline | .symbol .colon | .symbol .leftParen | .symbol .rightParen | .unknown | .eof => false
  | _ => true

namespace Token

variable {t : Token}

theorem isKept_ofWord (w : String) : (Kind.ofWord w).isKept = true := by
  unfold Kind.ofWord
  split
  · rfl
  · rfl

theorem Shows.isKept {l : Leaf} (h : t.Shows l) : t.kind.isKept = true := by
  have kept {kind : Kind} (hk : t.kind = kind) (hkept : kind.isKept = true) :
      t.kind.isKept = true :=
    hk ▸ hkept
  cases l with
  | number x => exact kept h.1 rfl
  | text s => exact kept h.1 rfl
  | word w => exact kept h.1 (isKept_ofWord w)
  | unary op => exact kept h (by cases op <;> rfl)
  | binary op => exact kept h (by cases op <;> rfl)
  | dot => exact kept h rfl
  | comma => exact kept h rfl
  | new => exact kept h rfl

theorem not_isParen_of_isKept (h : t.kind.isKept = true) : t.isParen = false := by
  apply Bool.or_eq_false_iff.mpr
  constructor
  · exact beq_eq_false_iff_ne.mpr (Parser.ne_of_true_of_false h rfl)
  · exact beq_eq_false_iff_ne.mpr (Parser.ne_of_true_of_false h rfl)

/-- A token that can stand inside an expression. -/
def Inner (t : Token) : Prop :=
  Parser.isSeparator t = false ∧ t.kind ≠ .eof

theorem inner_of_isKept (h : t.kind.isKept = true) : t.Inner :=
  ⟨Parser.not_isSeparator h rfl rfl, Parser.ne_of_true_of_false h rfl⟩

theorem inner_of_isParen (h : t.isParen = true) : t.Inner := by
  rcases (Bool.or_eq_true _ _).mp h with kind | kind
  · simp [Inner, Parser.isSeparator, eq_of_beq kind]
  · simp [Inner, Parser.isSeparator, eq_of_beq kind]

end Token

namespace Cursor

/-- From `c` to `c'` stand tokens that show the leaves, and parentheses. -/
inductive Passes : Cursor → List Leaf → Cursor → Prop
  | refl (c : Cursor) : Passes c [] c
  | paren {c c' : Cursor} {ls : List Leaf} (h : c.peek.isParen = true)
      (more : Passes c.advance ls c') :
      Passes c ls c'
  | leaf {c c' : Cursor} {l : Leaf} {ls : List Leaf} (h : c.peek.Shows l)
      (more : Passes c.advance ls c') :
      Passes c (l :: ls) c'

namespace Passes

variable {c d c' : Cursor} {ls ms : List Leaf}

theorem single {l : Leaf} (h : c.peek.Shows l) : c.Passes [l] c.advance :=
  .leaf h (.refl _)

theorem symbol_paren {s : Symbol} (h : c.peek.kind = .symbol s)
    (hs : s = .leftParen ∨ s = .rightParen) :
    c.Passes [] c.advance := by
  apply Passes.paren _ (.refl _)
  rcases hs with rfl | rfl
  · simp [Token.isParen, h]
  · simp [Token.isParen, h]

theorem trans (h : c.Passes ls d) (h' : d.Passes ms c') : c.Passes (ls ++ ms) c' := by
  induction h with
  | refl c => exact h'
  | paren hp _ ih => exact .paren hp (ih h')
  | leaf hl _ ih => exact .leaf hl (ih h')

theorem suffix (h : c.Passes ls c') : c'.eof = c.eof ∧ c'.rest <:+ c.rest := by
  induction h with
  | refl c => exact ⟨rfl, List.suffix_refl _⟩
  | paren _ _ ih => exact ⟨ih.1, ih.2.trans (List.tail_suffix _)⟩
  | leaf _ _ ih => exact ⟨ih.1, ih.2.trans (List.tail_suffix _)⟩

end Passes

/-- Before the end of the input there is a token to move past. -/
theorem rest_eq_cons {c : Cursor} (eof : c.eof.kind = .eof) (h : c.peek.kind ≠ .eof) :
    c.rest = c.peek :: c.advance.rest :=
  congrArg Cursor.rest (eq_rewind_of_inside eof h)

/-- The tokens that were passed. -/
theorem Passes.tokens {c c' : Cursor} {ls : List Leaf} (h : c.Passes ls c')
    (eof : c.eof.kind = .eof) :
    ∃ ts, c.rest = ts ++ c'.rest ∧ (∀ t ∈ ts, t.Inner) ∧
      List.Forall₂ Token.Shows (ts.filter (!·.isParen)) ls := by
  induction h with
  | refl c => exact ⟨[], rfl, fun _ h ↦ (by cases h), .nil⟩
  | @paren c c' ls hp _ ih =>
    have inner := Token.inner_of_isParen hp
    obtain ⟨ts, rest, hts, shown⟩ := ih eof
    refine ⟨c.peek :: ts, ?_, List.forall_mem_cons.mpr ⟨inner, hts⟩, ?_⟩
    · rw [rest_eq_cons eof inner.2, rest, List.cons_append]
    · rwa [List.filter_cons_of_neg (by simp [hp])]
  | @leaf c c' l ls hl _ ih =>
    have inner := Token.inner_of_isKept hl.isKept
    obtain ⟨ts, rest, hts, shown⟩ := ih eof
    refine ⟨c.peek :: ts, ?_, List.forall_mem_cons.mpr ⟨inner, hts⟩, ?_⟩
    · rw [rest_eq_cons eof inner.2, rest, List.cons_append]
    · rw [List.filter_cons_of_pos (by simp [Token.not_isParen_of_isKept hl.isKept])]
      exact .cons hl shown

/-- A cursor that sees words of a source text. -/
structure Spelled (c : Cursor) : Prop where
  eof : c.eof.kind = .eof
  words : ∀ t ∈ c.rest, t.isWord = true → Word t.text ∧ t.kind = .ofWord t.text

namespace Spelled

variable {c c' : Cursor} (h : c.Spelled)

include h

theorem suffix (eof : c'.eof = c.eof) (rest : c'.rest <:+ c.rest) : c'.Spelled :=
  ⟨eof ▸ h.eof, fun t ht ↦ h.words t (rest.subset ht)⟩

theorem advance : c.advance.Spelled :=
  h.suffix rfl (List.tail_suffix _)

theorem passes {ls : List Leaf} (hp : c.Passes ls c') : c'.Spelled :=
  h.suffix hp.suffix.1 hp.suffix.2

theorem word (hw : c.peek.isWord = true) : Word c.peek.text ∧ c.peek.Shows (.word c.peek.text) := by
  have inside : c.peek.kind ≠ .eof := Parser.ne_of_true_of_false hw rfl
  have mem : c.peek ∈ c.rest := by
    rw [rest_eq_cons h.eof inside]
    exact List.mem_cons_self
  obtain ⟨hword, kind⟩ := h.words _ mem hw
  exact ⟨hword, kind, rfl⟩

end Spelled

end Cursor

/-! ## What the rules read -/

namespace Parser

variable {α : Type}

theorem accept_cases {kind : Kind} {c c' : Cursor} {b : Bool} (h : accept kind c = .ok b c') :
    b = true ∧ c.peek.kind = kind ∧ c' = c.advance ∨ b = false ∧ c' = c := by
  rw [accept, peekKind_bind] at h
  by_cases hk : c.peek.kind = kind
  · rw [if_pos hk] at h
    cases h
    exact .inl ⟨rfl, hk, rfl⟩
  · rw [if_neg hk] at h
    cases h
    exact .inr ⟨rfl, rfl⟩

theorem expect_cases {kind : Kind} {what : Expected} {c c' : Cursor} {t : Token}
    (h : expect kind what c = .ok t c') :
    c.peek.kind = kind ∧ c' = c.advance := by
  rw [expect, peek_bind] at h
  by_cases hk : c.peek.kind = kind
  · rw [if_pos hk] at h
    cases h
    exact ⟨hk, rfl⟩
  · rw [if_neg hk] at h
    cases h

theorem expectSymbol_cases {s : Symbol} {what : Expected} {c c' : Cursor} {u : Unit}
    (h : expectSymbol s what c = .ok u c') : c.peek.kind = .symbol s ∧ c' = c.advance := by
  obtain ⟨t, d, ht, h⟩ := exists_of_bind_eq_ok h
  cases h
  exact expect_cases ht

/-- A successful run of the parser from `c` on reads the leaves of its result. -/
def ConsumesAt (c : Cursor) (p : Parser α) (leaves : α → List Leaf) : Prop :=
  ∀ ⦃a : α⦄ ⦃c' : Cursor⦄, p c = .ok a c' → c.Passes (leaves a) c'

def Consumes (p : Parser α) (leaves : α → List Leaf) : Prop :=
  ∀ ⦃c : Cursor⦄, c.Spelled → ConsumesAt c p leaves

theorem ConsumesAt.peek {c : Cursor} {k : Token → Parser α} {leaves : α → List Leaf}
    (h : ConsumesAt c (k c.peek) leaves) : ConsumesAt c (Parser.peek >>= k) leaves :=
  h

/-- A list with commas is not empty, and it shows its first item and the others behind commas. -/
theorem passes_commaList {item : Parser α} {leaves : α → List Leaf} (hitem : Consumes item leaves)
    {fuel : Nat} {c c' : Cursor} (hc : c.Spelled) {items : List α}
    (h : commaList item fuel c = .ok items c') :
    ∃ first rest, items = first :: rest ∧
      c.Passes (leaves first ++ rest.flatMap fun a ↦ .comma :: leaves a) c' := by
  induction fuel generalizing c items with
  | zero => cases h
  | succ fuel ih =>
    obtain ⟨first, d, hfirst, h⟩ := exists_of_bind_eq_ok h
    have passed := hitem hc hfirst
    obtain ⟨more, e, hmore, hrest⟩ := exists_of_bind_eq_ok h
    rcases accept_cases hmore with ⟨rfl, comma, rfl⟩ | ⟨rfl, rfl⟩
    · obtain ⟨others, f, hothers, h⟩ := exists_of_bind_eq_ok hrest
      cases h
      obtain ⟨second, rest, rfl, others⟩ := ih (hc.passes passed).advance hothers
      exact ⟨first, second :: rest, rfl, passed.trans (.leaf comma others)⟩
    · cases hrest
      exact ⟨first, [], rfl, passed.trans (.refl _)⟩

/-- The words that a type name is continued with, each behind a dot. -/
theorem passes_dottedName (eof : Token) (name : String) (rest : List Token)
    (hc : Cursor.Spelled ⟨rest, eof⟩) :
    ∃ ws : List String, (dottedName name rest).1 = ws.foldl (fun n v ↦ n ++ "." ++ v) name ∧
      (∀ v ∈ ws, Word v) ∧
      Cursor.Passes ⟨rest, eof⟩ (ws.flatMap fun v ↦ [.dot, .word v])
        ⟨(dottedName name rest).2, eof⟩ := by
  fun_induction dottedName name rest with
  | case1 name dot word rest h ih =>
    obtain ⟨isDot, isWord⟩ := h
    obtain ⟨hword, shown⟩ := hc.advance.word isWord
    obtain ⟨ws, joined, hws, passed⟩ := ih hc.advance.advance
    refine ⟨word.text :: ws, joined, List.forall_mem_cons.mpr ⟨hword, hws⟩, ?_⟩
    exact .leaf isDot (.leaf shown passed)
  | case2 name dot word rest h => exact ⟨[], rfl, fun _ h ↦ (by cases h), .refl _⟩
  | case3 name rest h => exact ⟨[], rfl, fun _ h ↦ (by cases h), .refl _⟩

theorem passes_typeName {c c' : Cursor} (hc : c.Spelled) {name : String}
    (h : typeName c = .ok name c') :
    ∃ (w : String) (ws : List String), name = ws.foldl (fun n v ↦ n ++ "." ++ v) w ∧ Word w ∧
      (∀ v ∈ ws, Word v) ∧
      c.Passes (.word w :: ws.flatMap fun v ↦ [.dot, .word v]) c' := by
  rw [typeName, peek_bind] at h
  by_cases isWord : c.peek.isWord = true
  case neg =>
    rw [if_neg isWord] at h
    cases h
  rw [if_pos isWord] at h
  obtain ⟨hword, shown⟩ := hc.word isWord
  obtain ⟨ws, joined, hws, passed⟩ := passes_dottedName c.eof c.peek.text c.advance.rest hc.advance
  set type := (dottedName c.peek.text c.advance.rest).1
  set d : Cursor := ⟨(dottedName c.peek.text c.advance.rest).2, c.eof⟩
  replace h : (if d.peek.kind = .symbol .leftParen ∧ d.advance.peek.kind = .symbol .rightParen then
      (do advance; advance; return type : Parser String) else return type) d = .ok name c' := h
  -- empty parentheses behind the name leave no trace in it
  have behind : name = type ∧ d.Passes [] c' := by
    by_cases parens : d.peek.kind = .symbol .leftParen ∧ d.advance.peek.kind = .symbol .rightParen
    · rw [if_pos parens] at h
      obtain ⟨result, rfl⟩ := EStateM.Result.ok.inj h
      have opened := Cursor.Passes.symbol_paren parens.1 (.inl rfl)
      exact ⟨result.symm, opened.trans (.symbol_paren parens.2 (.inr rfl))⟩
    · rw [if_neg parens] at h
      obtain ⟨result, rfl⟩ := EStateM.Result.ok.inj h
      exact ⟨result.symm, .refl _⟩
  obtain ⟨rfl, empty⟩ := behind
  refine ⟨c.peek.text, ws, joined, hword, hws, .leaf shown ?_⟩
  have passed := passed.trans empty
  rwa [List.append_nil] at passed

section Expression

variable {expr : Parser Expr} (hexpr : Consumes expr Expr.yield)

include hexpr

theorem passes_arguments {fuel : Nat} {c c' : Cursor} (hc : c.Spelled) {args : List Expr}
    (h : arguments expr fuel c = .ok args c') (callee : Expr) :
    ∃ ls, (Expr.call callee args).yield = callee.yield ++ ls ∧ c.Passes ls c' := by
  obtain ⟨empty, d, hempty, hargs⟩ := exists_of_bind_eq_ok h
  rcases accept_cases hempty with ⟨rfl, close, rfl⟩ | ⟨rfl, rfl⟩
  · cases hargs
    refine ⟨[], ?_, .symbol_paren close (.inr rfl)⟩
    rw [Expr.yield]
    rfl
  · obtain ⟨args, e, hlist, hend⟩ := exists_of_bind_eq_ok hargs
    obtain ⟨_, f, hclose, hpure⟩ := exists_of_bind_eq_ok hend
    cases hpure
    obtain ⟨close, rfl⟩ := expectSymbol_cases hclose
    obtain ⟨first, rest, rfl, passed⟩ := passes_commaList hexpr hc hlist
    refine ⟨_, Expr.yield_call callee first rest, ?_⟩
    have closed := passed.trans (.symbol_paren close (.inr rfl))
    rwa [List.append_nil] at closed

theorem consumes_primary : Consumes (primary expr) Expr.yield := by
  intro c hc
  apply ConsumesAt.peek
  split
  case h_1 hk =>
    split
    case h_1 x hx =>
      rintro _ _ ⟨⟩
      rw [Expr.yield]
      exact .single ⟨hk, hx⟩
    case h_2 => rintro _ _ ⟨⟩
  case h_2 hk =>
    rintro _ _ ⟨⟩
    rw [Expr.yield]
    exact .single ⟨hk, rfl⟩
  case h_3 hk =>
    rintro _ _ ⟨⟩
    rw [Expr.yield]
    exact .single (hc.word (congrArg Kind.isWord hk)).2
  case h_4 hk =>
    rintro _ _ ⟨⟩
    rw [Expr.yield]
    exact .single (hc.word (congrArg Kind.isWord hk)).2
  case h_5 hk =>
    intro e c' h
    obtain ⟨_, d, hopen, h⟩ := exists_of_bind_eq_ok h
    cases hopen
    obtain ⟨e, d, he, h⟩ := exists_of_bind_eq_ok h
    obtain ⟨_, f, hclose, h⟩ := exists_of_bind_eq_ok h
    cases h
    obtain ⟨close, rfl⟩ := expectSymbol_cases hclose
    have opened := Cursor.Passes.symbol_paren hk (.inl rfl)
    have inside := hexpr hc.advance he
    have closed := (opened.trans inside).trans (.symbol_paren close (.inr rfl))
    rwa [List.append_nil] at closed
  case h_6 hk =>
    intro e c' h
    obtain ⟨_, d, hnew, h⟩ := exists_of_bind_eq_ok h
    cases hnew
    obtain ⟨name, f, hname, h⟩ := exists_of_bind_eq_ok h
    cases h
    obtain ⟨w, ws, rfl, hw, hws, passed⟩ := passes_typeName hc.advance hname
    rw [Expr.yield_new hw hws]
    exact .leaf hk passed
  case h_7 => rintro _ _ ⟨⟩
  case h_8 => rintro _ _ ⟨⟩

theorem passes_suffixes {fuel : Nat} {c c' : Cursor} (hc : c.Spelled) {e a : Expr}
    (h : suffixes expr fuel e c = .ok a c') : ∃ ls, a.yield = e.yield ++ ls ∧ c.Passes ls c' := by
  induction fuel generalizing c e with
  | zero => cases h
  | succ fuel ih =>
    obtain ⟨dotted, d, hdotted, hrest⟩ := exists_of_bind_eq_ok h
    rcases accept_cases hdotted with ⟨rfl, dot, rfl⟩ | ⟨rfl, rfl⟩
    · rw [if_pos rfl, peek_bind] at hrest
      by_cases isWord : c.advance.peek.isWord = true
      case neg =>
        rw [if_neg isWord] at hrest
        cases hrest
      rw [if_pos isWord] at hrest
      obtain ⟨ls, yield, passed⟩ := ih hc.advance.advance hrest
      refine ⟨.dot :: .word c.advance.peek.text :: ls, ?_, ?_⟩
      · rw [yield, Expr.yield, List.append_assoc]
        rfl
      · exact .leaf dot (.leaf (hc.advance.word isWord).2 passed)
    · obtain ⟨called, d, hcalled, hmore⟩ := exists_of_bind_eq_ok hrest
      rcases accept_cases hcalled with ⟨rfl, opening, rfl⟩ | ⟨rfl, rfl⟩
      · obtain ⟨args, f, hargs, hbehind⟩ := exists_of_bind_eq_ok hmore
        obtain ⟨ls, call, inside⟩ := passes_arguments hexpr hc.advance hargs e
        obtain ⟨ms, yield, passed⟩ := ih (hc.advance.passes inside) hbehind
        refine ⟨ls ++ ms, ?_, ?_⟩
        · rw [yield, call, List.append_assoc]
        · exact ((Cursor.Passes.symbol_paren opening (.inl rfl)).trans inside).trans passed
      · cases hmore
        exact ⟨[], (List.append_nil _).symm, .refl _⟩

theorem consumes_chain (fuel : Nat) : Consumes (chain expr fuel) Expr.yield := by
  intro c hc e c' h
  obtain ⟨first, d, hfirst, h⟩ := exists_of_bind_eq_ok h
  have passed := consumes_primary hexpr hc hfirst
  obtain ⟨ls, yield, more⟩ := passes_suffixes hexpr (hc.passes passed) h
  rw [yield]
  exact passed.trans more

end Expression

/-- The token that is read as a prefix operator. -/
theorem kind_eq_of_unary {kind : Kind} {op : UnaryOp} (h : UnaryOp.ofKind? kind = some op) :
    kind = op.token.kind := by
  unfold UnaryOp.ofKind? at h
  split at h <;> cases h <;> rfl

/-- The token that is read as a binary operator. -/
theorem kind_eq_of_binary {kind : Kind} {op : BinaryOp} (h : BinaryOp.ofKind? kind = some op) :
    kind = op.token.kind := by
  unfold BinaryOp.ofKind? at h
  split at h <;> cases h <;> rfl

section Operators

variable {sub : Nat → Parser Expr} (hsub : ∀ level, Consumes (sub level) Expr.yield)

include hsub

theorem consumes_operand (fuel level : Nat) : Consumes (operand sub fuel level) Expr.yield := by
  intro c hc e c' h
  rw [operand, peekKind_bind] at h
  cases kind : UnaryOp.ofKind? c.peek.kind with
  | some op =>
    rw [kind] at h
    obtain ⟨_, d, hop, h⟩ := exists_of_bind_eq_ok h
    cases hop
    obtain ⟨e, d, he, h⟩ := exists_of_bind_eq_ok h
    cases h
    rw [Expr.yield]
    exact .leaf (kind_eq_of_unary kind) (hsub _ hc.advance he)
  | none =>
    rw [kind] at h
    exact consumes_chain (hsub 1) fuel hc h

theorem passes_operators {level fuel : Nat} {c c' : Cursor} (hc : c.Spelled) {left a : Expr}
    (h : operators sub level fuel left c = .ok a c') :
    ∃ ls, a.yield = left.yield ++ ls ∧ c.Passes ls c' := by
  induction fuel generalizing c left with
  | zero => cases h
  | succ fuel ih =>
    have stopped (h : (Pure.pure left : Parser Expr) c = .ok a c') :
        ∃ ls, a.yield = left.yield ++ ls ∧ c.Passes ls c' := by
      cases h
      exact ⟨[], (List.append_nil _).symm, .refl _⟩
    rw [operators, peekKind_bind] at h
    cases kind : BinaryOp.ofKind? c.peek.kind with
    | none =>
      rw [kind] at h
      exact stopped h
    | some op =>
      simp only [kind] at h
      by_cases low : op.level < level
      · exact stopped (by rwa [if_pos low] at h)
      rw [if_neg low] at h
      obtain ⟨_, d, hop, h⟩ := exists_of_bind_eq_ok h
      cases hop
      obtain ⟨right, d, hright, h⟩ := exists_of_bind_eq_ok h
      have read := hsub _ hc.advance hright
      obtain ⟨ls, yield, passed⟩ := ih (hc.advance.passes read) h
      refine ⟨.binary op :: (right.yield ++ ls), ?_, .leaf (kind_eq_of_binary kind)
        (read.trans passed)⟩
      rw [yield, Expr.yield, List.append_assoc]
      rfl

end Operators

theorem consumes_expression (fuel level : Nat) : Consumes (expression fuel level) Expr.yield := by
  induction fuel generalizing level with
  | zero =>
    intro c hc e c' h
    cases h
  | succ fuel ih =>
    intro c hc e c' h
    obtain ⟨left, d, hleft, h⟩ := exists_of_bind_eq_ok h
    have passed := consumes_operand ih fuel level hc hleft
    obtain ⟨ls, yield, more⟩ := passes_operators ih (hc.passes passed) h
    rw [yield]
    exact passed.trans more

/-- Between separators stand the tokens of the expression. -/
theorem tokens_wholeExpression {fuel : Nat} {c c' : Cursor} (hc : c.Spelled) {e : Expr}
    (h : wholeExpression fuel c = .ok e c') :
    ∃ before ts after, c.rest = before ++ (ts ++ (after ++ c'.rest)) ∧
      (∀ t ∈ before, isSeparator t = true) ∧
      (∀ t ∈ ts, t.Inner) ∧ (∀ t ∈ after, isSeparator t = true) ∧
      List.Forall₂ Token.Shows (ts.filter (!·.isParen)) e.yield ∧ c'.eof = c.eof ∧
      c'.peek.kind = .eof := by
  have skipped {d d' : Cursor} {u : Unit} (h : skipSeparators d = .ok u d') :
      ∃ ts, d.rest = ts ++ d'.rest ∧ (∀ t ∈ ts, isSeparator t = true) ∧ d'.eof = d.eof := by
    cases h
    exact ⟨_, List.takeWhile_append_dropWhile.symm, fun _ ↦ List.mem_takeWhile_imp, rfl⟩
  obtain ⟨_, d, hbefore, h⟩ := exists_of_bind_eq_ok h
  obtain ⟨before, hrest, separators, eof⟩ := skipped hbefore
  have hd : d.Spelled := hc.suffix eof ⟨before, hrest.symm⟩
  obtain ⟨e, f, he, h⟩ := exists_of_bind_eq_ok h
  have passed := consumes_expression fuel 1 hd he
  obtain ⟨ts, tokens, inner, shown⟩ := passed.tokens hd.eof
  obtain ⟨_, g, hafter, h⟩ := exists_of_bind_eq_ok h
  obtain ⟨after, behind, separators', eof'⟩ := skipped hafter
  rw [peekKind_bind] at h
  by_cases ended : g.peek.kind = .eof
  · rw [if_pos ended] at h
    cases h
    refine ⟨before, ts, after, ?_, separators, inner, separators', shown, ?_, ended⟩
    · rw [hrest, tokens, behind]
    · rw [eof', passed.suffix.1, eof]
  · rw [if_neg ended] at h
    cases h

end Parser

/-! ## The tokens of a source text -/

/-- A list of tokens without the line ends and colons at its two ends. -/
def trimmed (ts : List Token) : List Token :=
  (ts.dropWhile Parser.isSeparator).rdropWhile Parser.isSeparator

theorem trimmed_append {before ts after : List Token}
    (hbefore : ∀ t ∈ before, Parser.isSeparator t = true) (inner : ∀ t ∈ ts, t.Inner)
    (hafter : ∀ t ∈ after, Parser.isSeparator t = true) :
    trimmed (before ++ (ts ++ after)) = ts := by
  have kept {us : List Token} (h : ∀ t ∈ us, t.Inner) : us.dropWhile Parser.isSeparator = us := by
    cases us with
    | nil => rfl
    | cons u us =>
      apply List.dropWhile_cons_of_neg
      rw [(h u List.mem_cons_self).1]
      decide
  have reversed : ts.reverse.dropWhile Parser.isSeparator = ts.reverse :=
    kept fun t ht ↦ inner t (List.mem_reverse.mp ht)
  rw [trimmed, List.dropWhile_append_of_pos hbefore]
  cases ts with
  | nil =>
    rw [List.nil_append, List.dropWhile_eq_nil_iff.mpr hafter]
    rfl
  | cons t ts =>
    have first : ¬Parser.isSeparator t = true := by
      rw [(inner t List.mem_cons_self).1]
      decide
    rw [List.cons_append, List.dropWhile_cons_of_neg first, ← List.cons_append, List.rdropWhile,
      List.reverse_append, List.dropWhile_append_of_pos fun u hu ↦
        hafter u (List.mem_reverse.mp hu), reversed,
      List.reverse_reverse]

theorem spelled_ofTokens_tokenize (source : String) :
    (Cursor.ofTokens (Token.tokenize source)).Spelled := by
  constructor
  · exact Cursor.kind_eof_ofTokens _
  · intro t ht isWord
    have spelled := Token.spelled_of_mem_tokenize ht (Parser.ne_of_true_of_false isWord rfl)
      (Parser.ne_of_true_of_false isWord rfl)
    rw [Token.isWord] at isWord
    cases kind : t.kind with
    | identifier =>
      rw [kind] at spelled
      exact ⟨spelled.1, spelled.2.symm⟩
    | keyword k =>
      rw [kind] at spelled
      exact ⟨spelled.1, spelled.2.symm⟩
    | _ =>
      rw [kind] at isWord
      cases isWord

/-- A cursor in a source text that sees the end of the input is before the last token. -/
theorem rest_eq_of_eof_ahead {source : String} {ts : List Token} {c : Cursor}
    (tokens : Token.tokenize source = ts ++ c.rest) (inside : ∀ t ∈ ts, t.kind ≠ .eof)
    (ended : c.peek.kind = .eof) : c.rest = [c.peek] := by
  obtain ⟨⟨line, last⟩, earlier⟩ := (Token.covers_tokenize source).last
  rw [tokens] at last earlier
  unfold Cursor.peek at *
  cases rest : c.rest with
  | nil =>
    rw [rest, List.append_nil] at last
    exact absurd rfl (inside _ (List.mem_of_getLast? last))
  | cons t more =>
    cases more with
    | nil => rfl
    | cons u more =>
      rw [rest] at earlier ended
      exact absurd ended (earlier t (by simp))

/-- Parsing keeps the tokens of an expression. What is left of them without the line ends and colons
around the expression, and without parentheses, is the yield of the expression. -/
theorem parseExpression_yield {source : String} {e : Expr}
    (h : parseExpression (Token.tokenize source) = .ok e) :
    ∃ ts eof, Token.tokenize source = ts ++ [eof] ∧ eof.kind = .eof ∧
      List.Forall₂ Token.Shows ((trimmed ts).filter (!·.isParen)) e.yield := by
  obtain ⟨c', h⟩ := Parser.exists_of_run_eq_ok h
  have spelled := spelled_ofTokens_tokenize source
  obtain ⟨before, ts, after, tokens, hbefore, inner, hafter, shown, eof, ended⟩ :=
    Parser.tokens_wholeExpression spelled h
  have inside : ∀ t ∈ before ++ (ts ++ after), t.kind ≠ .eof := by
    have separator {t : Token} (h : Parser.isSeparator t = true) : t.kind ≠ .eof := by
      intro hk
      simp [Parser.isSeparator, hk] at h
    intro t ht
    rcases List.mem_append.mp ht with ht | ht
    · exact separator (hbefore t ht)
    rcases List.mem_append.mp ht with ht | ht
    · exact (inner t ht).2
    · exact separator (hafter t ht)
  have all : Token.tokenize source = before ++ (ts ++ after) ++ c'.rest := by
    rw [List.append_assoc, List.append_assoc]
    exact tokens
  refine ⟨before ++ (ts ++ after), c'.peek, ?_, ended, ?_⟩
  · rw [all, ← rest_eq_of_eof_ahead all inside ended]
  · rwa [trimmed_append hbefore inner hafter]

theorem parseExpression_yield_created :
    let source := "\n(Not new A.B()).Item((\"c\"), -d) :"
    let e : Expr :=
      .call (.member (.unary .not (.new "A.B")) "Item") [.text "c", .unary .neg (.name "d")]
    parseExpression (Token.tokenize source) = .ok e ∧
      ∃ ts eof, Token.tokenize source = ts ++ [eof] ∧ eof.kind = .eof ∧
        List.Forall₂ Token.Shows ((trimmed ts).filter (!·.isParen))
          [.unary .not, .new, .word "A", .dot, .word "B", .dot, .word "Item", .text "c", .comma,
            .unary .neg, .word "d"] := by
  intro source e
  have scanned : Token.tokenize source = [
      ⟨.newline, "\n", 1, 0, 1⟩, ⟨.symbol .leftParen, "(", 2, 1, 2⟩,
      ⟨.keyword .notKw, "Not", 2, 2, 5⟩, ⟨.keyword .newKw, "new", 2, 6, 9⟩,
      ⟨.identifier, "A", 2, 10, 11⟩, ⟨.symbol .dot, ".", 2, 11, 12⟩, ⟨.identifier, "B", 2, 12, 13⟩,
      ⟨.symbol .leftParen, "(", 2, 13, 14⟩, ⟨.symbol .rightParen, ")", 2, 14, 15⟩,
      ⟨.symbol .rightParen, ")", 2, 15, 16⟩, ⟨.symbol .dot, ".", 2, 16, 17⟩,
      ⟨.identifier, "Item", 2, 17, 21⟩, ⟨.symbol .leftParen, "(", 2, 21, 22⟩,
      ⟨.symbol .leftParen, "(", 2, 22, 23⟩, ⟨.text, "c", 2, 23, 26⟩,
      ⟨.symbol .rightParen, ")", 2, 26, 27⟩, ⟨.symbol .comma, ",", 2, 27, 28⟩,
      ⟨.symbol .minus, "-", 2, 29, 30⟩, ⟨.identifier, "d", 2, 30, 31⟩,
      ⟨.symbol .rightParen, ")", 2, 31, 32⟩, ⟨.symbol .colon, ":", 2, 33, 34⟩,
      ⟨.eof, "", 2, 34, 34⟩] := by
    decide +kernel
  have parsed : parseExpression (Token.tokenize source) = .ok e := by
    rw [scanned]
    rfl
  have words : typeWords "A.B" = ["A", "B"] := by decide +kernel
  have leaves :
      e.yield = [.unary .not, .new, .word "A", .dot, .word "B", .dot, .word "Item", .text "c",
        .comma, .unary .neg, .word "d"] := by
    simp [e, Expr.yield, words]
  have kept := parseExpression_yield parsed
  rw [leaves] at kept
  exact ⟨parsed, kept⟩

end MiniBasic
