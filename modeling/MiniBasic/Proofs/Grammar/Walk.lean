import MiniBasic.Proofs.Grammar.Comparison

/-!
# Comparing the rules of the grammar

The rules are gone through once, for all comparisons. What the second parser builds need not be what
the first one builds: `Trees` says which of their results correspond, and that parts that correspond
make trees that do. Each rule is then shown to follow itself, with bounds on nesting that may differ
and with the rules inside it as arguments.
-/

namespace MiniBasic

namespace Parser

/-- The statements of a whole token list. -/
def program (fuel : Nat) : Parser Program :=
  block (statement fuel) [] fuel

theorem dottedName_of_not {name : String} {ts : List Token}
    (h : ∀ dot word rest, ts = dot :: word :: rest →
      ¬(dot.kind = .symbol .dot ∧ word.isWord = true)) :
    dottedName name ts = (name, ts) := by
  match ts, h with
  | [], _ => rfl
  | [_], _ => rfl
  | dot :: word :: rest, h => rw [dottedName, if_neg (h dot word rest rfl)]

theorem skipEndIf_eq : skipEndIf = (do
    if (← peekKind) = .keyword .endKw ∧ (← secondKind) = .keyword .ifKw then
      advance
      advance
      return ()
    else
      return ()) := by
  funext c
  by_cases here : c.peek.kind = .keyword .endKw ∧ c.peekSecond.kind = .keyword .ifKw
  · exact (congrFun (if_pos (decide_eq_true here)) c).trans (congrFun (if_pos here) c).symm
  · exact (congrFun (if_neg (by simpa using here)) c).trans (congrFun (if_neg here) c).symm

end Parser

namespace Comparison

open Token (Any Inside)

/-- The results that correspond to each other. -/
structure Trees (C : Comparison) where
  SameType : String → String → Prop
  SameExpr : Expr → Expr → Prop
  /-- What begins with a name may be assigned to. -/
  Root : Expr → Prop
  SameParam : Param → Param → Prop
  SameDeclarator : Declarator → Declarator → Prop
  SameStmt : Stmt → Stmt → Prop
  word {t : Token} : C.Good t → t.isWord = true → SameType t.text (C.see t).text
  dotted {a b : String} {t : Token} : SameType a b → C.Good t → t.isWord = true →
    SameType (a ++ "." ++ t.text) (b ++ "." ++ (C.see t).text)
  number {t : Token} {x : Float} : C.Good t → t.kind = .number →
    Parser.literal? t.text = some x → SameExpr (.number x) (.number x)
  text {t : Token} : C.Good t → t.kind = .text → SameExpr (.text t.text) (.text (C.see t).text)
  name {t : Token} : C.Good t → t.kind = .identifier ∨ t.kind = .keyword .emptyKw →
    SameExpr (.name t.text) (.name (C.see t).text)
  new {a b : String} : SameType a b → SameExpr (.new a) (.new b)
  unary (op : UnaryOp) {e e' : Expr} : SameExpr e e' → SameExpr (.unary op e) (.unary op e')
  binary (op : BinaryOp) {l l' r r' : Expr} : SameExpr l l' → SameExpr r r' →
    SameExpr (.binary op l r) (.binary op l' r')
  member {e e' : Expr} {t : Token} : SameExpr e e' → C.Good t → t.isWord = true →
    SameExpr (.member e t.text) (.member e' (C.see t).text)
  call {e e' : Expr} {args args' : List Expr} : SameExpr e e' → List.Forall₂ SameExpr args args' →
    SameExpr (.call e args) (.call e' args')
  root_name {t : Token} : C.Good t → t.kind = .identifier → Root (.name t.text)
  root_member {e : Expr} (property : String) : Root e → Root (.member e property)
  root_call {e : Expr} (args : List Expr) : Root e → Root (.call e args)
  openCall? {e e' : Expr} (kind : Kind) : SameExpr e e' →
    Option.Rel (fun x y ↦ SameExpr x.1 y.1 ∧ SameExpr x.2 y.2) (Parser.openCall? e kind)
      (Parser.openCall? e' kind)
  param {a b : String} (byValue : Bool) {e e' : Option Expr} : C.Name a b →
    Option.Rel SameExpr e e' → SameParam ⟨a, byValue, e⟩ ⟨b, byValue, e'⟩
  declarator {a b : String} {es es' : Option (List Expr)} {type type' : Option String} :
    C.Name a b → Option.Rel (List.Forall₂ SameExpr) es es' → Option.Rel SameType type type' →
    SameDeclarator ⟨a, es, type⟩ ⟨b, es', type'⟩
  forLoop {a b : String} {start start' stop stop' : Expr} {step step' : Option Expr}
    {body body' : List Stmt} {closing closing' : Option String} : C.Name a b →
    SameExpr start start' → SameExpr stop stop' → Option.Rel SameExpr step step' →
    List.Forall₂ SameStmt body body' → Option.Rel C.Name closing closing' →
    SameStmt (.forLoop a start stop step body closing)
      (.forLoop b start' stop' step' body' closing')
  ifThen {e e' : Expr} {body body' : List Stmt} : SameExpr e e' → List.Forall₂ SameStmt body body' →
    SameStmt (.ifThen e body .none) (.ifThen e' body' .none)
  ifElse {e e' : Expr} {body body' other other' : List Stmt} : SameExpr e e' →
    List.Forall₂ SameStmt body body' → List.Forall₂ SameStmt other other' →
    SameStmt (.ifThen e body (.block other)) (.ifThen e' body' (.block other'))
  ifElseIf {e e' next next' : Expr} {body body' nextBody nextBody' : List Stmt}
    {other other' : Alternative} : SameExpr e e' → List.Forall₂ SameStmt body body' →
    SameStmt (.ifThen next nextBody other) (.ifThen next' nextBody' other') →
    SameStmt (.ifThen e body (.elseIf next nextBody other))
      (.ifThen e' body' (.elseIf next' nextBody' other'))
  doWhile {e e' : Expr} {body body' : List Stmt} : SameExpr e e' →
    List.Forall₂ SameStmt body body' → SameStmt (.doWhile e body) (.doWhile e' body')
  procedure (kind : ProcedureKind) {a b : String} {params params' : List Param}
    {body body' : List Stmt} : C.Name a b → List.Forall₂ SameParam params params' →
    List.Forall₂ SameStmt body body' →
    SameStmt (.procedure kind a params body) (.procedure kind b params' body')
  dim {ds ds' : List Declarator} : List.Forall₂ SameDeclarator ds ds' → ds ≠ [] →
    SameStmt (.dim ds) (.dim ds')
  const {a b : String} {e e' : Expr} : C.Name a b → SameExpr e e' →
    SameStmt (.const a e) (.const b e')
  set {e e' value value' : Expr} : SameExpr e e' → SameExpr value value' →
    SameStmt (.set e value) (.set e' value')
  assign {e e' value value' : Expr} : SameExpr e e' → Root e → SameExpr value value' →
    SameStmt (.assign e value) (.assign e' value')
  goTo {t : Token} : C.Good t → t.kind = .identifier ∨ t.kind = .number →
    SameStmt (.onError (.goTo t.text)) (.onError (.goTo (C.see t).text))
  resumeNext : SameStmt (.onError .resumeNext) (.onError .resumeNext)
  exit (target : ExitTarget) : SameStmt (.exit target) (.exit target)
  erase {names names' : List String} : List.Forall₂ C.Name names names' → names ≠ [] →
    SameStmt (.erase names) (.erase names')
  reDim {a b : String} {es es' : List Expr} {preserve : Bool} : C.Name a b →
    preserve = true ∨ Text.sameWord a "preserve" = false → List.Forall₂ SameExpr es es' →
    SameStmt (.reDim a es preserve) (.reDim b es' preserve)
  explicit : SameStmt (.option .explicit) (.option .explicit)
  base (x : Float) : SameStmt (.option (.base (Number.toWord Number.wholePart x)))
    (.option (.base (Number.toWord Number.wholePart x)))
  compare {a b : String} : C.Name a b → SameStmt (.option (.compare a)) (.option (.compare b))
  label {a b : String} : C.Name a b → SameStmt (.label a) (.label b)
  callStmt {e e' : Expr} : SameExpr e e' → SameStmt (.call e.asCall) (.call e'.asCall)

/-- Two expressions that correspond to each other and may be assigned to. -/
def Trees.SameTarget {C : Comparison} (T : C.Trees) (e e' : Expr) : Prop :=
  T.SameExpr e e' ∧ T.Root e

/-- The parts of two conditionals that correspond to each other. -/
def Trees.SameParts {C : Comparison} (T : C.Trees) (x y : Expr × List Stmt × Alternative) : Prop :=
  T.SameStmt (.ifThen x.1 x.2.1 x.2.2) (.ifThen y.1 y.2.1 y.2.2)

variable {α : Type} {R : α → α → Prop} {C : Comparison} (T : C.Trees) {k n m : Nat}
  {P : Token → Prop} {moves : Prop}

/-! ## Type names -/

/-- Where the words of a type name end, the second parser sees them end. -/
theorem dottedName_of_view {c d : Cursor} (view : C.View c d)
    (ends : ¬(c.peek.kind = .symbol .dot ∧ c.peekSecond.isWord = true)) (name : String) :
    Parser.dottedName name d.rest = (name, d.rest) := by
  refine Parser.dottedName_of_not fun dot word rest hd ↦ ?_
  rintro ⟨hdot, hword⟩
  have next : d.peek = dot := by rw [Cursor.peek, hd]; rfl
  have second : d.peekSecond = word := by rw [Cursor.peekSecond, hd]; rfl
  have hk : c.peek.kind = .symbol .dot := by
    rwa [← C.kind_see_eq_iff (.symbol .dot), ← C.next view, next]
  have inside : c.peek.Inside := hk.trans_ne Kind.noConfusion
  refine ends ⟨hk, ?_⟩
  rwa [← C.isWord_see, ← C.second view inside, second]

/-- The further words of a type name are settled by these words and by two tokens behind them. -/
theorem exists_dottedName {a b : String} (first : T.SameType a b) (ts : List Token) {stop : Token}
    (admits : C.Admits ⟨ts, stop⟩) :
    ∃ passed name, ts = passed ++ (Parser.dottedName a ts).2 ∧ (∀ t ∈ passed, t.Inside) ∧
      T.SameType (Parser.dottedName a ts).1 name ∧
      ∀ d : Cursor, C.View ⟨(Parser.dottedName a ts).2, stop⟩ d →
        Parser.dottedName b (passed.map C.see ++ d.rest) = (name, d.rest) := by
  fun_induction Parser.dottedName a ts generalizing b with
  | case1 a dot word rest h ih =>
    have inside := Token.inside_of_isWord h.2
    have good : C.Good word := admits.good word (by simp) inside
    obtain ⟨passed, name, split, inside', same, run⟩ :=
      ih (T.dotted first good h.2) (admits.along ⟨rfl, [dot, word], rfl⟩)
    refine ⟨dot :: word :: passed, name, congrArg (dot :: word :: ·) split, ?_, same,
      fun d view ↦ ?_⟩
    · exact List.forall_mem_cons.mpr ⟨h.1.trans_ne Kind.noConfusion,
        List.forall_mem_cons.mpr ⟨inside, inside'⟩⟩
    · have seen : (C.see dot).kind = .symbol .dot ∧ (C.see word).isWord = true :=
        ⟨(C.kind_see_eq_iff (.symbol .dot)).mpr h.1, C.isWord_see.trans h.2⟩
      rw [List.map_cons, List.map_cons, List.cons_append, List.cons_append, Parser.dottedName,
        if_pos seen]
      exact run d view
  | case2 a dot word rest h =>
    refine ⟨[], b, rfl, List.forall_mem_nil _, first, fun d view ↦ ?_⟩
    exact dottedName_of_view view h b
  | case3 a ts short =>
    refine ⟨[], b, rfl, List.forall_mem_nil _, first, fun d view ↦ ?_⟩
    refine dottedName_of_view view (fun h ↦ ?_) b
    obtain ⟨hdot, hword⟩ := h
    rcases ts with _ | ⟨dot, _ | ⟨word, rest⟩⟩
    · exact absurd admits.eof (hdot.trans_ne Kind.noConfusion)
    · exact Token.inside_of_isWord hword admits.eof
    · exact short _ _ _ rfl

theorem follows_dottedName {a b : String} (first : T.SameType a b) :
    C.Follows k P False T.SameType
      (modifyGet fun c : Cursor ↦
        ((Parser.dottedName a c.rest).1, { c with rest := (Parser.dottedName a c.rest).2 }))
      (modifyGet fun c : Cursor ↦
        ((Parser.dottedName b c.rest).1, { c with rest := (Parser.dottedName b c.rest).2 })) := by
  intro c admits _ _
  obtain ⟨passed, name, split, inside, same, run⟩ := exists_dottedName T first c.rest admits
  let c' : Cursor := ⟨(Parser.dottedName a c.rest).2, c.eof⟩
  have left : c = c'.rewind passed := congrArg (Cursor.mk · c.eof) split
  refine .ok passed left inside False.elim same rfl fun d view ↦ ?_
  change EStateM.Result.ok (Parser.dottedName b (passed.map C.see ++ d.rest)).1
    (Cursor.mk (Parser.dottedName b (passed.map C.see ++ d.rest)).2 d.eof) = _
  rw [run d view]

theorem follows_typeName :
    C.Follows k P moves T.SameType Parser.typeName Parser.typeName := by
  refine .peek_advance (fun t _ ↦ by rw [C.isWord_see]) (fun t ↦ Token.inside_of_isWord)
    (Nat.le_succ k) (fun t _ good hw ↦ ?_) (.unexpected _)
  refine (follows_dottedName T (T.word good hw)).bind fun a b same ↦ ?_
  exact .pair (.symbol .leftParen) (.symbol .rightParen) (.pure same) (.pure same)

/-! ## Expressions -/

section Expressions

variable {expr expr' : Parser Expr} (hexpr : C.Follows k Any False T.SameExpr expr expr')

include hexpr

theorem follows_arguments (fuel : C.Fuel k n m) :
    C.Follows k Any False (List.Forall₂ T.SameExpr) (Parser.arguments expr n)
      (Parser.arguments expr' m) := by
  refine .accept (.symbol .rightParen) (.pure .nil) ?_
  refine (Follows.commaList fuel hexpr).bind fun args args' same ↦ ?_
  exact (Follows.expectSymbol _ _).bind fun _ _ _ ↦ .pure same.1

theorem follows_primary :
    C.Follows (k + 1) P moves T.SameExpr (Parser.primary expr) (Parser.primary expr') := by
  refine .peek fun t _ good ↦ ?_
  by_cases ht : t.kind = .eof
  · rcases C.kind_see_of_eof ht with same | ⟨-, line⟩
    · rw [ht, same]
      exact .unexpected _
    · rw [ht, line]
      exact .unexpected _
  have inside (u : Token) (here : u = t) : u.Inside := here ▸ ht
  replace good := good ht
  rw [C.kind_see ht]
  cases hk : t.kind with
  | number =>
    dsimp only
    rw [C.literal?_see good hk]
    cases hx : Parser.literal? t.text with
    | none => exact .throw (fun _ here ↦ here ▸ ⟨hk, hx⟩) Complaint.noConfusion
    | some x => exact .advance inside (.pure (T.number good hk hx))
  | text => exact .advance inside (.pure (T.text good hk))
  | identifier => exact .advance inside (.pure (T.name good (.inl hk)))
  | symbol s =>
    cases s with
    | leftParen =>
      refine .advance inside (hexpr.bind fun e e' same ↦ ?_)
      exact (Follows.expectSymbol _ _).bind fun _ _ _ ↦ .pure same
    | _ => exact .unexpected _
  | keyword word =>
    cases word with
    | emptyKw => exact .advance inside (.pure (T.name good (.inr hk)))
    | newKw => exact .advance inside ((follows_typeName T).map fun _ _ ↦ T.new)
    | _ => exact .unexpected _
  | unknown => exact .throw (fun _ here ↦ here ▸ hk) Complaint.noConfusion
  | newline => exact .unexpected _
  | eof => exact absurd hk ht

omit hexpr in
/-- A name that may be assigned to. -/
theorem follows_primary_name (name : ∀ t, P t → t.kind = .identifier) :
    C.Follows (k + 1) P moves T.SameTarget (Parser.primary expr) (Parser.primary expr') := by
  refine .peek fun t next good ↦ ?_
  have hk := name t next
  have inside : t.Inside := hk.trans_ne Kind.noConfusion
  rw [C.kind_see inside, hk]
  refine .advance (fun _ here ↦ here ▸ inside) (.pure ⟨T.name (good inside) (.inl hk), ?_⟩)
  exact T.root_name (good inside) hk

/-- Suffixes keep the root of an expression. -/
theorem follows_suffixes (fuel : C.Fuel k n m) {e e' : Expr} (same : T.SameExpr e e') :
    C.Follows k Any False (fun a a' ↦ T.SameExpr a a' ∧ (T.Root e → T.Root a))
      (Parser.suffixes expr n e) (Parser.suffixes expr' m e') := by
  induction fuel using Fuel.induction generalizing e e' with
  | zero n m h =>
    exact .exhausted h (p := (Parser.suffixes expr · e)) (q := (Parser.suffixes expr' · e')) rfl
      rfl
  | succ k n m fuel _ ih =>
    refine .accept_lower (.symbol .dot) ?_ ?_
    · refine .peek_advance (fun t _ ↦ by rw [C.isWord_see]) (fun t ↦ Token.inside_of_isWord)
        (Nat.le_succ k) (fun t _ good hw ↦ ?_) (.unexpected _)
      refine (ih hexpr.lower (T.member same good hw)).imp id fun a a' kept ↦ ?_
      exact ⟨kept.1, kept.2 ∘ T.root_member _⟩
    · refine .accept_lower (.symbol .leftParen) ?_ (.pure ⟨same, id⟩)
      refine (follows_arguments T hexpr.lower fuel).bind fun args args' items ↦ ?_
      refine (ih hexpr.lower (T.call same items)).imp id fun a a' kept ↦ ?_
      exact ⟨kept.1, kept.2 ∘ T.root_call args⟩

theorem follows_chain (fuel : C.Fuel k n m) :
    C.Follows (k + 1) P moves T.SameExpr (Parser.chain expr n) (Parser.chain expr' m) :=
  (follows_primary T hexpr).bind_lower fun _ _ same ↦
    (follows_suffixes T hexpr fuel same).imp id fun _ _ ↦ And.left

theorem follows_chain_name (name : ∀ t, P t → t.kind = .identifier) (fuel : C.Fuel k n m) :
    C.Follows (k + 1) P moves T.SameTarget (Parser.chain expr n) (Parser.chain expr' m) :=
  (follows_primary_name T name).bind_lower fun _ _ target ↦
    (follows_suffixes T hexpr fuel target.1).imp id fun _ _ kept ↦ ⟨kept.1, kept.2 target.2⟩

end Expressions

section Operators

variable {sub sub' : Nat → Parser Expr}
  (hsub : ∀ level, C.Follows k Any False T.SameExpr (sub level) (sub' level))
  (fuel : C.Fuel k n m)

include hsub fuel

theorem follows_operand (level : Nat) :
    C.Follows (k + 1) P moves T.SameExpr (Parser.operand sub n level)
      (Parser.operand sub' m level) := by
  refine .peekKind (fun kind hk ↦ ?_) (follows_chain T (hsub 1) fuel) fun _ ↦
    follows_chain T (hsub 1) fuel
  cases UnaryOp.ofKind? kind with
  | some op =>
    exact .advance (fun t here ↦ here.2.trans_ne hk) ((hsub _).map fun _ _ ↦ T.unary op)
  | none => exact follows_chain T (hsub 1) fuel

theorem follows_operators (level : Nat) {left left' : Expr} (same : T.SameExpr left left') :
    C.Follows k Any False T.SameExpr (Parser.operators sub level n left)
      (Parser.operators sub' level m left') := by
  induction fuel using Fuel.induction generalizing left left' with
  | zero n m h =>
    exact .exhausted h (p := (Parser.operators sub level · left))
      (q := (Parser.operators sub' level · left')) rfl rfl
  | succ k n m fuel _ ih =>
    refine .peekKind (fun kind hk ↦ ?_) (.pure same) fun _ ↦ .pure same
    cases BinaryOp.ofKind? kind with
    | none => exact .pure same
    | some op =>
      refine .ite Iff.rfl (fun _ ↦ .pure same) fun _ ↦ ?_
      refine .advance (fun t here ↦ here.2.trans_ne hk) ?_
      exact (hsub _).lower.bind fun right right' same' ↦
        ih (fun level ↦ (hsub level).lower) (T.binary op same same')

end Operators

theorem follows_expression (fuel : C.Fuel k n m) (level : Nat) :
    C.Follows k Any True T.SameExpr (Parser.expression n level) (Parser.expression m level) := by
  induction fuel using Fuel.induction generalizing level with
  | zero n m h =>
    exact .exhausted h (p := (Parser.expression · level)) (q := (Parser.expression · level)) rfl rfl
  | succ k n m fuel _ ih =>
    have sub (level : Nat) := (ih level).rest
    exact (follows_operand T sub fuel level).bind_lower fun _ _ same ↦
      follows_operators T sub fuel level same

/-! ## Parts of statements -/

include T in
theorem follows_annotated :
    C.Follows k P False (fun _ _ ↦ True) Parser.annotation Parser.annotation :=
  (Follows.optionally (.keyword .asKw) (follows_typeName T)).discard

theorem follows_newObject :
    C.Follows k P False (Option.Rel T.SameType) Parser.newObject Parser.newObject := by
  refine .accept (.keyword .asKw) ?_ (.pure .none)
  refine .accept (.keyword .newKw) ?_ ?_
  · exact (follows_typeName T).map fun _ _ ↦ .some
  · exact (follows_typeName T).map fun _ _ _ ↦ .none

omit T in
theorem follows_passing : C.Follows k P False Eq Parser.passing Parser.passing := by
  refine .accept (.keyword .byValKw) (.pure rfl) ?_
  exact (Follows.accepted (.keyword .byRefKw)).discard.bind fun _ _ _ ↦ .pure rfl

omit T in
theorem follows_arrayMark :
    C.Follows k P False (fun _ _ ↦ True) Parser.arrayMark Parser.arrayMark :=
  (Follows.optionally (.symbol .leftParen) (.expectSymbol _ _)).discard

omit T in
theorem follows_closingName :
    C.Follows k P False (Option.Rel C.Name) Parser.closingName Parser.closingName := by
  refine .peek_advance (fun _ _ ↦ C.kind_see_eq_iff .identifier)
    (fun _ hk ↦ hk.trans_ne Kind.noConfusion) (Nat.le_succ k) (fun t _ good hk ↦ ?_) (.pure .none)
  exact .pure (.some ⟨t, good, hk, rfl, rfl⟩)

omit T in
theorem follows_atInlineEnd : C.Follows k P False Eq Parser.atInlineEnd Parser.atInlineEnd := by
  refine .peekKind (fun kind _ ↦ ?_) (.pure rfl) fun _ ↦ .pure rfl
  split
  iterate 3 exact .pure rfl
  exact .atEndIf

omit T in
theorem follows_skipEndIf :
    C.Follows k P False (fun _ _ ↦ True) Parser.skipEndIf Parser.skipEndIf := by
  rw [Parser.skipEndIf_eq]
  exact .pair (.keyword .endKw) (.keyword .ifKw) (.pure trivial) (.pure trivial)

omit T in
theorem follows_moreNames (fuel : C.Fuel k n m) :
    C.Follows k Any False (List.Forall₂ C.Name) (Parser.moreNames n) (Parser.moreNames m) := by
  induction fuel using Fuel.induction with
  | zero n m h => exact .exhausted h rfl rfl
  | succ k n m fuel _ ih =>
    refine .accept_lower (.symbol .comma) ?_ (.pure .nil)
    exact (Follows.expectName _).bind fun _ _ name ↦ ih.map fun _ _ names ↦ .cons name names

section Parts

variable {expr expr' : Parser Expr} (hexpr : C.Follows k Any False T.SameExpr expr expr')

include hexpr

theorem follows_param :
    C.Follows k Any False T.SameParam (Parser.param expr) (Parser.param expr') := by
  refine (Follows.acceptedWord _).discard.bind fun _ _ _ ↦ ?_
  refine follows_passing.bind fun byValue _ same ↦ same ▸ ?_
  refine (Follows.expectName _).bind fun a b name ↦ follows_arrayMark.bind fun _ _ _ ↦ ?_
  refine (follows_annotated T).bind fun _ _ _ ↦ ?_
  exact (Follows.optionally (.symbol .eq) hexpr).map fun _ _ ↦ T.param byValue name

theorem follows_params (fuel : C.Fuel k n m) :
    C.Follows k Any False (List.Forall₂ T.SameParam) (Parser.params expr n)
      (Parser.params expr' m) := by
  refine .accept (.symbol .leftParen) ?_ (.pure .nil)
  refine .accept (.symbol .rightParen) (.pure .nil) ?_
  refine (Follows.commaList fuel (follows_param T hexpr)).bind fun params params' same ↦ ?_
  exact (Follows.expectSymbol _ _).bind fun _ _ _ ↦ .pure same.1

theorem follows_bound :
    C.Follows k Any False T.SameExpr (Parser.bound expr) (Parser.bound expr') := by
  refine hexpr.bind fun first first' same ↦ ?_
  refine (Follows.optionally (.keyword .toKw) hexpr).map fun upper upper' same' ↦ ?_
  cases same' with
  | none => exact same
  | some same' => exact same'

theorem follows_bounds (fuel : C.Fuel k n m) :
    C.Follows k Any False (List.Forall₂ T.SameExpr) (Parser.bounds expr n)
      (Parser.bounds expr' m) := by
  refine .accept (.symbol .rightParen) (.pure .nil) ?_
  refine (Follows.commaList fuel (follows_bound T hexpr)).bind fun bounds bounds' same ↦ ?_
  exact (Follows.expectSymbol _ _).bind fun _ _ _ ↦ .pure same.1

theorem follows_declarator (fuel : C.Fuel k n m) :
    C.Follows k Any False T.SameDeclarator (Parser.declarator expr n)
      (Parser.declarator expr' m) := by
  refine (Follows.expectName _).bind fun a b name ↦ ?_
  refine (Follows.optionally (.symbol .leftParen) (follows_bounds T hexpr fuel)).bind
    fun bounds bounds' same ↦ ?_
  exact (follows_newObject T).map fun _ _ ↦ T.declarator name same

end Parts

/-! ## Statements on one line -/

section Lines

omit T in
/-- A rule that starts by moving past a token is used where there is one. -/
theorem Follows.behindKeyword {f g : Unit → Parser α}
    (h : C.Follows k Any False R (f ()) (g ())) :
    C.Follows (k + 1) Inside moves R (Parser.advance >>= f) (Parser.advance >>= g) :=
  .advance (fun _ ↦ id) h

theorem follows_erase (fuel : C.Fuel k n m) :
    C.Follows (k + 1) Inside moves T.SameStmt (Parser.erase n) (Parser.erase m) := by
  refine .behindKeyword ((Follows.expectName _).bind fun a b name ↦ ?_)
  exact (follows_moreNames fuel).map fun _ _ names ↦
    T.erase (.cons name names) (List.cons_ne_nil _ _)

theorem follows_onError :
    C.Follows (k + 1) Inside moves T.SameStmt Parser.onError Parser.onError := by
  refine .behindKeyword ((Follows.expectKeyword _ _).bind fun _ _ _ ↦ ?_)
  refine .accept (.keyword .goToKw) ?_ (.acceptWord _ ?_ (.unexpected _))
  · refine .peek_advance (fun t _ ↦ ?_) (fun t hk ↦ ?_) (Nat.le_succ k)
      (fun t _ good hk ↦ .pure (T.goTo good hk)) (.unexpected _)
    · rw [C.kind_see_eq_iff .identifier, C.kind_see_eq_iff .number]
    · exact hk.elim (·.trans_ne Kind.noConfusion) (·.trans_ne Kind.noConfusion)
  · exact (Follows.expectKeyword _ _).bind fun _ _ _ ↦ .pure T.resumeNext

theorem follows_exit : C.Follows (k + 1) Inside moves T.SameStmt Parser.exit Parser.exit := by
  refine .behindKeyword (.peekKind (fun kind hk ↦ ?_) (.unexpected _) fun _ ↦ .unexpected _)
  have leave (target : ExitTarget) :
      C.Follows k (fun t ↦ Any t ∧ t.kind = kind) False T.SameStmt
        (do Parser.advance; return .exit target) (do Parser.advance; return .exit target) :=
    Follows.lower (.advance (fun t here ↦ here.2.trans_ne hk) (.pure (T.exit target)))
  split
  iterate 4 exact leave _
  exact .unexpected _

theorem follows_option :
    C.Follows (k + 1) Inside moves T.SameStmt Parser.option Parser.option := by
  refine .behindKeyword (.accept (.keyword .explicitKw) (.pure T.explicit) ?_)
  refine .acceptWord _ ?_ (.acceptWord _ ?_ (.unexpected _))
  · refine .peek_ite (fun t _ ↦ C.kind_see_eq_iff .number) (fun t next good hk ↦ ?_)
      (fun t hk ↦ hk.trans_ne Kind.noConfusion) (.expected _)
    rw [C.literal?_see good hk]
    cases hx : Parser.literal? t.text with
    | none => exact .throw (fun _ here ↦ here ▸ ⟨hk, hx⟩) Complaint.noConfusion
    | some x =>
      refine Follows.lower (.advance ?_ (.pure (T.base x)))
      rintro _ rfl
      exact hk.trans_ne Kind.noConfusion
  · exact (Follows.expectName _).map fun _ _ ↦ T.compare

variable {expr expr' : Parser Expr} (hexpr : C.Follows k Any False T.SameExpr expr expr')

include hexpr

theorem follows_const :
    C.Follows k Any False T.SameStmt (Parser.const expr) (Parser.const expr') := by
  refine (Follows.expectName _).bind fun a b name ↦ (follows_annotated T).bind fun _ _ _ ↦ ?_
  exact (Follows.expectSymbol _ _).bind fun _ _ _ ↦ hexpr.map fun _ _ ↦ T.const name

variable (fuel : C.Fuel k n m)

include fuel

theorem follows_dim :
    C.Follows k Any False T.SameStmt (Parser.dim expr n) (Parser.dim expr' m) :=
  (Follows.commaList fuel (follows_declarator T hexpr fuel)).map fun _ _ same ↦
    T.dim same.1 same.2

theorem follows_set :
    C.Follows (k + 1) Inside moves T.SameStmt (Parser.set expr n) (Parser.set expr' m) := by
  refine .behindKeyword ((follows_chain T hexpr fuel).lower.bind fun target target' same ↦ ?_)
  exact (Follows.expectSymbol _ _).bind fun _ _ _ ↦ hexpr.map fun _ _ ↦ T.set same

theorem follows_reDim :
    C.Follows (k + 1) Inside moves T.SameStmt (Parser.reDim expr n) (Parser.reDim expr' m) := by
  refine .behindKeyword (.wordThenName _ _ fun preserve a b name other ↦ ?_)
  refine (Follows.expectSymbol _ _).bind fun _ _ _ ↦ ?_
  refine (follows_bounds T hexpr fuel).bind fun bounds bounds' same ↦ ?_
  exact (follows_annotated T).bind fun _ _ _ ↦ .pure (T.reDim name other same)

theorem follows_assignmentOrCall
    (target : C.Follows (k + 1) P True T.SameTarget (Parser.chain expr n) (Parser.chain expr' m)) :
    C.Follows (k + 1) P moves T.SameStmt (Parser.assignmentOrCall expr n)
      (Parser.assignmentOrCall expr' m) := by
  have list := Follows.commaList fuel hexpr
  refine target.bind_lower fun e e' target ↦ ?_
  obtain ⟨same, root⟩ := target
  have closed (kind : Kind) (hkind : kind ≠ .symbol .comma) (e : Expr) :
      Parser.openCall? e kind = none := by
    unfold Parser.openCall?
    split
    · exact absurd rfl hkind
    · rfl
  refine .accept (.symbol .eq) (hexpr.map fun _ _ ↦ T.assign same root) ?_
  refine .peekKind (fun kind hk ↦ ?_) ?_ fun _ ↦ ?_
  · have opened := T.openCall? kind same
    generalize Parser.openCall? e kind = call at opened
    generalize Parser.openCall? e' kind = call' at opened
    cases opened with
    | some parts =>
      refine Follows.lower (.advance (fun t here ↦ here.2.trans_ne hk) ?_)
      exact list.map fun _ _ args ↦ T.callStmt (T.call parts.1 (.cons parts.2 args.1))
    | none =>
      refine .ite Iff.rfl (fun _ ↦ .pure (T.callStmt same)) fun _ ↦ ?_
      exact list.anywhere.map fun _ _ args ↦ T.callStmt (T.call same args.1)
  · rw [closed .eof Kind.noConfusion, closed .eof Kind.noConfusion]
    exact .pure (T.callStmt same)
  · rw [closed .eof Kind.noConfusion, closed .newline Kind.noConfusion]
    exact .pure (T.callStmt same)

end Lines

/-! ## Blocks -/

section Blocks

variable {stmt stmt' : Parser Stmt} (hstmt : C.Follows k Any True T.SameStmt stmt stmt')
  (fuel : C.Fuel k n m)

omit T in
theorem block_bind_succ (stmt : Parser Stmt) (closing : List Keyword) (n : Nat)
    (f : List Stmt → Parser α) :
    Parser.block stmt closing (n + 1) >>= f = (do
      Parser.skipSeparators
      let kind ← Parser.peekKind
      if kind == .eof || closing.any (kind == .keyword ·) then
        f []
      else do
        let first ← stmt
        let rest ← Parser.block stmt closing n
        f (first :: rest)) := by
  rw [Parser.block, bind_assoc]
  refine bind_congr fun _ ↦ ?_
  rw [bind_assoc]
  refine bind_congr fun kind ↦ ?_
  split
  · exact pure_bind _ _
  · simp only [bind_assoc, pure_bind]

include hstmt fuel

/-- A block in front of something that comes behind it. If the second input may go on where the
first one ends, the block may go on there as well, so what comes behind has to fail at the end. -/
theorem follows_block_bind (closing : List Keyword) {f g : List Stmt → Parser α}
    (hf : ∀ body body', List.Forall₂ T.SameStmt body body' →
      C.Follows k Any (¬C.faithful) R (f body) (g body')) :
    C.Follows k P False R (Parser.block stmt closing n >>= f)
      (Parser.block stmt' closing m >>= g) := by
  induction fuel using Fuel.induction generalizing P f g with
  | zero n m h =>
    exact .exhausted h (p := (Parser.block stmt closing · >>= f))
      (q := (Parser.block stmt' closing · >>= g)) rfl rfl
  | succ k n m fuel _ ih =>
    rw [block_bind_succ, block_bind_succ]
    refine .skipSeparators_peekKind (fun kind _ ↦ .ite Iff.rfl (fun _ ↦ ?_) fun _ ↦ ?_) ?_
    · exact (hf [] [] .nil).rest.anywhere
    · refine hstmt.anywhere.bind_lower fun first first' same ↦ ?_
      exact ih hstmt.lower fun body body' rest ↦ (hf _ _ (.cons same rest)).lower
    · exact (hf [] [] .nil).anywhere

theorem follows_block (faithful : C.faithful) (closing : List Keyword) :
    C.Follows k P False (List.Forall₂ T.SameStmt) (Parser.block stmt closing n)
      (Parser.block stmt' closing m) := by
  rw [← bind_pure (Parser.block stmt closing n), ← bind_pure (Parser.block stmt' closing m)]
  refine follows_block_bind T hstmt fuel closing fun _ _ same ↦ ?_
  exact (Follows.pure same).imp (absurd faithful) fun _ _ ↦ id

theorem follows_inlineBlock :
    C.Follows k P False (List.Forall₂ T.SameStmt) (Parser.inlineBlock stmt n)
      (Parser.inlineBlock stmt' m) := by
  induction fuel using Fuel.induction generalizing P with
  | zero n m h => exact .exhausted h rfl rfl
  | succ k n m fuel _ ih =>
    refine .skipColons (follows_atInlineEnd.bind fun ended _ same ↦ same ▸ ?_)
    refine .ite Iff.rfl (fun _ ↦ .pure .nil) fun _ ↦ hstmt.bind_lower fun first first' same ↦ ?_
    exact (ih hstmt.lower).map fun _ _ rest ↦ .cons same rest

variable {expr expr' : Parser Expr} (hexpr : C.Follows k Any True T.SameExpr expr expr')

include hexpr

theorem follows_forLoop :
    C.Follows (k + 1) Inside moves T.SameStmt (Parser.forLoop expr stmt n)
      (Parser.forLoop expr' stmt' m) := by
  refine .behindKeyword ((Follows.expectName _).bind fun a b name ↦ ?_)
  refine (Follows.expectSymbol _ _).bind fun _ _ _ ↦ hexpr.rest.bind fun start start' first ↦ ?_
  refine (Follows.expectKeyword _ _).bind fun _ _ _ ↦ hexpr.rest.bind fun stop stop' last ↦ ?_
  refine (Follows.optionally (.keyword .stepKw) hexpr.rest).bind fun step step' by_ ↦ ?_
  refine follows_block_bind T hstmt fuel _ fun body body' same ↦ ?_
  refine (Follows.expectKeyword _ _).bind fun _ _ _ ↦ ?_
  exact follows_closingName.map fun _ _ ↦ T.forLoop name first last by_ same

/-- The condition is a token at least, so the blocks behind it may use a lower bound. -/
theorem follows_conditional :
    C.Follows (k + 1) Inside moves T.SameParts (Parser.conditional expr stmt n)
      (Parser.conditional expr' stmt' m) := by
  induction fuel using Fuel.induction generalizing moves with
  | zero n m h => exact .exhausted_inside h rfl rfl
  | succ k n m fuel _ ih =>
    have inner := hstmt.lower
    refine .behindKeyword (hexpr.bind_lower fun condition condition' same ↦ ?_)
    refine (Follows.expectKeyword _ _).bind fun _ _ _ ↦ .peekKind_of_eq (fun kind ↦ ?_) rfl
    refine .ite Iff.rfl (fun _ ↦ ?_) fun _ ↦ ?_
    · refine follows_block_bind T inner fuel _ fun body body' lines ↦ ?_
      have ends {P : Token → Prop} : C.Follows k P (¬C.faithful) T.SameParts
          (do Parser.expectEnd .ifKw; return (condition, body, Alternative.none))
          (do Parser.expectEnd .ifKw; return (condition', body', Alternative.none)) :=
        (Follows.expectEnd _).bind fun _ _ _ ↦ .pure (T.ifThen same lines)
      refine .peekKind (fun kind hk ↦ ?_) ends fun _ ↦ ends
      split
      · refine ((ih inner hexpr.lower).lower.at_next fun t here ↦ here.2.trans_ne hk).bind ?_
        exact fun _ _ next ↦ .pure (T.ifElseIf same lines next)
      · refine Follows.lower (.advance (fun t here ↦ here.2.trans_ne hk) ?_)
        refine follows_block_bind T inner fuel _ fun other other' lines' ↦ ?_
        exact (Follows.expectEnd _).bind fun _ _ _ ↦ .pure (T.ifElse same lines lines')
      · exact ends
    · refine (follows_inlineBlock T inner fuel).bind fun body body' lines ↦ ?_
      refine (Follows.optionally (.keyword .elseKw) (follows_inlineBlock T inner fuel)).bind
        fun other other' lines' ↦ follows_skipEndIf.bind fun _ _ _ ↦ ?_
      cases lines' with
      | none => exact .pure (T.ifThen same lines)
      | some lines' => exact .pure (T.ifElse same lines lines')

theorem follows_ifThen :
    C.Follows (k + 1) Inside moves T.SameStmt (Parser.ifThen expr stmt n)
      (Parser.ifThen expr' stmt' m) :=
  (follows_conditional T hstmt fuel hexpr).bind fun _ _ same ↦ .pure same

theorem follows_doWhile :
    C.Follows (k + 1) Inside moves T.SameStmt (Parser.doWhile expr stmt n)
      (Parser.doWhile expr' stmt' m) := by
  refine .behindKeyword ((Follows.expectKeyword _ _).bind fun _ _ _ ↦ ?_)
  refine hexpr.rest.bind fun condition condition' same ↦ ?_
  refine follows_block_bind T hstmt fuel _ fun body body' lines ↦ ?_
  exact (Follows.expectKeyword _ _).bind fun _ _ _ ↦ .pure (T.doWhile same lines)

theorem follows_procedure (kind : ProcedureKind) :
    C.Follows (k + 1) Inside moves T.SameStmt (Parser.procedure expr stmt n kind)
      (Parser.procedure expr' stmt' m kind) := by
  refine .behindKeyword ((Follows.expectName _).bind fun a b name ↦ ?_)
  refine (follows_params T hexpr.rest fuel).bind fun params params' same ↦ ?_
  refine (follows_annotated T).bind fun _ _ _ ↦ ?_
  refine follows_block_bind T hstmt fuel _ fun body body' lines ↦ ?_
  exact (Follows.expectEnd _).bind fun _ _ _ ↦ .pure (T.procedure kind name same lines)

theorem follows_withAccess :
    C.Follows (k + 1) Inside moves T.SameStmt (Parser.withAccess expr stmt n)
      (Parser.withAccess expr' stmt' m) := by
  have dim := follows_dim T hexpr.rest fuel
  refine .behindKeyword (.peekKind (fun kind hk ↦ ?_) (.unexpected _) fun _ ↦ .unexpected _)
  have inside (t : Token) (here : Any t ∧ t.kind = kind) : t.Inside := here.2.trans_ne hk
  split
  · exact (follows_procedure T hstmt fuel hexpr .sub).lower.at_next inside
  · exact (follows_procedure T hstmt fuel hexpr .function).lower.at_next inside
  · exact Follows.lower (.advance inside (follows_const T hexpr.rest))
  · exact Follows.lower (.advance inside dim)
  · exact dim.anywhere
  · exact .unexpected _

end Blocks

theorem follows_statement (fuel : C.Fuel k n m) :
    C.Follows k Any True T.SameStmt (Parser.statement n) (Parser.statement m) := by
  induction fuel using Fuel.induction with
  | zero n m h => exact .exhausted h rfl rfl
  | succ k n m fuel _ stmt =>
    have expr := follows_expression T fuel 1
    refine .peek fun t _ good ↦ ?_
    by_cases ht : t.kind = .eof
    · rcases C.kind_see_of_eof ht with same | ⟨-, line⟩
      · rw [ht, same]
        exact .unexpected _
      · rw [ht, line]
        exact .unexpected _
    have inside (u : Token) (here : u = t) : u.Inside := here ▸ ht
    rw [C.kind_see ht]
    cases hk : t.kind with
    | keyword word =>
      cases word with
      | forKw => exact (follows_forLoop T stmt fuel expr).at_next inside
      | ifKw => exact (follows_ifThen T stmt fuel expr).at_next inside
      | doKw => exact (follows_doWhile T stmt fuel expr).at_next inside
      | subKw => exact (follows_procedure T stmt fuel expr .sub).at_next inside
      | functionKw => exact (follows_procedure T stmt fuel expr .function).at_next inside
      | dimKw => exact .advance inside (follows_dim T expr.rest fuel)
      | constKw => exact .advance inside (follows_const T expr.rest)
      | setKw => exact (follows_set T expr.rest fuel).at_next inside
      | onKw => exact (follows_onError T).at_next inside
      | exitKw => exact (follows_exit T).at_next inside
      | eraseKw => exact (follows_erase T fuel).at_next inside
      | reDimKw => exact (follows_reDim T expr.rest fuel).at_next inside
      | optionKw => exact (follows_option T).at_next inside
      | publicKw => exact (follows_withAccess T stmt fuel expr).at_next inside
      | privateKw => exact (follows_withAccess T stmt fuel expr).at_next inside
      | callKw =>
        refine .advance inside ((follows_chain T expr.rest fuel).lower.map fun _ _ ↦ T.callStmt)
      | _ => exact .unexpected _
    | identifier =>
      have name : C.Name t.text (C.see t).text := ⟨t, good ht, hk, rfl, rfl⟩
      refine .secondKind inside (.symbol .colon) (.pure (T.label name)) ?_
      refine follows_assignmentOrCall T expr.rest fuel (follows_chain_name T expr.rest ?_ fuel)
      rintro _ rfl
      exact hk
    | unknown => exact .throw (fun _ here ↦ here ▸ hk) Complaint.noConfusion
    | _ => exact .unexpected _

/-! ## Whole inputs -/

theorem follows_wholeExpression (faithful : C.faithful) (fuel : C.Fuel k n m) :
    C.Follows k Any False T.SameExpr (Parser.wholeExpression n) (Parser.wholeExpression m) := by
  have expr := follows_expression T fuel 1
  have whole : C.Follows k Any True T.SameExpr
      (do let e ← Parser.expression n 1; Parser.skipSeparators
          if (← Parser.peekKind) = .eof then return e else throw .trailingToken)
      (do let e ← Parser.expression m 1; Parser.skipSeparators
          if (← Parser.peekKind) = .eof then return e else throw .trailingToken) := by
    refine expr.bind fun e e' same ↦ .skipSeparators_peekKind (fun kind hk ↦ ?_) ?_
    · rw [if_neg hk, if_neg hk]
      exact .throw (fun t here ↦ here.trans_ne hk) Complaint.noConfusion
    · exact (Follows.pure same).imp (absurd faithful) fun _ _ ↦ id
  exact .skipSeparators _ whole.rest.anywhere (fun _ ↦ whole.rest.anywhere) fun _ ↦ whole.anywhere

theorem follows_program (faithful : C.faithful) (fuel : C.Fuel k n m) :
    C.Follows k Any False (List.Forall₂ T.SameStmt) (Parser.program n) (Parser.program m) :=
  follows_block T (follows_statement T fuel) fuel faithful []

/-! ## Tokens that are seen as they are -/

section Unchanged

theorem eq_of_forall₂ {as bs : List α} (h : List.Forall₂ Eq as bs) : as = bs :=
  List.forall₂_eq_eq_eq ▸ h

theorem map_eq_of_optionRel {g : α → α} (hR : ∀ a b, R a b → g a = b) {a b : Option α}
    (h : Option.Rel R a b) : a.map g = b := by
  cases h with
  | none => rfl
  | some h => exact congrArg some (hR _ _ h)

theorem eq_of_optionRel (hR : ∀ a b, R a b → a = b) {a b : Option α} (h : Option.Rel R a b) :
    a = b :=
  Option.map_id_apply.symm.trans (map_eq_of_optionRel (g := id) hR h)

variable (unchanged : ∀ t : Token, t.Inside → C.see t = t)

include unchanged

theorem see_of_isWord {t : Token} (hw : t.isWord = true) : C.see t = t :=
  unchanged t (Token.inside_of_isWord hw)

theorem see_of_kind {t : Token} {kind : Kind} (hk : t.kind = kind) (inside : kind ≠ .eof) :
    C.see t = t :=
  unchanged t (hk.trans_ne inside)

theorem eq_of_name {a b : String} (h : C.Name a b) : a = b := by
  obtain ⟨t, -, hk, rfl, rfl⟩ := h
  rw [see_of_kind unchanged hk Kind.noConfusion]

/-- The trees are the same. -/
def Trees.same : C.Trees where
  SameType := Eq
  SameExpr := Eq
  Root _ := True
  SameParam := Eq
  SameDeclarator := Eq
  SameStmt := Eq
  word _ hw := by rw [see_of_isWord unchanged hw]
  dotted same _ hw := by rw [same, see_of_isWord unchanged hw]
  number _ _ _ := rfl
  text _ hk := by rw [see_of_kind unchanged hk Kind.noConfusion]
  name _ hk := by
    rw [unchanged _ (hk.elim (·.trans_ne Kind.noConfusion) (·.trans_ne Kind.noConfusion))]
  new := congrArg Expr.new
  unary op _ _ := congrArg (Expr.unary op)
  binary _ _ _ _ _ same same' := by rw [same, same']
  member same _ hw := by rw [same, see_of_isWord unchanged hw]
  call same args := by rw [same, eq_of_forall₂ args]
  root_name _ _ := trivial
  root_member _ := id
  root_call _ := id
  openCall? kind same := by
    rw [same]
    cases Parser.openCall? _ kind with
    | none => exact .none
    | some parts => exact .some ⟨rfl, rfl⟩
  param _ _ _ name same := by rw [eq_of_name unchanged name, eq_of_optionRel (fun _ _ ↦ id) same]
  declarator name bounds type := by
    rw [eq_of_name unchanged name, eq_of_optionRel (fun _ _ ↦ eq_of_forall₂) bounds,
      eq_of_optionRel (fun _ _ ↦ id) type]
  forLoop name start stop step body closing := by
    rw [eq_of_name unchanged name, start, stop, eq_of_optionRel (fun _ _ ↦ id) step,
      eq_of_forall₂ body, eq_of_optionRel (fun _ _ ↦ eq_of_name unchanged) closing]
  ifThen same body := by rw [same, eq_of_forall₂ body]
  ifElse same body other := by rw [same, eq_of_forall₂ body, eq_of_forall₂ other]
  ifElseIf same body next := by
    obtain ⟨rfl, rfl, rfl⟩ := Stmt.ifThen.inj next
    rw [same, eq_of_forall₂ body]
  doWhile same body := by rw [same, eq_of_forall₂ body]
  procedure _ _ _ _ _ _ _ name params body := by
    rw [eq_of_name unchanged name, eq_of_forall₂ params, eq_of_forall₂ body]
  dim same _ := congrArg Stmt.dim (eq_of_forall₂ same)
  const name same := by rw [eq_of_name unchanged name, same]
  set same same' := by rw [same, same']
  assign same _ same' := by rw [same, same']
  goTo _ hk := by
    rw [unchanged _ (hk.elim (·.trans_ne Kind.noConfusion) (·.trans_ne Kind.noConfusion))]
  resumeNext := rfl
  exit _ := rfl
  erase same _ := congrArg Stmt.erase (eq_of_forall₂ (same.imp fun _ _ ↦ eq_of_name unchanged))
  reDim name _ same := by rw [eq_of_name unchanged name, eq_of_forall₂ same]
  explicit := rfl
  base _ := rfl
  compare name := by rw [eq_of_name unchanged name]
  label name := by rw [eq_of_name unchanged name]
  callStmt same := by rw [same]

end Unchanged

end Comparison

end MiniBasic
