import MiniBasic.Proofs.Print.Precedence
import MiniBasic.Proofs.Print.Yield

/-!
# Expressions in place

What is accepted as a whole expression is read as that expression wherever its tokens stand, if what
stands behind them can neither be a suffix nor an operator; of a chain, a name with its suffixes,
the same holds if no suffix stands behind it. Two runs are compared: in the first the input ends
behind the tokens, in the second it goes on at `d`. `Stays stop d C p` says that where `p` succeeds
in the first, it does the same in the second. `C` leaves out the ends at which `p` sees a
difference; rules that come next do not succeed from there.
-/

namespace MiniBasic.Parser

variable {α β : Type} {stop : Token} {d : Cursor} {C : α → List Token → Prop}
  {D : β → List Token → Prop}

/-- Where the parser succeeds on tokens with nothing but `stop` behind them, it succeeds in the same
way with `d` behind them, if `C` holds of the result and of the tokens that are left. -/
def Stays (stop : Token) (d : Cursor) (C : α → List Token → Prop) (p : Parser α) : Prop :=
  ∀ ⦃ts : List Token⦄ ⦃a : α⦄ ⦃c' : Cursor⦄, p ⟨ts, stop⟩ = .ok a c' →
    ∃ us, c' = ⟨us, stop⟩ ∧ (C a us → p ⟨ts ++ d.rest, d.eof⟩ = .ok a ⟨us ++ d.rest, d.eof⟩)

/-- The same for tokens that the parser starts with. -/
def StaysInside (stop : Token) (d : Cursor) (C : α → List Token → Prop) (p : Parser α) : Prop :=
  ∀ ⦃t : Token⦄ ⦃ts : List Token⦄ ⦃a : α⦄ ⦃c' : Cursor⦄, p ⟨t :: ts, stop⟩ = .ok a c' →
    ∃ us, c' = ⟨us, stop⟩ ∧
      (C a us → p ⟨t :: ts ++ d.rest, d.eof⟩ = .ok a ⟨us ++ d.rest, d.eof⟩)

/-- Nothing is left out. -/
def always (_ : α) (_ : List Token) : Prop :=
  True

/-- If all tokens have been read, the second input goes on with a token of a kind that may
follow. -/
def Followed (d : Cursor) (follow : Kind → Bool) (_ : α) (us : List Token) : Prop :=
  us = [] → follow d.peek.kind = true

/-- The parser does not succeed at the end of the input. -/
def FailsAt (stop : Token) (p : Parser α) : Prop :=
  ∀ ⦃a : α⦄ ⦃c' : Cursor⦄, p ⟨[], stop⟩ ≠ .ok a c'

theorem FailsAt.bind {p : Parser α} (hp : FailsAt stop p) (f : α → Parser β) :
    FailsAt stop (p >>= f) := by
  intro b c' h
  obtain ⟨a, c₁, first, -⟩ := exists_of_bind_eq_ok h
  exact hp first

/-- A rule that does not succeed at the end has not been reached with all tokens read. -/
theorem FailsAt.ne_nil {p : Parser α} (hp : FailsAt stop p) {ts : List Token} {a : α} {c' : Cursor}
    (h : p ⟨ts, stop⟩ = .ok a c') : ts ≠ [] := by
  rintro rfl
  exact hp h

namespace Stays

variable {p : Parser α} {f : α → Parser β}

theorem pure (a : α) : Stays stop d C (Pure.pure a) := by
  rintro ts _ _ ⟨⟩
  exact ⟨ts, rfl, fun _ ↦ rfl⟩

theorem throw (e : Complaint) : Stays stop d C (MonadExcept.throw e : Parser α) := by
  rintro ts _ _ ⟨⟩

/-- The end of the first part may be left out if the second part does not succeed from there. -/
theorem bind (hp : Stays stop d C p) (hf : ∀ a, Stays stop d D (f a))
    (goesOn : ∀ ⦃a ts b us⦄, f a ⟨ts, stop⟩ = .ok b ⟨us, stop⟩ → D b us → C a ts) :
    Stays stop d D (p >>= f) := by
  intro ts b c' h
  obtain ⟨a, c₁, first, second⟩ := exists_of_bind_eq_ok h
  obtain ⟨us, rfl, first'⟩ := hp first
  obtain ⟨vs, rfl, second'⟩ := hf a second
  refine ⟨vs, rfl, fun left ↦ ?_⟩
  rw [bind_ok (first' (goesOn second left))]
  exact second' left

theorem bind_always (hp : Stays stop d always p) (hf : ∀ a, Stays stop d D (f a)) :
    Stays stop d D (p >>= f) :=
  hp.bind hf fun _ _ _ _ _ _ ↦ trivial

/-- The second part does not succeed where all tokens have been read. -/
theorem bind_fails {follow : Kind → Bool} (hp : Stays stop d (Followed d follow) p)
    (hf : ∀ a, Stays stop d D (f a)) (fails : ∀ a, FailsAt stop (f a)) :
    Stays stop d D (p >>= f) :=
  hp.bind hf fun a _ _ _ run _ none ↦ absurd none ((fails a).ne_nil run)

/-- What is done to the result does not change where the run ends. -/
theorem map {follow : Kind → Bool} {g : α → β} (hp : Stays stop d (Followed d follow) p) :
    Stays stop d (Followed d follow) (do return g (← p)) := by
  refine hp.bind (fun _ ↦ .pure _) ?_
  rintro _ _ _ _ ⟨⟩ left
  exact left

theorem mono {C' : α → List Token → Prop} (hp : Stays stop d C p) (h : ∀ a us, C' a us → C a us) :
    Stays stop d C' p := by
  intro ts a c' run
  obtain ⟨us, left, inPlace⟩ := hp run
  exact ⟨us, left, fun holds ↦ inPlace (h a us holds)⟩

theorem ite {b : Prop} [Decidable b] {q : Parser α} (hp : b → Stays stop d C p)
    (hq : ¬b → Stays stop d C q) : Stays stop d C (if b then p else q) := by
  by_cases hb : b
  · rw [if_pos hb]
    exact hp hb
  · rw [if_neg hb]
    exact hq hb

theorem peek {f : Token → Parser α} (atEnd : FailsAt stop (f stop))
    (inside : ∀ t, StaysInside stop d C (f t)) : Stays stop d C (Parser.peek >>= f) := by
  intro ts a c' h
  rw [peek_bind] at h ⊢
  cases ts with
  | nil => exact absurd h (@atEnd a c')
  | cons t ts => exact inside t h

theorem peekKind {f : Kind → Parser α} (atEnd : FailsAt stop (f stop.kind))
    (inside : ∀ kind, StaysInside stop d C (f kind)) : Stays stop d C (Parser.peekKind >>= f) :=
  peek (f := fun t ↦ f t.kind) atEnd fun t ↦ inside t.kind

/-- A rule that may end here, in both runs. -/
theorem peekKind_of_ends {f : Kind → Parser α} (inside : ∀ kind, StaysInside stop d C (f kind))
    (atEnd : ∀ ⦃a c'⦄, f stop.kind ⟨[], stop⟩ = .ok a c' →
      c' = ⟨[], stop⟩ ∧ (C a [] → f d.peek.kind d = .ok a d)) :
    Stays stop d C (Parser.peekKind >>= f) := by
  intro ts a c' h
  rw [peekKind_bind] at h ⊢
  cases ts with
  | nil =>
    obtain ⟨rfl, ends⟩ := atEnd h
    exact ⟨[], rfl, ends⟩
  | cons t ts => exact inside t.kind h

theorem inside (hp : Stays stop d C p) : StaysInside stop d C p :=
  fun _ _ _ _ h ↦ hp h

end Stays

namespace StaysInside

variable {p : Parser α}

theorem throw (e : Complaint) : StaysInside stop d C (MonadExcept.throw e : Parser α) := by
  rintro t ts _ _ ⟨⟩

theorem advance {f : Unit → Parser α} (hf : Stays stop d C (f ())) :
    StaysInside stop d C (Parser.advance >>= f) :=
  fun _ _ _ _ h ↦ hf h

end StaysInside

theorem accept_true {kind : Kind} {c : Cursor} (h : c.peek.kind = kind) :
    accept kind c = .ok true c.advance := by
  rw [accept, peekKind_bind]
  exact congrFun (if_pos h) c

theorem accept_false {kind : Kind} {c : Cursor} (h : c.peek.kind ≠ kind) :
    accept kind c = .ok false c := by
  rw [accept, peekKind_bind]
  exact congrFun (if_neg h) c

section

variable (hstop : stop.kind = .eof)

include hstop

theorem accept_nil (kind : Kind) (inside : kind ≠ .eof) :
    accept kind ⟨[], stop⟩ = .ok false ⟨[], stop⟩ :=
  accept_false fun hk ↦ inside (hk.symm.trans hstop)

/-- A token that is not there at the end of the first input may be there at the place where the
second one goes on. -/
theorem stays_accept (kind : Kind) (inside : kind ≠ .eof) :
    Stays stop d (fun b us ↦ b = false → us = [] → d.peek.kind ≠ kind) (accept kind) := by
  intro ts b c' h
  cases ts with
  | nil =>
    rw [accept_nil hstop kind inside] at h
    cases h
    exact ⟨[], rfl, fun other ↦ accept_false (other rfl rfl)⟩
  | cons t ts =>
    by_cases hk : t.kind = kind
    · rw [accept_true (show (Cursor.mk (t :: ts) stop).peek.kind = kind from hk)] at h
      cases h
      exact ⟨ts, rfl, fun _ ↦ accept_true hk⟩
    · rw [accept_false (show (Cursor.mk (t :: ts) stop).peek.kind ≠ kind from hk)] at h
      cases h
      exact ⟨t :: ts, rfl, fun _ ↦ accept_false hk⟩

theorem failsAt_expectSymbol (s : Symbol) (what : Expected) :
    FailsAt stop (expectSymbol s what) := by
  intro u c' h
  obtain ⟨hk, -⟩ := expectSymbol_cases h
  cases hstop.symm.trans hk

theorem stays_expectSymbol (s : Symbol) (what : Expected) :
    Stays stop d always (expectSymbol s what) := by
  intro ts u c' h
  obtain ⟨hk, rfl⟩ := expectSymbol_cases h
  cases ts with
  | nil => cases hstop.symm.trans hk
  | cons t ts => exact ⟨ts, rfl, fun _ ↦ (Reads.expect hk what).discard rfl⟩

/-! ## Lists -/

/-- A list with commas stays, except where it ends the first input and the second one goes on with
a comma or with something that cannot stand behind an item. -/
theorem stays_commaList {item : Parser α} {follow : Kind → Bool}
    (hitem : Stays stop d (Followed d follow) item) (fuel : Nat) :
    Stays stop d (Followed d fun kind ↦ follow kind && kind != .symbol .comma)
      (commaList item fuel) := by
  induction fuel with
  | zero => exact .throw _
  | succ fuel ih =>
    refine hitem.bind (fun first ↦ ?_) ?_
    · refine (stays_accept hstop (.symbol .comma) (by decide)).bind (fun more ↦ ?_) ?_
      · exact .ite (fun _ ↦ ih.map) fun _ ↦ .pure _
      · rintro _ ts b us run left rfl rfl
        cases run
        exact bne_iff_ne.mp (Bool.and_eq_true_iff.mp (left rfl)).2
    · rintro first ts b us run left rfl
      rw [acceptSymbol, bind_ok (accept_nil hstop _ (by decide))] at run
      cases run
      exact (Bool.and_eq_true_iff.mp (left rfl)).1

omit hstop in
theorem failsAt_commaList {item : Parser α} (hitem : FailsAt stop item) (fuel : Nat) :
    FailsAt stop (commaList item fuel) := by
  cases fuel with
  | zero => exact fun _ _ h ↦ by cases h
  | succ fuel => exact hitem.bind _

section Arguments

variable {expr : Parser Expr} (hexpr : Stays stop d (Followed d endsExpr) expr)
  (fails : FailsAt stop expr)

include fails

theorem failsAt_arguments (fuel : Nat) : FailsAt stop (arguments expr fuel) := by
  intro args c' h
  rw [arguments, acceptSymbol, bind_ok (accept_nil hstop _ (by decide))] at h
  exact (failsAt_commaList fails fuel).bind _ h

include hexpr

theorem stays_arguments (fuel : Nat) : Stays stop d always (arguments expr fuel) := by
  refine (stays_accept hstop (.symbol .rightParen) (by decide)).bind (fun closed ↦ ?_) ?_
  · refine .ite (fun _ ↦ .pure _) fun _ ↦ ?_
    refine (stays_commaList hstop hexpr fuel).bind_fails (fun args ↦ ?_) fun args ↦ ?_
    · exact (stays_expectSymbol hstop _ _).bind_always fun _ ↦ .pure _
    · exact (failsAt_expectSymbol hstop _ _).bind _
  · rintro _ _ args us run - rfl none
    exact absurd none (((failsAt_commaList fails fuel).bind _).ne_nil run)

end Arguments

/-! ## Type names -/

omit hstop in
theorem endsChain_of_ne {kind : Kind} (dot : kind ≠ .symbol .dot)
    (paren : kind ≠ .symbol .leftParen) :
    endsChain kind = true := by
  unfold endsChain
  split
  · exact absurd rfl dot
  · exact absurd rfl paren
  · rfl

/-- What is left is not the first token of a suffix alone, and none stands where the second input
goes on. -/
structure Whole (d : Cursor) (us : List Token) : Prop where
  last : ∀ t, us = [t] → endsChain t.kind = true
  next : us = [] → endsChain d.peek.kind = true

omit hstop in
theorem dottedName_append {k : List Token} {name : String} {ts : List Token}
    (next : (dottedName name ts).2 = [] → ∀ t ∈ k.head?, t.kind ≠ .symbol .dot)
    (last : ∀ t, (dottedName name ts).2 = [t] → t.kind ≠ .symbol .dot) :
    dottedName name (ts ++ k) = ((dottedName name ts).1, (dottedName name ts).2 ++ k) := by
  fun_induction dottedName name ts with
  | case1 name dot word rest h ih =>
    rw [List.cons_append, List.cons_append, dottedName, if_pos h]
    exact ih next last
  | case2 name dot word rest h => rw [List.cons_append, List.cons_append, dottedName, if_neg h]
  | case3 name ts short =>
    refine dottedName_of_not ?_
    rintro dot word rest tokens ⟨hdot, -⟩
    cases ts with
    | nil =>
      cases tokens
      exact next rfl dot rfl hdot
    | cons t ts =>
      cases ts with
      | nil =>
        cases tokens
        exact last _ rfl hdot
      | cons u ts => exact short t u ts rfl

omit hstop in
theorem emptyParens_eq (a : α) (c : Cursor) : (do
    if (← peekKind) = .symbol .leftParen ∧ (← secondKind) = .symbol .rightParen then
      advance
      advance
    return a : Parser α) c =
      if c.peek.kind = .symbol .leftParen ∧ c.peekSecond.kind = .symbol .rightParen then
        .ok a c.advance.advance
      else .ok a c := by
  change (if c.peek.kind = .symbol .leftParen ∧ c.peekSecond.kind = .symbol .rightParen then _
    else _ : Parser α) c = _
  by_cases here : c.peek.kind = .symbol .leftParen ∧ c.peekSecond.kind = .symbol .rightParen
  · rw [if_pos here, if_pos here]
    rfl
  · rw [if_neg here, if_neg here]
    rfl

theorem stays_emptyParens (name : String) : Stays stop d (fun _ us ↦ Whole d us) (do
    if (← peekKind) = .symbol .leftParen ∧ (← secondKind) = .symbol .rightParen then
      advance
      advance
    return name) := by
  intro ts a c' h
  cases ts with
  | nil =>
    rw [emptyParens_eq] at h
    cases h.symm.trans (if_neg fun here ↦ by cases hstop.symm.trans here.1)
    refine ⟨[], rfl, fun whole ↦ ?_⟩
    rw [emptyParens_eq]
    exact if_neg fun here ↦ ne_of_true_of_false (whole.next rfl) rfl here.1
  | cons t ts =>
    cases ts with
    | nil =>
      rw [emptyParens_eq] at h
      cases h.symm.trans (if_neg fun here ↦ by cases hstop.symm.trans here.2)
      refine ⟨[t], rfl, fun whole ↦ ?_⟩
      rw [emptyParens_eq]
      exact if_neg fun here ↦ ne_of_true_of_false (whole.last t rfl) rfl here.1
    | cons u ts =>
      rw [emptyParens_eq] at h
      by_cases here : t.kind = .symbol .leftParen ∧ u.kind = .symbol .rightParen
      · cases h.symm.trans (if_pos here)
        refine ⟨ts, rfl, fun _ ↦ ?_⟩
        rw [emptyParens_eq]
        exact if_pos here
      · cases h.symm.trans (if_neg here)
        refine ⟨t :: u :: ts, rfl, fun _ ↦ ?_⟩
        rw [emptyParens_eq]
        exact if_neg here

omit hstop in
theorem peek_of_mem_head? {c : Cursor} {t : Token} (h : t ∈ c.rest.head?) : c.peek = t := by
  rw [Cursor.peek, List.headD_eq_head?_getD, h]
  rfl

theorem stays_typeName : Stays stop d (fun _ us ↦ Whole d us) typeName := by
  refine .peek ?_ fun t ↦ ?_
  · rw [if_neg (by simp [Token.isWord, hstop, Kind.isWord])]
    exact fun _ _ h ↦ by cases h
  split
  case isFalse => exact .throw _
  apply StaysInside.advance
  -- A dot alone behind the name would be left where it is, so nothing is read behind it.
  refine Stays.bind (C := fun _ us ↦ Followed d (· != .symbol .dot) () us ∧
    ∀ u, us = [u] → u.kind ≠ .symbol .dot) (fun ts name c' h ↦ ?_)
    (fun name ↦ stays_emptyParens hstop name) ?_
  · cases h
    refine ⟨_, rfl, fun left ↦ ?_⟩
    change EStateM.Result.ok (dottedName t.text (ts ++ d.rest)).1
      (Cursor.mk (dottedName t.text (ts ++ d.rest)).2 d.eof) = _
    rw [dottedName_append (fun none u hu ↦ ?_) left.2]
    rw [← peek_of_mem_head? hu]
    exact bne_iff_ne.mp (left.1 none)
  · rintro name ts a us run whole
    rw [emptyParens_eq] at run
    refine ⟨?_, ?_⟩
    · rintro rfl
      cases run.symm.trans (if_neg fun here ↦ by cases hstop.symm.trans here.1)
      exact bne_iff_ne.mpr (ne_of_true_of_false (whole.next rfl) rfl)
    · rintro u rfl
      cases run.symm.trans (if_neg fun here ↦ by cases hstop.symm.trans here.2)
      exact ne_of_true_of_false (whole.last u rfl) rfl

/-! ## Operands -/

section Operands

variable {expr : Parser Expr} (hexpr : Stays stop d (Followed d endsExpr) expr)
  (fails : FailsAt stop expr)

theorem failsAt_primary (expr : Parser Expr) : FailsAt stop (primary expr) := by
  intro e c' h
  rw [primary, peek_bind, show (Cursor.mk [] stop).peek.kind = .eof from hstop] at h
  cases h

include hexpr in
theorem stays_primary : Stays stop d (fun _ us ↦ Whole d us) (primary expr) := by
  refine .peek ?_ fun t ↦ ?_
  · rw [hstop]
    exact fun _ _ h ↦ by cases h
  · split
    · split
      · exact .advance (.pure _)
      · exact .throw _
    · exact .advance (.pure _)
    · exact .advance (.pure _)
    · exact .advance (.pure _)
    · apply StaysInside.advance
      refine hexpr.bind_fails (fun e ↦ ?_) fun e ↦ (failsAt_expectSymbol hstop _ _).bind _
      exact (stays_expectSymbol hstop _ _).bind_always fun _ ↦ .pure _
    · apply StaysInside.advance
      refine (stays_typeName hstop).bind (fun _ ↦ .pure _) ?_
      rintro _ _ _ _ ⟨⟩ whole
      exact whole
    · exact .throw _
    · exact .throw _

/-- Where all tokens have been read, there are no suffixes. -/
theorem suffixes_nil {fuel : Nat} {e e' : Expr} {c' : Cursor}
    (h : suffixes expr fuel e ⟨[], stop⟩ = .ok e' c') : c' = ⟨[], stop⟩ := by
  cases fuel with
  | zero => cases h
  | succ fuel =>
    rw [suffixes, acceptSymbol, acceptSymbol, bind_ok (accept_nil hstop _ (by decide))] at h
    change (accept _ >>= _) _ = _ at h
    rw [bind_ok (accept_nil hstop _ (by decide))] at h
    cases h
    rfl

include fails

/-- The first token of a suffix alone is no suffix. -/
theorem whole_of_suffixes {fuel : Nat} {e e' : Expr} {ts us : List Token}
    (h : suffixes expr fuel e ⟨ts, stop⟩ = .ok e' ⟨us, stop⟩)
    (ends : Followed d endsChain e' us) : Whole d ts := by
  refine ⟨?_, ?_⟩
  · rintro t rfl
    cases fuel with
    | zero => cases h
    | succ fuel =>
      have fails := failsAt_arguments hstop fails fuel
      rw [suffixes, acceptSymbol, acceptSymbol] at h
      by_cases dot : (Cursor.mk [t] stop).peek.kind = .symbol .dot
      · rw [bind_ok (accept_true dot)] at h
        change (if stop.isWord = true then _ else _ : Parser Expr) ⟨[], stop⟩ = _ at h
        rw [if_neg (by simp [Token.isWord, hstop, Kind.isWord])] at h
        cases h
      rw [bind_ok (accept_false dot)] at h
      by_cases paren : (Cursor.mk [t] stop).peek.kind = .symbol .leftParen
      · change (accept _ >>= _) _ = _ at h
        rw [bind_ok (accept_true paren)] at h
        exact absurd h (fails.bind _ · )
      · exact endsChain_of_ne dot paren
  · rintro rfl
    cases suffixes_nil hstop h
    exact ends rfl

include hexpr

theorem stays_suffixes (fuel : Nat) (e : Expr) :
    Stays stop d (Followed d endsChain) (suffixes expr fuel e) := by
  induction fuel generalizing e with
  | zero => exact .throw _
  | succ fuel ih =>
    refine (stays_accept hstop _ (by decide)).bind (fun _ ↦ .ite (fun _ ↦ ?_) fun _ ↦ ?_) ?_
    · refine .peek ?_ fun t ↦ ?_
      · rw [if_neg (by simp [Token.isWord, hstop, Kind.isWord])]
        exact fun _ _ h ↦ by cases h
      · split
        · exact .advance (ih _)
        · exact .throw _
    · refine (stays_accept hstop _ (by decide)).bind (fun _ ↦ .ite (fun _ ↦ ?_) fun _ ↦ .pure _) ?_
      · exact (stays_arguments hstop hexpr fails fuel).bind_always fun args ↦ ih _
      · rintro _ _ _ _ run ends rfl rfl
        cases run
        exact ne_of_true_of_false (ends rfl) rfl
    · rintro _ _ _ _ run ends rfl rfl
      change (acceptSymbol _ >>= _) _ = _ at run
      rw [acceptSymbol, bind_ok (accept_nil hstop _ (by decide))] at run
      cases run
      exact ne_of_true_of_false (ends rfl) rfl

theorem stays_chain (fuel : Nat) : Stays stop d (Followed d endsChain) (chain expr fuel) :=
  (stays_primary hstop hexpr).bind (stays_suffixes hstop hexpr fails fuel)
    fun _ _ _ _ run ends ↦ whole_of_suffixes hstop fails run ends

end Operands

/-! ## Operators -/

section Operators

variable {sub : Nat → Parser Expr}

theorem failsAt_operand (sub : Nat → Parser Expr) (fuel level : Nat) :
    FailsAt stop (operand sub fuel level) := by
  intro e c' h
  rw [operand, peekKind_bind, show (Cursor.mk [] stop).peek.kind = .eof from hstop] at h
  exact (failsAt_primary hstop _).bind _ h

/-- Where all tokens have been read, there are no operators. -/
theorem operators_nil {level fuel : Nat} {left e : Expr} {c' : Cursor}
    (h : operators sub level fuel left ⟨[], stop⟩ = .ok e c') : c' = ⟨[], stop⟩ := by
  cases fuel with
  | zero => cases h
  | succ fuel =>
    rw [operators, peekKind_bind, show (Cursor.mk [] stop).peek.kind = .eof from hstop] at h
    cases h
    rfl

variable (hsub : ∀ level, Stays stop d (Followed d endsExpr) (sub level))

include hsub

theorem stays_operand (fails : FailsAt stop (sub 1)) (fuel level : Nat) :
    Stays stop d (Followed d endsExpr) (operand sub fuel level) := by
  refine .peekKind ?_ fun kind ↦ ?_
  · rw [hstop]
    exact (failsAt_primary hstop _).bind _
  · cases UnaryOp.ofKind? kind with
    | some op => exact .advance (hsub _).map
    | none =>
      refine ((stays_chain hstop (hsub 1) fails fuel).mono fun e us ends none ↦ ?_).inside
      exact endsChain_of_endsExpr (ends none)

theorem stays_operators (level fuel : Nat) (left : Expr) :
    Stays stop d (Followed d endsExpr) (operators sub level fuel left) := by
  induction fuel generalizing left with
  | zero => exact .throw _
  | succ fuel ih =>
    refine .peekKind_of_ends (fun kind ↦ ?_) fun e c' h ↦ ?_
    · cases BinaryOp.ofKind? kind with
      | none => exact (Stays.pure left).inside
      | some op =>
        dsimp only
        split
        · exact (Stays.pure left).inside
        · refine .advance ((hsub _).bind (fun right ↦ ih _) ?_)
          rintro right _ _ _ run ends rfl
          cases operators_nil hstop run
          exact ends rfl
    · rw [hstop] at h
      cases h
      refine ⟨rfl, fun ends ↦ ?_⟩
      exact reads_operators_nil sub level fuel left (endsAt_of_endsExpr (ends rfl) level)

end Operators

end

/-- Every expression stays as it is where it can only end. -/
theorem stays_expression (hstop : stop.kind = .eof) (fuel level : Nat) :
    FailsAt stop (expression fuel level) ∧
      Stays stop d (Followed d endsExpr) (expression fuel level) := by
  induction fuel generalizing level with
  | zero => exact ⟨(fun _ _ h ↦ by cases h), .throw _⟩
  | succ fuel ih =>
    have sub (level : Nat) := (ih level).2
    refine ⟨(failsAt_operand hstop _ fuel level).bind _, ?_⟩
    refine (stays_operand hstop sub (ih 1).1 fuel level).bind
      (fun left ↦ stays_operators hstop sub level fuel left) ?_
    rintro left _ _ _ run ends rfl
    cases operators_nil hstop run
    exact ends rfl

/-- What is read before the end of the input is read where the input goes on, with any bound above
the number of the tokens. -/
theorem expression_inPlace (hstop : stop.kind = .eof) {ts us : List Token} {e : Expr}
    {n m level : Nat} (run : expression n level ⟨ts, stop⟩ = .ok e ⟨us, stop⟩) (hm : ts.length < m)
    (hn : ts.length < n) (hd : us = [] → endsExpr d.peek.kind = true) :
    expression m level ⟨ts ++ d.rest, d.eof⟩ = .ok e ⟨us ++ d.rest, d.eof⟩ := by
  have alone : expression m level ⟨ts, stop⟩ = .ok e ⟨us, stop⟩ :=
    (expression_eq_of_bound hstop hm hn level).trans run
  obtain ⟨vs, left, inPlace⟩ := (stays_expression hstop m level).2 alone
  cases left
  exact inPlace hd

/-- The same of a name with its suffixes, behind which an operator may stand. -/
theorem chain_inPlace (hstop : stop.kind = .eof) {ts us : List Token} {e : Expr} {n m : Nat}
    (run : chain (expression n 1) n ⟨ts, stop⟩ = .ok e ⟨us, stop⟩) (hm : ts.length ≤ m)
    (hn : ts.length ≤ n) (hd : us = [] → endsChain d.peek.kind = true) :
    chain (expression m 1) m ⟨ts ++ d.rest, d.eof⟩ = .ok e ⟨us ++ d.rest, d.eof⟩ := by
  have alone : chain (expression m 1) m ⟨ts, stop⟩ = .ok e ⟨us, stop⟩ :=
    (chain_eq_of_bound hstop hm hn).trans run
  have sub := stays_expression (d := d) hstop m 1
  obtain ⟨vs, left, inPlace⟩ := stays_chain hstop sub.2 sub.1 m alone
  cases left
  exact inPlace hd

/-! ## Whole expressions -/

theorem startsExpr_of_primary {expr : Parser Expr} {c c' : Cursor} {e : Expr}
    (h : primary expr c = .ok e c') :
    startsExpr c.peek.kind = true := by
  rw [primary, peek_bind] at h
  revert h
  generalize c.peek.kind = kind
  split
  case h_7 | h_8 => exact fun h ↦ by cases h
  all_goals exact fun _ ↦ rfl

theorem opensExpr_of_expression {fuel level : Nat} {c c' : Cursor} {e : Expr}
    (h : expression fuel level c = .ok e c') : opensExpr c.peek.kind = true := by
  cases fuel with
  | zero => cases h
  | succ fuel =>
    obtain ⟨left, c₁, hleft, -⟩ := exists_of_bind_eq_ok h
    rw [operand, peekKind_bind] at hleft
    rw [opensExpr]
    cases hop : UnaryOp.ofKind? c.peek.kind with
    | some op => exact Bool.or_true _
    | none =>
      rw [hop] at hleft
      obtain ⟨e, c₂, hprimary, -⟩ := exists_of_bind_eq_ok hleft
      rw [startsExpr_of_primary hprimary]
      rfl

theorem trimmed_eq_self {ts : List Token} (h : trimmed ts = ts) :
    ts.dropWhile isSeparator = ts ∧
      ∀ nonempty : ts ≠ [], ¬isSeparator (ts.getLast nonempty) = true := by
  have skipped : ts.dropWhile isSeparator = ts := by
    apply (List.dropWhile_suffix _).eq_of_length_le
    calc ts.length = (trimmed ts).length := by rw [h]
      _ ≤ (ts.dropWhile isSeparator).length := (List.rdropWhile_prefix _ _).length_le
  rw [trimmed, skipped] at h
  exact ⟨skipped, List.rdropWhile_eq_self_iff.mp h⟩

theorem wholeExpression_cases {fuel : Nat} {c c' : Cursor} {e : Expr}
    (h : wholeExpression fuel c = .ok e c') :
    ∃ d, expression fuel 1 (c.skip isSeparator) = .ok e d ∧ c' = d.skip isSeparator ∧
      c'.peek.kind = .eof := by
  obtain ⟨_, c₁, before, h⟩ := exists_of_bind_eq_ok h
  cases before
  obtain ⟨e', d, run, h⟩ := exists_of_bind_eq_ok h
  obtain ⟨_, c₂, behind, h⟩ := exists_of_bind_eq_ok h
  cases behind
  rw [peekKind_bind] at h
  by_cases ended : (d.skip isSeparator).peek.kind = .eof
  · cases h.symm.trans (congrFun (if_pos ended) _)
    exact ⟨d, run, rfl, ended⟩
  · cases h.symm.trans (congrFun (if_neg ended) _)

/-- The tokens are accepted as a whole expression, and no line end or colon stands around it. -/
structure Spells (ts : List Token) (e : Expr) : Prop where
  accepted : parseExpression ts = .ok e
  tight : trimmed ts = ts
  inside : ∀ t ∈ ts, t.kind ≠ .eof

namespace Spells

variable {ts : List Token} {e : Expr}

/-- All of the tokens are read. -/
theorem run (h : Spells ts e) :
    expression (nestingBound ts) 1 (.ofTokens ts) = .ok e ⟨[], (Cursor.ofTokens ts).eof⟩ := by
  obtain ⟨skipped, last⟩ := trimmed_eq_self h.tight
  obtain ⟨c', whole⟩ := exists_of_run_eq_ok h.accepted
  obtain ⟨⟨rest, eof⟩, run, rfl, ended⟩ := wholeExpression_cases whole
  have start : (Cursor.ofTokens ts).skip isSeparator = .ofTokens ts := by
    rw [Cursor.skip, show (Cursor.ofTokens ts).rest = ts from rfl, skipped]
    rfl
  rw [start] at run
  obtain ⟨rfl, consumed, tokens⟩ := expression_along (Cursor.kind_eof_ofTokens ts) run
  change consumed ++ rest = ts at tokens
  have nothing : rest.dropWhile isSeparator = [] := by
    cases left : rest.dropWhile isSeparator with
    | nil => rfl
    | cons t us =>
      have mem : t ∈ rest := by
        apply (List.dropWhile_suffix isSeparator).subset
        rw [left]
        exact List.mem_cons_self
      rw [Cursor.skip, Cursor.peek, left] at ended
      exact absurd ended (h.inside t (tokens ▸ List.mem_append_right consumed mem))
  have separators := List.dropWhile_eq_nil_iff.mp nothing
  have empty : rest = [] := by
    by_contra nonempty
    have filled : ts ≠ [] := tokens ▸ List.append_ne_nil_of_right_ne_nil consumed nonempty
    refine last filled (separators _ ?_)
    subst tokens
    rw [List.getLast_append_of_ne_nil _ nonempty]
    exact List.getLast_mem nonempty
  rw [run, empty]

/-- The tokens are read where they stand, with a bound above their number. -/
theorem reads (h : Spells ts e) {fuel : Nat} (length : ts.length < fuel) :
    Reads endsExpr (expression fuel 1) ts e := by
  intro k eof hk
  have stop := Cursor.kind_eof_ofTokens ts
  have bound : ts.length < nestingBound ts := Nat.lt_succ_of_lt (Nat.lt_succ_self _)
  exact expression_inPlace (d := ⟨k, eof⟩) stop h.run length bound fun _ ↦ hk

theorem opens (h : Spells ts e) (next : Kind) : opensExpr (firstKind ts next) = true := by
  have opens := opensExpr_of_expression h.run
  cases ts with
  | nil => cases opens
  | cons t ts => exact opens

theorem ne_nil (h : Spells ts e) : ts ≠ [] := by
  rintro rfl
  cases h.opens .eof

end Spells

end MiniBasic.Parser
