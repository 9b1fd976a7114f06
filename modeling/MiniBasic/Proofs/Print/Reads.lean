import MiniBasic.Proofs.Print.Parsed

/-!
# Reading printed expressions

`Reads follow p ts a` says that the parser `p` reads the tokens `ts` as `a`, before any tokens whose
first is of a kind that may follow. Every printed expression is read back, with a bound on nesting
that is no less than the number of its tokens.
-/

namespace MiniBasic

open Token (Word Spelled word keyword symbol lineEnd)

/-- The kind of the first token, where `next` is the kind of what stands behind the tokens. -/
def firstKind (ts : List Token) (next : Kind) : Kind :=
  match ts with
  | t :: _ => t.kind
  | [] => next

theorem firstKind_append (ts us : List Token) (next : Kind) :
    firstKind (ts ++ us) next = firstKind ts (firstKind us next) := by
  cases ts <;> rfl

theorem Cursor.kind_peek_append (ts k : List Token) (eof : Token) :
    (Cursor.mk (ts ++ k) eof).peek.kind = firstKind ts (Cursor.mk k eof).peek.kind := by
  cases ts <;> rfl

theorem length_parens (ts : List Token) : (parens ts).length = ts.length + 2 := by
  simp [parens]

/-- The tokens of an expression without the parentheses that an operator is printed in. -/
def Expr.unwrapped : Expr → List Token
  | unary op e => op.token :: e.tokens
  | binary op l r => l.tokens ++ op.token :: r.tokens
  | e => e.tokens

namespace Parser

variable {α β : Type} {F G : Kind → Bool}

/-- The parser reads the tokens as `a` and stops behind them, if what stands there may follow. -/
def Reads (follow : Kind → Bool) (p : Parser α) (ts : List Token) (a : α) : Prop :=
  ∀ ⦃k : List Token⦄ ⦃eof : Token⦄, follow (Cursor.mk k eof).peek.kind = true →
    p ⟨ts ++ k, eof⟩ = .ok a ⟨k, eof⟩

theorem ne_of_true_of_false {kind other : Kind} (h : F kind = true) (ho : F other = false) :
    kind ≠ other := by
  rintro rfl
  rw [h] at ho
  cases ho

theorem not_isSeparator {t : Token} (h : F t.kind = true) (newline : F .newline = false)
    (colon : F (.symbol .colon) = false) : isSeparator t = false := by
  apply Bool.or_eq_false_iff.mpr
  constructor
  · exact beq_eq_false_iff_ne.mpr (ne_of_true_of_false h newline)
  · exact beq_eq_false_iff_ne.mpr (ne_of_true_of_false h colon)

namespace Reads

variable {p : Parser α} {f : α → Parser β} {ts us : List Token} {a : α} {b : β}

theorem pure (a : α) : Reads G (Pure.pure a) [] a :=
  fun _ _ _ ↦ rfl

theorem bind (hp : Reads F p ts a) (hf : Reads G (f a) us b)
    (follow : ∀ kind, G kind = true → F (firstKind us kind) = true) :
    Reads G (p >>= f) (ts ++ us) b := by
  intro k eof hk
  have first : p ⟨ts ++ (us ++ k), eof⟩ = .ok a ⟨us ++ k, eof⟩ := by
    refine hp ?_
    rw [Cursor.kind_peek_append]
    exact follow _ hk
  rw [List.append_assoc, bind_ok first]
  exact hf hk

/-- Nothing is read behind the tokens of the first parser. -/
theorem bind_nil (hp : Reads F p ts a) (hf : Reads G (f a) [] b)
    (follow : ∀ kind, G kind = true → F kind = true) : Reads G (p >>= f) ts b := by
  have := hp.bind hf follow
  rwa [List.append_nil] at this

theorem map {g : α → β} (hp : Reads F p ts a) : Reads F (do return g (← p)) ts (g a) :=
  hp.bind_nil (.pure _) fun _ ↦ id

theorem mono (hp : Reads F p ts a) (h : ∀ kind, G kind = true → F kind = true) : Reads G p ts a :=
  fun _ _ hk ↦ hp (h _ hk)

theorem advance {f : Unit → Parser β} (t : Token) (hf : Reads G (f ()) us b) :
    Reads G (Parser.advance >>= f) (t :: us) b :=
  fun _ _ hk ↦ hf hk

theorem peek {f : Token → Parser β} {t : Token} (hf : Reads G (f t) (t :: us) b) :
    Reads G (Parser.peek >>= f) (t :: us) b :=
  fun _ _ hk ↦ hf hk

theorem peekKind {f : Kind → Parser β}
    (hf : ∀ next, G next = true → Reads G (f (firstKind us next)) us b) :
    Reads G (Parser.peekKind >>= f) us b := by
  intro k eof hk
  rw [peekKind_bind, Cursor.kind_peek_append]
  exact hf _ hk hk

theorem accepted {kind : Kind} {t : Token} (ht : t.kind = kind) :
    Reads G (Parser.accept kind) [t] true := by
  intro k eof _
  rw [Parser.accept, peekKind_bind]
  exact congrFun (if_pos ht) _

theorem refused {kind : Kind} (hne : ∀ next, G next = true → next ≠ kind) :
    Reads G (Parser.accept kind) [] false := by
  intro k eof hk
  rw [Parser.accept, peekKind_bind]
  exact congrFun (if_neg (hne _ hk)) _

theorem accept {f : Bool → Parser β} {kind : Kind} {t : Token} (ht : t.kind = kind)
    (hf : Reads G (f true) us b) : Reads G (Parser.accept kind >>= f) (t :: us) b :=
  (accepted (G := fun _ ↦ true) ht).bind hf fun _ _ ↦ rfl

theorem refuse {f : Bool → Parser β} {kind : Kind}
    (hne : ∀ next, G next = true → firstKind us next ≠ kind) (hf : Reads G (f false) us b) :
    Reads G (Parser.accept kind >>= f) us b :=
  (refused (G := (· != kind)) fun _ ↦ bne_iff_ne.mp).bind hf fun next hnext ↦
    bne_iff_ne.mpr (hne next hnext)

theorem discard (hp : Reads F p ts a) : Reads F (Functor.discard p) ts () :=
  hp.map

theorem expect {kind : Kind} {t : Token} (ht : t.kind = kind) (what : Expected) :
    Reads (fun _ ↦ true) (Parser.expect kind what) [t] t := by
  intro k eof _
  rw [Parser.expect, peek_bind]
  exact congrFun (if_pos ht) _

theorem expectKeyword {f : Unit → Parser β} (kw : Keyword) {what : Expected}
    (hf : Reads G (f ()) us b) :
    Reads G (Parser.expectKeyword kw what >>= f) (keyword kw :: us) b :=
  (expect rfl what).discard.bind hf fun _ _ ↦ rfl

theorem expectSymbol {f : Unit → Parser β} (s : Symbol) {what : Expected}
    (hf : Reads G (f ()) us b) :
    Reads G (Parser.expectSymbol s what >>= f) (symbol s :: us) b :=
  (expect rfl what).discard.bind hf fun _ _ ↦ rfl

theorem expectName {f : String → Parser β} {n : String} (hn : Spelled .identifier n)
    {what : Expected} (hf : Reads G (f n) us b) :
    Reads G (Parser.expectName what >>= f) (word n :: us) b :=
  (expect hn.2 what).map.bind hf fun _ _ ↦ rfl

end Reads

/-- Items with commas between them, each given as something with its tokens and its value. -/
theorem reads_commaList_map {item : Parser β} {tokens : α → List Token} {v : α → β} {items : List α}
    (nonempty : items ≠ []) (h : ∀ a ∈ items, Reads F item (tokens a) (v a))
    (comma : F (.symbol .comma) = true)
    (follow : ∀ kind, G kind = true → F kind = true ∧ kind ≠ .symbol .comma) {fuel : Nat}
    (hfuel : items.length ≤ fuel) :
    Reads G (commaList item fuel) (commas (items.map tokens)) (items.map v) := by
  induction items generalizing fuel with
  | nil => exact absurd rfl nonempty
  | cons first items ih =>
    obtain ⟨fuel, rfl⟩ := Nat.exists_eq_add_one.mpr (Nat.zero_lt_of_lt hfuel)
    have hfirst := h first (List.mem_cons_self ..)
    have hitems := fun a ha ↦ h a (List.mem_cons_of_mem _ ha)
    cases items with
    | nil =>
      rw [commas, List.map_singleton, List.intercalate_singleton]
      refine hfirst.bind_nil (.refuse (fun next hnext ↦ (follow next hnext).2) ?_) fun kind hkind ↦
        (follow kind hkind).1
      exact .pure _
    | cons second items =>
      have more := ih (List.cons_ne_nil _ _) hitems (Nat.le_of_succ_le_succ hfuel)
      have tokens : commas ((first :: second :: items).map tokens) =
          tokens first ++ symbol .comma :: commas ((second :: items).map tokens) := by
        simp [commas, List.intercalate_cons_cons]
      rw [tokens]
      refine hfirst.bind (.accept rfl ?_) fun _ _ ↦ comma
      exact more.map

/-- Items with commas between them. -/
theorem reads_commaList {item : Parser α} {tokens : α → List Token} {items : List α}
    (nonempty : items ≠ []) (h : ∀ a ∈ items, Reads F item (tokens a) a)
    (comma : F (.symbol .comma) = true)
    (follow : ∀ kind, G kind = true → F kind = true ∧ kind ≠ .symbol .comma) {fuel : Nat}
    (hfuel : items.length ≤ fuel) :
    Reads G (commaList item fuel) (commas (items.map tokens)) items := by
  have read := reads_commaList_map (v := id) nonempty h comma follow hfuel
  rwa [List.map_id] at read

/-! ## Separated items -/

section Separated

variable {tokens : α → List Token} {items : List α}

theorem firstKind_commas (first : α) (items : List α) (next : Kind) :
    ∃ next', firstKind (commas ((first :: items).map tokens)) next =
      firstKind (tokens first) next' := by
  rw [commas, List.map_cons, separated_cons, firstKind_append]
  exact ⟨_, rfl⟩

theorem length_tokens_le_commas {a : α} (ha : a ∈ items) :
    (tokens a).length ≤ (commas (items.map tokens)).length := by
  cases items with
  | nil => cases ha
  | cons first items =>
    rw [commas, List.map_cons, separated_cons, List.length_append]
    rcases List.mem_cons.mp ha with rfl | ha
    · omega
    · have : symbol .comma :: tokens a ∈ (items.map tokens).map (symbol .comma :: ·) :=
        List.mem_map_of_mem (List.mem_map_of_mem ha)
      have := (List.sublist_flatten_of_mem this).length_le
      rw [List.flatMap_def]
      simp only [List.length_cons] at this
      omega

/-- There are no more items than tokens. -/
theorem length_le_commas (h : ∀ a ∈ items, 0 < (tokens a).length) :
    items.length ≤ (commas (items.map tokens)).length := by
  cases items with
  | nil => exact Nat.zero_le _
  | cons first items =>
    have rest : items.length ≤ ((items.map tokens).flatMap (symbol .comma :: ·)).length := by
      clear h
      induction items with
      | nil => exact Nat.zero_le _
      | cons a items ih =>
        rw [List.map_cons, List.flatMap_cons, List.length_append, List.length_cons,
          List.length_cons]
        omega
    have := h first (List.mem_cons_self ..)
    rw [commas, List.map_cons, separated_cons, List.length_append, List.length_cons]
    omega

/-- Items behind an opening parenthesis, and the closing one, each given as something with its
tokens and its value. -/
theorem reads_listed_map {item : Parser β} {v : α → β} {what : Expected}
    (h : ∀ a ∈ items, Reads F item (tokens a) (v a)) (comma : F (.symbol .comma) = true)
    (close : F (.symbol .rightParen) = true)
    (first : ∀ a ∈ items, ∀ next, firstKind (tokens a) next ≠ .symbol .rightParen) {fuel : Nat}
    (hfuel : (commas (items.map tokens)).length ≤ fuel) :
    Reads G (do
      if ← acceptSymbol .rightParen then
        return []
      else
        let items ← commaList item fuel
        expectSymbol .rightParen what
        return items) (commas (items.map tokens) ++ [symbol .rightParen]) (items.map v) := by
  cases items with
  | nil => exact .accept rfl (.pure [])
  | cons a items =>
    have pos (b : α) (hb : b ∈ a :: items) : 0 < (tokens b).length := by
      refine List.length_pos_iff.mpr fun none ↦ first b hb (.symbol .rightParen) ?_
      rw [none]
      rfl
    have list : Reads (· == .symbol .rightParen) (commaList item fuel)
        (commas ((a :: items).map tokens)) ((a :: items).map v) := by
      refine reads_commaList_map (List.cons_ne_nil _ _) h comma (fun kind hkind ↦ ?_)
        ((length_le_commas pos).trans hfuel)
      obtain rfl := eq_of_beq hkind
      exact ⟨close, by decide⟩
    refine .refuse (fun next _ ↦ ?_) (list.bind (.expectSymbol _ (.pure _)) fun _ _ ↦ rfl)
    rw [firstKind_append]
    obtain ⟨next', start⟩ :=
      @firstKind_commas _ tokens a items (firstKind [symbol .rightParen] next)
    rw [start]
    exact first a (List.mem_cons_self ..) next'

/-- Items behind an opening parenthesis, and the closing one. -/
theorem reads_listed {item : Parser α} {what : Expected}
    (h : ∀ a ∈ items, Reads F item (tokens a) a) (comma : F (.symbol .comma) = true)
    (close : F (.symbol .rightParen) = true)
    (first : ∀ a ∈ items, ∀ next, firstKind (tokens a) next ≠ .symbol .rightParen) {fuel : Nat}
    (hfuel : (commas (items.map tokens)).length ≤ fuel) :
    Reads G (do
      if ← acceptSymbol .rightParen then
        return []
      else
        let items ← commaList item fuel
        expectSymbol .rightParen what
        return items) (commas (items.map tokens) ++ [symbol .rightParen]) items := by
  simpa only [List.map_id] using reads_listed_map (v := id) h comma close first hfuel

end Separated

/-! ## Type names -/

/-- What may stand behind an operand: no further suffix. -/
def endsChain : Kind → Bool
  | .symbol .dot | .symbol .leftParen => false
  | _ => true

theorem dottedName_words (ws : List String) (name : String) {k : List Token}
    (hk : ∀ t ∈ k.head?, t.kind ≠ .symbol .dot) :
    dottedName name ((ws.flatMap fun v ↦ [symbol .dot, word v]) ++ k) =
      (ws.foldl (fun n v ↦ n ++ "." ++ v) name, k) := by
  induction ws generalizing name with
  | nil =>
    rw [List.flatMap_nil, List.nil_append, List.foldl_nil]
    unfold dottedName
    split
    case h_1 dot _ _ => rw [if_neg fun h ↦ hk dot rfl h.1]
    case h_2 => rfl
  | cons v ws ih =>
    have isWord : (word v).isWord = true := Token.isWord_ofWord v
    rw [List.flatMap_cons, List.foldl_cons, ← ih]
    change dottedName name (symbol .dot :: word v :: _) = _
    rw [dottedName, if_pos ⟨rfl, isWord⟩]
    rfl

theorem reads_typeName {type : String} (h : TypeName type) :
    Reads endsChain typeName (typeTokens type) type := by
  obtain ⟨w, ws, hw, hws, rfl⟩ := h
  rw [typeTokens_foldl hw hws]
  refine .peek ?_
  rw [if_pos (show (word w).isWord = true from Token.isWord_ofWord w)]
  refine .advance _ fun k eof hk ↦ ?_
  have notDot (t : Token) (ht : t ∈ k.head?) : t.kind ≠ .symbol .dot := by
    cases k with
    | nil => cases ht
    | cons u k =>
      obtain rfl := Option.some.inj ht
      intro dot
      rw [show (Cursor.mk (u :: k) eof).peek.kind = u.kind from rfl, dot] at hk
      cases hk
  have notParen : (Cursor.mk k eof).peek.kind ≠ .symbol .leftParen := by
    intro paren
    rw [paren] at hk
    cases hk
  have dotted := dottedName_words ws (word w).text notDot
  rw [modifyGet_bind]
  dsimp only
  rw [dotted, peekKind_bind]
  exact congrFun (if_neg fun parens ↦ notParen parens.1) _

/-! ## Operands -/

/-- The kinds of token that a printed expression starts with. -/
def startsExpr : Kind → Bool
  | .number | .text | .identifier | .keyword .emptyKw | .keyword .newKw | .symbol .leftParen => true
  | _ => false

theorem startsExpr_asObject (e : Expr) {ts : List Token} {next : Kind}
    (h : startsExpr (firstKind ts next) = true) :
    startsExpr (firstKind (e.asObject ts) next) = true := by
  cases e with
  | number x => rfl
  | new type => rfl
  | _ => exact h

theorem startsExpr_tokens {e : Expr} (h : e.Printable) (next : Kind) :
    startsExpr (firstKind e.tokens next) = true := by
  induction h generalizing next with
  | name h =>
    rw [Expr.tokens]
    change startsExpr (Kind.ofWord _) = true
    rcases h with h | h
    · rw [h.2]
      rfl
    · rw [h.2]
      rfl
  | call h hargs ih ihargs =>
    rw [Expr.tokens, firstKind_append]
    exact startsExpr_asObject _ (ih _)
  | member h hp ih =>
    rw [Expr.tokens, firstKind_append]
    exact startsExpr_asObject _ (ih _)
  | _ =>
    rw [Expr.tokens]
    rfl

theorem length_tokens_pos {e : Expr} (h : e.Printable) : 0 < e.tokens.length := by
  refine List.length_pos_iff.mpr fun none ↦ ?_
  have := startsExpr_tokens h .eof
  rw [none] at this
  cases this

/-- What may stand behind an expression: neither a suffix nor an operator. -/
def endsExpr (kind : Kind) : Bool :=
  endsChain kind && (BinaryOp.ofKind? kind).isNone

theorem endsChain_of_endsExpr {kind : Kind} (h : endsExpr kind = true) : endsChain kind = true :=
  (Bool.and_eq_true_iff.mp h).1

/-- The parser reads all printed expressions of fewer than `n` tokens, with or without the
parentheses around an operator. -/
structure ReadsBelow (n : Nat) (expr : Parser Expr) : Prop where
  tokens : ∀ {e : Expr}, e.Printable → e.tokens.length < n → Reads endsExpr expr e.tokens e
  unwrapped : ∀ {e : Expr}, e.Printable → e.unwrapped.length < n → Reads endsExpr expr e.unwrapped e

/-! ## Primaries -/

theorem reads_primary_number {expr : Parser Expr} {x : Float} (h : Number.Unsigned x) :
    Reads F (primary expr) [.number (Number.write .subscript x)] (.number x) := by
  obtain ⟨ds, fs, htext, numeral, value⟩ := Number.exists_write h .subscript
  have literal : literal? (Number.write .subscript x) = some x := by
    rw [numeral.literal? .none (htext.trans (List.append_nil _).symm), value]
  refine .peek ?_
  simp only [Token.number, literal]
  exact .advance _ (.pure _)

theorem reads_primary_name {expr : Parser Expr} {n : String}
    (h : Spelled .identifier n ∨ Spelled (.keyword .emptyKw) n) :
    Reads F (primary expr) [word n] (.name n) := by
  refine .peek ?_
  rcases h with h | h
  · rw [show (word n).kind = .identifier from h.2]
    exact .advance _ (.pure _)
  · rw [show (word n).kind = .keyword .emptyKw from h.2]
    exact .advance _ (.pure _)

theorem reads_primary_new {expr : Parser Expr} {type : String} (h : TypeName type) :
    Reads endsChain (primary expr) (keyword .newKw :: typeTokens type) (.new type) :=
  .peek (.advance _ (reads_typeName h).map)

theorem reads_primary_parens {expr : Parser Expr} {ts : List Token} {e : Expr}
    (h : Reads endsExpr expr ts e) : Reads F (primary expr) (parens ts) e :=
  .peek (.advance _ (h.bind (.expectSymbol _ (.pure _)) fun _ _ ↦ rfl))

/-! ## Suffixes -/

theorem reads_suffixes_nil (expr : Parser Expr) (m : Nat) (e : Expr) :
    Reads endsChain (suffixes expr (m + 1) e) [] e := by
  rw [suffixes]
  refine .refuse ?_ (.refuse ?_ (.pure e))
  all_goals
    rintro _ h rfl
    cases h

theorem suffixes_member (expr : Parser Expr) (m : Nat) (e : Expr) (property : String)
    (k : List Token) (eof : Token) :
    suffixes expr (m + 1) e ⟨symbol .dot :: word property :: k, eof⟩ =
      suffixes expr m (.member e property) ⟨k, eof⟩ := by
  have isWord : (word property).isWord = true := Token.isWord_ofWord property
  rw [suffixes]
  change (if (word property).isWord then _ else _ : Parser Expr) _ = _
  rw [if_pos isWord]
  rfl

theorem suffixes_call {expr : Parser Expr} {m : Nat} {us : List Token} {args : List Expr}
    (hargs : Reads (fun _ ↦ true) (arguments expr m) (us ++ [symbol .rightParen]) args) (e : Expr)
    (k : List Token) (eof : Token) :
    suffixes expr (m + 1) e ⟨parens us ++ k, eof⟩ = suffixes expr m (.call e args) ⟨k, eof⟩ := by
  rw [suffixes]
  change (arguments expr m >>= fun args ↦ suffixes expr m (.call e args))
    ⟨(us ++ [symbol .rightParen]) ++ k, eof⟩ = _
  rw [bind_ok (hargs rfl)]

/-- The parser of chains reads the tokens as `e` and goes on with the suffixes behind them. The
bound that is left for these is enough for what the rest of `n` tokens may hold. -/
def ReadsObject (expr : Parser Expr) (n : Nat) (ts : List Token) (e : Expr) : Prop :=
  ∃ m, n < m + ts.length ∧ ∀ k eof, chain expr n ⟨ts ++ k, eof⟩ = suffixes expr m e ⟨k, eof⟩

namespace ReadsObject

variable {expr : Parser Expr} {n : Nat} {ts : List Token} {e : Expr}

theorem of_primary (h : Reads (fun _ ↦ true) (primary expr) ts e) (pos : 0 < ts.length) :
    ReadsObject expr n ts e :=
  ⟨n, by omega, fun k eof ↦ bind_ok (h rfl)⟩

theorem of_parens (h : Reads endsExpr expr ts e) : ReadsObject expr n (parens ts) e :=
  of_primary (reads_primary_parens h) (Nat.zero_lt_succ _)

theorem member (h : ReadsObject expr n ts e) (property : String) (length : ts.length + 2 ≤ n) :
    ReadsObject expr n (ts ++ [symbol .dot, word property]) (.member e property) := by
  obtain ⟨m, hm, chain⟩ := h
  obtain ⟨m, rfl⟩ : ∃ i, m = i + 1 := ⟨m - 1, by omega⟩
  refine ⟨m, ?_, fun k eof ↦ ?_⟩
  · simp only [List.length_append, List.length_cons, List.length_nil]
    omega
  · rw [List.append_assoc, chain]
    exact suffixes_member expr m e property k eof

theorem call (h : ReadsObject expr n ts e) {us : List Token} {args : List Expr}
    (hargs : ∀ m, us.length ≤ m → Reads (fun _ ↦ true) (arguments expr m)
      (us ++ [symbol .rightParen]) args)
    (length : ts.length + us.length + 2 ≤ n) :
    ReadsObject expr n (ts ++ parens us) (.call e args) := by
  obtain ⟨m, hm, chain⟩ := h
  obtain ⟨m, rfl⟩ : ∃ i, m = i + 1 := ⟨m - 1, by omega⟩
  refine ⟨m, ?_, fun k eof ↦ ?_⟩
  · rw [List.length_append, length_parens]
    omega
  · rw [List.append_assoc, chain]
    exact suffixes_call (hargs m (by omega)) e k eof

/-- Without suffixes behind it, an object is a chain. -/
theorem reads_chain (h : ReadsObject expr n ts e) (length : ts.length ≤ n) :
    Reads endsChain (chain expr n) ts e := by
  obtain ⟨m, hm, chain⟩ := h
  obtain ⟨m, rfl⟩ : ∃ i, m = i + 1 := ⟨m - 1, by omega⟩
  intro k eof hk
  rw [chain]
  exact reads_suffixes_nil expr m e hk

end ReadsObject

section Operands

variable {n : Nat} {expr : Parser Expr} (hexpr : ReadsBelow n expr)

include hexpr

theorem reads_arguments {args : List Expr} (hargs : ∀ a ∈ args, a.Printable) {fuel : Nat}
    (length : (commas (args.map Expr.tokens)).length < n)
    (hfuel : (commas (args.map Expr.tokens)).length ≤ fuel) :
    Reads F (arguments expr fuel) (commas (args.map Expr.tokens) ++ [symbol .rightParen]) args := by
  refine reads_listed (F := endsExpr) (fun a ha ↦ ?_) rfl rfl (fun a ha next ↦ ?_) hfuel
  · exact hexpr.tokens (hargs a ha) ((length_tokens_le_commas ha).trans_lt length)
  · exact ne_of_true_of_false (startsExpr_tokens (hargs a ha) next) rfl

/-- An object is read up to its end. -/
theorem readsObject {e : Expr} (he : e.Printable) (length : (e.asObject e.tokens).length ≤ n) :
    ReadsObject expr n (e.asObject e.tokens) e := by
  -- Parsing collects suffixes from the left, so what follows the object has to stay open here.
  have enclosed {e : Expr} (he : e.Printable) (length : (parens e.unwrapped).length ≤ n) :
      ReadsObject expr n (parens e.unwrapped) e := by
    rw [length_parens] at length
    exact .of_parens (hexpr.unwrapped he (by omega))
  induction he with
  | number h => exact enclosed (.number h) length
  | text h =>
    rw [Expr.tokens]
    exact .of_primary (.peek (.advance _ (.pure _))) Nat.one_pos
  | name h =>
    rw [Expr.tokens]
    exact .of_primary (reads_primary_name h) Nat.one_pos
  | unary h =>
    rw [Expr.tokens] at length ⊢
    exact enclosed (.unary h) length
  | binary hl hr =>
    rw [Expr.tokens] at length ⊢
    exact enclosed (.binary hl hr) length
  | new h => exact enclosed (.new h) length
  | @call callee args h hargs ih ihargs =>
    have tokens : (Expr.call callee args).asObject (Expr.call callee args).tokens =
        callee.asObject callee.tokens ++ parens (commas (args.map Expr.tokens)) := by
      rw [Expr.tokens]
      rfl
    rw [tokens, List.length_append, length_parens] at length
    rw [tokens]
    exact (ih (by omega)).call (fun m hm ↦ reads_arguments hexpr hargs (by omega) hm) (by omega)
  | @member object property h hp ih =>
    have tokens : (Expr.member object property).asObject (Expr.member object property).tokens =
        object.asObject object.tokens ++ [symbol .dot, word property] := by
      rw [Expr.tokens]
      rfl
    have suffix_length : [symbol .dot, word property].length = 2 := rfl
    rw [tokens, List.length_append, suffix_length] at length
    rw [tokens]
    exact (ih (by omega)).member property length

/-- A printed expression is read as an operand. -/
theorem reads_chain {e : Expr} (he : e.Printable) (length : e.tokens.length ≤ n) :
    Reads endsChain (chain expr n) e.tokens e := by
  obtain ⟨m, rfl⟩ := Nat.exists_eq_add_one.mpr ((length_tokens_pos he).trans_le length)
  have object := readsObject hexpr he
  -- Only a number and a `New` are printed otherwise as objects.
  cases he with
  | number h =>
    rw [Expr.tokens]
    exact (reads_primary_number h).bind_nil (reads_suffixes_nil expr m _) fun _ ↦ id
  | new h =>
    rw [Expr.tokens]
    exact (reads_primary_new h).bind_nil (reads_suffixes_nil expr m _) fun _ ↦ id
  | _ => exact (object length).reads_chain length

end Operands

/-! ## Operators -/

theorem ofKind?_unaryToken (op : UnaryOp) : UnaryOp.ofKind? op.token.kind = some op := by
  cases op <;> rfl

theorem ofKind?_binaryToken (op : BinaryOp) : BinaryOp.ofKind? op.token.kind = some op := by
  cases op <;> rfl

theorem endsChain_binaryToken (op : BinaryOp) : endsChain op.token.kind = true := by
  cases op <;> rfl

theorem one_le_level (op : BinaryOp) : 1 ≤ op.level := by
  cases op <;> decide

theorem not_unary_of_startsExpr {kind : Kind} (h : startsExpr kind = true) :
    UnaryOp.ofKind? kind = none := by
  cases kind with
  | symbol s => cases s <;> first | rfl | cases h
  | keyword k => cases k <;> first | rfl | cases h
  | _ => rfl

variable {sub : Nat → Parser Expr} {n : Nat}

/-- What may stand behind an expression of the given level: neither a suffix nor an operator of that
level or above. -/
def endsAt (level : Nat) (kind : Kind) : Bool :=
  endsChain kind && (BinaryOp.ofKind? kind).all (·.level < level)

theorem endsAt_of_endsExpr {kind : Kind} (h : endsExpr kind = true) (level : Nat) :
    endsAt level kind = true := by
  obtain ⟨chain, none⟩ := Bool.and_eq_true_iff.mp h
  rw [endsAt, chain, Option.isNone_iff_eq_none.mp none]
  rfl

theorem reads_operators_nil (sub : Nat → Parser Expr) (level m : Nat) (e : Expr) :
    Reads (endsAt level) (operators sub level (m + 1) e) [] e := by
  intro k eof hk
  obtain ⟨-, looser⟩ := Bool.and_eq_true_iff.mp hk
  rw [operators, peekKind_bind, List.nil_append]
  cases hop : BinaryOp.ofKind? (Cursor.mk k eof).peek.kind with
  | none => rfl
  | some op =>
    rw [hop, Option.all_some, decide_eq_true_iff] at looser
    exact congrFun (if_pos looser) _

theorem reads_operand {level : Nat} {e : Expr} {ts : List Token}
    (starts : ∀ next, startsExpr (firstKind ts next) = true)
    (h : Reads endsChain (chain (sub 1) n) ts e) :
    Reads endsChain (operand sub n level) ts e := by
  intro k eof hk
  have none : UnaryOp.ofKind? (Cursor.mk (ts ++ k) eof).peek.kind = none := by
    rw [Cursor.kind_peek_append]
    exact not_unary_of_startsExpr (starts _)
  rw [operand, peekKind_bind]
  simp only [none]
  exact h hk

theorem reads_operand_unary (op : UnaryOp) {level : Nat} {e : Expr} {ts : List Token}
    (h : Reads F (sub (max op.level level)) ts e) :
    Reads F (operand sub n level) (op.token :: ts) (.unary op e) := by
  refine .peekKind fun _ _ ↦ ?_
  simp only [firstKind, ofKind?_unaryToken]
  exact .advance _ h.map

/-- One operator with its right operand. -/
theorem operators_cons (op : BinaryOp) {level : Nat} (hop : level ≤ op.level) {m : Nat} {l r : Expr}
    {ts k : List Token} {eof : Token} (h : Reads F (sub (op.level + 1)) ts r)
    (hk : F (Cursor.mk k eof).peek.kind = true) :
    operators sub level (m + 1) l ⟨op.token :: ts ++ k, eof⟩ =
      operators sub level m (.binary op l r) ⟨k, eof⟩ := by
  rw [operators, peekKind_bind, List.cons_append]
  simp only [Cursor.peek, List.headD_cons, ofKind?_binaryToken, if_neg hop.not_gt]
  change (sub (op.level + 1) >>= fun right ↦ operators sub level m (.binary op l right))
    ⟨ts ++ k, eof⟩ = _
  rw [bind_ok (h hk)]

/-- Printed expressions are read at every level, with a bound above the number of their tokens. -/
theorem reads_expression (n : Nat) :
    ReadsBelow n (expression n 1) ∧ ∀ level (e : Expr), e.Printable →
    e.tokens.length < n → Reads endsExpr (expression n level) e.tokens e := by
  induction n with
  | zero => exact ⟨⟨fun _ h ↦ by simp at h, fun _ h ↦ by simp at h⟩, fun _ _ _ h ↦ by simp at h⟩
  | succ n ih =>
    obtain ⟨below, every⟩ := ih
    have whole (level : Nat) (e : Expr) (he : e.Printable) (length : e.tokens.length < n + 1) :
        Reads endsExpr (expression (n + 1) level) e.tokens e := by
      have pos := length_tokens_pos he
      obtain ⟨m, rfl⟩ : ∃ i, n = i + 1 := ⟨n - 1, by omega⟩
      have operand : Reads endsChain (operand (expression (m + 1)) (m + 1) level) e.tokens e :=
        reads_operand (startsExpr_tokens he) (reads_chain below he (Nat.le_of_lt_succ length))
      exact (operand.mono fun _ ↦ endsChain_of_endsExpr).bind_nil
        ((reads_operators_nil _ level m e).mono fun _ h ↦ endsAt_of_endsExpr h level) fun _ ↦ id
    refine ⟨⟨whole 1 _, fun {e} he length ↦ ?_⟩, whole⟩
    cases he with
    | @unary op e h =>
      have shorter : e.tokens.length < n := Nat.lt_of_succ_lt_succ length
      obtain ⟨m, rfl⟩ : ∃ i, n = i + 1 := ⟨n - 1, by omega⟩
      exact (reads_operand_unary op (every _ e h shorter)).bind_nil
        ((reads_operators_nil _ 1 m _).mono fun _ h ↦ endsAt_of_endsExpr h 1) fun _ ↦ id
    | @binary op l r hl hr =>
      have left := length_tokens_pos hl
      have right := length_tokens_pos hr
      have shorter : l.tokens.length + (r.tokens.length + 1) < n + 1 := by
        rwa [Expr.unwrapped, List.length_append, List.length_cons] at length
      obtain ⟨m, rfl⟩ : ∃ i, n = i + 2 := ⟨n - 2, by omega⟩
      have operand : Reads endsChain (operand (expression (m + 2)) (m + 2) 1) l.tokens l :=
        reads_operand (startsExpr_tokens hl) (reads_chain below hl (by omega))
      have operators : Reads endsExpr (operators (expression (m + 2)) 1 (m + 2) l)
          (op.token :: r.tokens) (.binary op l r) := by
        intro k eof hk
        rw [operators_cons op (one_le_level op) (every _ r hr (by omega)) hk]
        exact reads_operators_nil _ 1 m _ (endsAt_of_endsExpr hk 1)
      exact operand.bind operators fun _ _ ↦ endsChain_binaryToken op
    | _ => exact whole 1 _ (by constructor <;> assumption) length

end Parser

end MiniBasic
