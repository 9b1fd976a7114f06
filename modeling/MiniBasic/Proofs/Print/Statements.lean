import MiniBasic.Proofs.Print.Reads

/-!
# Reading printed statements

Every printed statement is read back, up to the end of its last line, and so is every block of them
up to the keyword that closes it. As for expressions, the bound on nesting is above the number of
tokens.
-/

namespace MiniBasic

open Token (Word Spelled word keyword symbol lineEnd)

/-! ## First tokens -/

/-- The kinds of token that a printed statement starts with. -/
def startsStmt : Kind → Bool
  | .identifier => true
  | .keyword k =>
    k ∈ [.forKw, .ifKw, .doKw, .subKw, .functionKw, .dimKw, .constKw, .setKw, .onKw, .exitKw,
      .eraseKw, .reDimKw, .optionKw, .callKw]
  | _ => false

theorem Expr.Rooted.asObject {e : Expr} (h : e.Rooted) (ts : List Token) : e.asObject ts = ts := by
  cases e <;> first | rfl | cases h

/-- An assignment target starts with a name. No colon stands behind the name, unless one stands
behind the whole target. -/
theorem Expr.Rooted.exists_tokens {e : Expr} (h : e.Rooted) (he : e.Printable) :
    ∃ n ts, e.tokens = word n :: ts ∧ (word n).kind = .identifier ∧
      ∀ next, next ≠ .symbol .colon → firstKind ts next ≠ .symbol .colon := by
  induction he with
  | @name n hn => exact ⟨n, [], by rw [Expr.tokens], h.2, fun _ ↦ id⟩
  | @call callee args hc hargs ih =>
    obtain ⟨n, ts, tokens, kind, colon⟩ := ih h
    refine ⟨n, ts ++ parens (commas (args.map Expr.tokens)), ?_, kind, fun next hnext ↦ ?_⟩
    · rw [Expr.tokens, Rooted.asObject (e := callee) h, tokens, List.cons_append]
    · rw [firstKind_append]
      exact colon (.symbol .leftParen) (by decide)
  | @member object property ho hp ih =>
    obtain ⟨n, ts, tokens, kind, colon⟩ := ih h
    refine ⟨n, ts ++ [symbol .dot, word property], ?_, kind, fun next hnext ↦ ?_⟩
    · rw [Expr.tokens, Rooted.asObject (e := object) h, tokens, List.cons_append]
    · rw [firstKind_append]
      exact colon (.symbol .dot) (by decide)
  | _ => cases h

theorem startsStmt_tokens {s : Stmt} (h : s.Printable) (next : Kind) :
    startsStmt (firstKind s.tokens next) = true := by
  cases h with
  | assign hroot htarget hvalue =>
    obtain ⟨n, ts, tokens, kind, -⟩ := hroot.exists_tokens htarget
    rw [Stmt.tokens, tokens]
    change startsStmt (word n).kind = true
    rw [kind]
    rfl
  | label h =>
    rw [Stmt.tokens]
    change startsStmt (Kind.ofWord _) = true
    rw [h.2]
    rfl
  | @procedure kind =>
    rw [Stmt.tokens]
    cases kind <;> rfl
  | _ =>
    rw [Stmt.tokens]
    rfl

theorem length_tokens_lt_lines {s : Stmt} {body : List Stmt} (hs : s ∈ body) :
    s.tokens.length < (lines body).length := by
  have : s.tokens ++ [lineEnd] ∈ body.map fun s ↦ s.tokens ++ [lineEnd] := List.mem_map_of_mem hs
  have := (List.sublist_flatten_of_mem this).length_le
  rw [lines, List.flatMap_def]
  simp only [List.length_append, List.length_singleton] at this
  omega

theorem length_le_lines (body : List Stmt) : body.length ≤ (lines body).length := by
  induction body with
  | nil => exact le_rfl
  | cons s body ih =>
    rw [lines, List.flatMap_cons, List.length_append, List.length_append, List.length_cons]
    exact Nat.add_comm .. ▸ Nat.add_le_add (Nat.le_add_left ..) ih

/-- What stands behind the keyword of a conditional, `If` or `ElseIf`. -/
def branches (condition : Expr) (body : List Stmt) (alternative : Alternative) : List Token :=
  condition.tokens ++ keyword .thenKw :: lineEnd ::
    (lines body ++ (alternative.tokens ++ [keyword .endKw, keyword .ifKw]))

theorem tokens_ifThen (condition : Expr) (body : List Stmt) (alternative : Alternative) :
    (Stmt.ifThen condition body alternative).tokens =
      keyword .ifKw :: branches condition body alternative := by
  rw [Stmt.tokens, branches, lines]
  simp only [List.append_assoc, List.cons_append]

theorem tokens_elseIf (condition : Expr) (body : List Stmt) (alternative : Alternative) :
    (Alternative.elseIf condition body alternative).tokens ++ [keyword .endKw, keyword .ifKw] =
      keyword .elseIfKw :: branches condition body alternative := by
  rw [Alternative.tokens, branches, lines]
  simp only [List.append_assoc, List.cons_append]

theorem Stmt.Printable.condition_body {condition : Expr} {body : List Stmt}
    {alternative : Alternative} (h : (Stmt.ifThen condition body alternative).Printable) :
    condition.Printable ∧ ∀ s ∈ body, s.Printable := by
  cases h <;> exact ⟨‹_›, ‹_›⟩

namespace Parser

variable {α β : Type} {F G : Kind → Bool} {us : List Token} {b : β}

/-! ## Words and blanks -/

theorem Reads.acceptWord {f : Bool → Parser β} {w : String} {t : Token} (hk : t.kind = .identifier)
    (same : Text.sameWord t.text w = true) (hf : Reads G (f true) us b) :
    Reads G (Parser.acceptWord w >>= f) (t :: us) b := by
  intro k eof hnext
  have accepted : Parser.acceptWord w ⟨t :: us ++ k, eof⟩ = .ok true ⟨us ++ k, eof⟩ := by
    rw [Parser.acceptWord, peek_bind]
    exact congrFun (if_pos ⟨hk, same⟩) _
  rw [bind_ok accepted]
  exact hf hnext

theorem Reads.refuseWord {f : Bool → Parser β} {w : String} {t : Token}
    (other : ¬(t.kind = .identifier ∧ Text.sameWord t.text w = true))
    (hf : Reads G (f false) (t :: us) b) :
    Reads G (Parser.acceptWord w >>= f) (t :: us) b := by
  intro k eof hnext
  have refused : Parser.acceptWord w ⟨t :: us ++ k, eof⟩ = .ok false ⟨t :: us ++ k, eof⟩ := by
    rw [Parser.acceptWord, peek_bind]
    exact congrFun (if_neg other) _
  rw [bind_ok refused]
  exact hf hnext

/-- Only an identifier can be such a word. -/
theorem Reads.refusedWord (w : String) :
    Reads (· != .identifier) (Parser.acceptWord w) [] false := by
  intro k eof hk
  rw [Parser.acceptWord, peek_bind]
  exact congrFun (if_neg fun h ↦ bne_iff_ne.mp hk h.1) _

theorem Reads.secondKind {f : Kind → Parser β} {t : Token}
    (hf : ∀ next, G next = true → Reads G (f (firstKind us next)) (t :: us) b) :
    Reads G (Parser.secondKind >>= f) (t :: us) b := by
  intro k eof hk
  have : (Parser.secondKind >>= f) ⟨t :: us ++ k, eof⟩ =
      f (firstKind us (Cursor.mk k eof).peek.kind) ⟨t :: us ++ k, eof⟩ := by
    cases us <;> rfl
  rw [this]
  exact hf _ hk hk

theorem Reads.skipSeparators {f : Unit → Parser β} {blank : List Token}
    (hblank : ∀ t ∈ blank, isSeparator t = true)
    (start : ∀ next, G next = true → firstKind us next ≠ .newline ∧ firstKind us next ≠
      .symbol .colon)
    (hf : Reads G (f ()) us b) : Reads G (Parser.skipSeparators >>= f) (blank ++ us) b := by
  intro k eof hk
  have rest : (us ++ k).dropWhile isSeparator = us ++ k := by
    have := start _ hk
    rw [← Cursor.kind_peek_append] at this
    cases hrest : us ++ k with
    | nil => rfl
    | cons t ts =>
      rw [hrest] at this
      change t.kind ≠ _ ∧ t.kind ≠ _ at this
      exact List.dropWhile_cons_of_neg (by simpa [isSeparator] using this)
  have skipped : Parser.skipSeparators ⟨blank ++ us ++ k, eof⟩ = .ok () ⟨us ++ k, eof⟩ := by
    rw [List.append_assoc]
    change EStateM.Result.ok _ (Cursor.mk ((blank ++ (us ++ k)).dropWhile isSeparator) eof) = _
    rw [List.dropWhile_append_of_pos hblank, rest]
  rw [bind_ok skipped]
  exact hf hk

/-! ## Blocks -/

/-- What stands behind a printed statement. -/
def endsStmt (kind : Kind) : Bool :=
  kind == .newline

/-- What stands behind a block. -/
def endsBlock (closing : List Keyword) (kind : Kind) : Bool :=
  kind == .eof || closing.any (kind == .keyword ·)

theorem not_endsBlock {closing : List Keyword} (h : ∀ k ∈ closing, startsStmt (.keyword k) = false)
    {kind : Kind} (hkind : startsStmt kind = true) : endsBlock closing kind = false := by
  refine Bool.eq_false_iff.mpr fun ends ↦ ?_
  rcases Bool.or_eq_true_iff.mp ends with eof | any
  · rw [eq_of_beq eof] at hkind
    cases hkind
  · obtain ⟨k, hk, same⟩ := List.any_eq_true.mp any
    rw [eq_of_beq same, h k hk] at hkind
    cases hkind

theorem ne_of_endsBlock {closing : List Keyword} {kind other : Kind}
    (h : endsBlock closing kind = true) (eof : other ≠ .eof) (keyword : ∀ k, other ≠ .keyword k) :
    kind ≠ other := by
  rintro rfl
  rcases Bool.or_eq_true_iff.mp h with h | any
  · exact eof (eq_of_beq h)
  · obtain ⟨k, -, same⟩ := List.any_eq_true.mp any
    exact keyword k (eq_of_beq same)

/-- The lines of a block, behind any number of line ends. -/
theorem reads_block {stmt : Parser Stmt} {closing : List Keyword}
    (hclosing : ∀ k ∈ closing, startsStmt (.keyword k) = false) {body : List Stmt}
    (hbody : ∀ s ∈ body, s.Printable) (h : ∀ s ∈ body, Reads endsStmt stmt s.tokens s) {fuel : Nat}
    (hfuel : body.length < fuel) {blank : List Token} (hblank : ∀ t ∈ blank, isSeparator t = true) :
    Reads (endsBlock closing) (block stmt closing fuel) (blank ++ lines body) body := by
  -- The line end of one statement is a blank before the next one.
  induction body generalizing fuel blank with
  | nil =>
    obtain ⟨fuel, rfl⟩ := Nat.exists_eq_add_one.mpr (Nat.zero_lt_of_lt hfuel)
    refine .skipSeparators hblank (fun next hnext ↦ ?_) (.peekKind fun next hnext ↦ ?_)
    · exact ⟨ne_of_endsBlock hnext nofun nofun, ne_of_endsBlock hnext nofun nofun⟩
    · change Reads _ (if endsBlock closing next = true then _ else _) _ _
      rw [if_pos hnext]
      exact .pure []
  | cons s body ih =>
    obtain ⟨fuel, rfl⟩ := Nat.exists_eq_add_one.mpr (Nat.zero_lt_of_lt hfuel)
    have start (next : Kind) : startsStmt (firstKind (lines (s :: body)) next) = true := by
      rw [lines, List.flatMap_cons, firstKind_append, firstKind_append]
      exact startsStmt_tokens (hbody s (List.mem_cons_self ..)) _
    have rest : Reads (endsBlock closing) (block stmt closing fuel)
        ([lineEnd] ++ lines body) body :=
      ih (fun t ht ↦ hbody t (List.mem_cons_of_mem _ ht))
        (fun t ht ↦ h t (List.mem_cons_of_mem _ ht)) (Nat.lt_of_succ_lt_succ hfuel)
        (by simp [lineEnd, isSeparator])
    refine .skipSeparators hblank (fun next _ ↦ ?_) (.peekKind fun next _ ↦ ?_)
    · exact ⟨ne_of_true_of_false (start next) rfl, ne_of_true_of_false (start next) rfl⟩
    · change Reads _ (if endsBlock closing (firstKind (lines (s :: body)) next) =
        true then _ else _) _ _
      rw [if_neg (Bool.not_eq_true _ ▸ not_endsBlock hclosing (start next))]
      rw [lines, List.flatMap_cons, List.append_assoc]
      exact (h s (List.mem_cons_self ..)).bind rest.map fun _ _ ↦ rfl

/-! ## Declarations -/

/-- Nothing is read where the token does not come. -/
theorem Reads.omitted {kind : Kind} {p : Parser α} (hne : ∀ next, G next = true → next ≠ kind) :
    Reads G (optionally kind p) [] none :=
  .refuse hne (.pure none)

theorem reads_behind {t : Token} {expr : Parser Expr} {e : Option Expr}
    (h : ∀ a ∈ e, Reads G expr a.tokens a) (hne : ∀ next, G next = true → next ≠ t.kind) :
    Reads G (optionally t.kind expr) (Expr.tokensBehind t e) e := by
  cases e with
  | none => exact .omitted hne
  | some e => exact .accept rfl (h e rfl).map

theorem reads_annotation_nil : Reads (· != .keyword .asKw) annotation [] () :=
  Reads.discard (.omitted fun _ ↦ bne_iff_ne.mp)

theorem reads_arrayMark_nil : Reads (· != .symbol .leftParen) arrayMark [] () :=
  Reads.discard (.omitted fun _ ↦ bne_iff_ne.mp)

theorem reads_passing (byValue : Bool) :
    Reads (fun _ ↦ true) passing [keyword (if byValue then .byValKw else .byRefKw)] byValue := by
  cases byValue with
  | true => exact .accept rfl (.pure true)
  | false =>
    have byRef : Reads (fun _ ↦ true) (acceptKeyword .byRefKw) [keyword .byRefKw] true :=
      .accepted rfl
    exact .refuse (fun _ _ ↦ nofun) (byRef.discard.bind_nil (.pure false) fun _ ↦ id)

/-- What stands behind an item of a list: a comma, or what closes the list. -/
def endsItem (close kind : Kind) : Bool :=
  kind == .symbol .comma || kind == close

theorem endsItem_cases {close kind : Kind} (h : endsItem close kind = true) :
    kind = .symbol .comma ∨ kind = close :=
  (Bool.or_eq_true_iff.mp h).imp eq_of_beq eq_of_beq

theorem reads_newObject {type : Option String} (h : ∀ t ∈ type, TypeName t) :
    Reads (endsItem .newline) newObject
      (type.elim [] fun type ↦ keyword .asKw :: keyword .newKw :: typeTokens type) type := by
  cases type with
  | none =>
    refine .refuse (fun next hnext ↦ ?_) (.pure none)
    rcases endsItem_cases hnext with rfl | rfl <;> nofun
  | some type =>
    refine .accept rfl (.accept rfl ((reads_typeName (h type rfl)).map.mono fun next hnext ↦ ?_))
    rcases endsItem_cases hnext with rfl | rfl <;> rfl

section Statements

variable {n : Nat} {expr : Parser Expr} (hexpr : ReadsBelow n expr)

section

include hexpr

theorem reads_param {p : Param} (hp : p.Printable) (length : p.tokens.length < n) :
    Reads (endsItem (.symbol .rightParen)) (param expr) p.tokens p := by
  obtain ⟨name, byValue, fallback⟩ := p
  have optional : Reads (· != .identifier) (discard (acceptWord "optional")) [] () :=
    Reads.discard (.refusedWord "optional")
  have value : Reads (endsItem (.symbol .rightParen)) (optionally (.symbol .eq) expr)
      (Expr.tokensBehind (symbol .eq) fallback) fallback := by
    refine reads_behind (t := symbol .eq) (fun e he ↦ ?_) fun next hnext ↦ ?_
    · obtain rfl : fallback = some e := he
      have shorter : e.tokens.length < n := by
        simp only [Param.tokens, Expr.tokensBehind, List.length_cons] at length
        omega
      refine (hexpr.tokens (hp.fallback e rfl) shorter).mono fun next hnext ↦ ?_
      rcases endsItem_cases hnext with rfl | rfl <;> rfl
    · rcases endsItem_cases hnext with rfl | rfl <;> decide
  have follow (kind : Kind) (noEq : .symbol .eq ≠ kind)
      (inside : endsItem (.symbol .rightParen) kind = false) (next : Kind)
      (hnext : endsItem (.symbol .rightParen) next = true) :
      firstKind (Expr.tokensBehind (symbol .eq) fallback) next ≠ kind := by
    cases fallback with
    | some e => exact noEq
    | none =>
      exact ne_of_true_of_false hnext inside
  refine optional.bind ((reads_passing byValue).bind (.expectName hp.name (reads_arrayMark_nil.bind
    (reads_annotation_nil.bind value.map ?_) ?_)) fun _ _ ↦ rfl) fun _ _ ↦ rfl
  · exact fun next hnext ↦ bne_iff_ne.mpr (follow (.keyword .asKw) (by decide) rfl next hnext)
  · exact fun next hnext ↦ bne_iff_ne.mpr (follow (.symbol .leftParen) (by decide) rfl next hnext)

theorem reads_params {params : List Param} (h : ∀ p ∈ params, p.Printable) {fuel : Nat}
    (length : (commas (params.map Param.tokens)).length < n)
    (hfuel : (commas (params.map Param.tokens)).length ≤ fuel) :
    Reads G (Parser.params expr fuel) (parens (commas (params.map Param.tokens))) params := by
  refine .accept rfl (reads_listed (F := endsItem (.symbol .rightParen)) (fun p hp ↦ ?_) rfl rfl
    (fun p hp next ↦ ?_) hfuel)
  · exact reads_param hexpr (h p hp) ((length_tokens_le_commas hp).trans_lt length)
  · nofun

theorem reads_bound {e : Expr} (he : e.Printable) (length : e.tokens.length < n) :
    Reads (endsItem (.symbol .rightParen)) (bound expr) e.tokens e := by
  refine (hexpr.tokens he length).bind_nil (Reads.map (Reads.omitted fun next hnext ↦ ?_))
    fun next hnext ↦ ?_
  · rcases endsItem_cases hnext with rfl | rfl <;> nofun
  · rcases endsItem_cases hnext with rfl | rfl <;> rfl

theorem reads_bounds {bounds : List Expr} (h : ∀ e ∈ bounds, e.Printable) {fuel : Nat}
    (length : (commas (bounds.map Expr.tokens)).length < n)
    (hfuel : (commas (bounds.map Expr.tokens)).length ≤ fuel) :
    Reads G (Parser.bounds expr fuel) (commas (bounds.map Expr.tokens) ++ [symbol .rightParen])
      bounds := by
  refine reads_listed (F := endsItem (.symbol .rightParen))
    (fun e he ↦ ?_) rfl rfl (fun e he next ↦ ?_) hfuel
  · exact reads_bound hexpr (h e he) ((length_tokens_le_commas he).trans_lt length)
  · exact ne_of_true_of_false (startsExpr_tokens (h e he) next) rfl

theorem reads_declarator {d : Declarator} (hd : d.Printable) (length : d.tokens.length < n)
    {fuel : Nat} (hfuel : d.tokens.length ≤ fuel) :
    Reads (endsItem .newline) (declarator expr fuel) d.tokens d := by
  obtain ⟨name, bounds, newObject⟩ := d
  have array : Reads (· != .symbol .leftParen)
      (optionally (.symbol .leftParen) (Parser.bounds expr fuel))
      (bounds.elim [] fun bounds ↦ parens (commas (bounds.map Expr.tokens))) bounds := by
    cases bounds with
    | none => exact .omitted fun _ ↦ bne_iff_ne.mp
    | some bounds =>
      simp only [Declarator.tokens, length_parens, Option.elim_some, List.length_cons,
        List.length_append]
        at length hfuel
      exact .accept rfl (reads_bounds hexpr (hd.bounds bounds rfl) (by omega) (by omega)).map
  refine .expectName hd.name (array.bind (reads_newObject hd.newObject).map fun next hnext ↦ ?_)
  cases newObject with
  | some type => rfl
  | none => rcases endsItem_cases hnext with rfl | rfl <;> rfl

theorem reads_dim {declarators : List Declarator} (nonempty : declarators ≠ [])
    (h : ∀ d ∈ declarators, d.Printable)
    (length : (commas (declarators.map Declarator.tokens)).length < n) :
    Reads endsStmt (dim expr n) (commas (declarators.map Declarator.tokens))
      (.dim declarators) := by
  have few : declarators.length ≤ n :=
    (@length_le_commas _ Declarator.tokens _ fun d _ ↦ Nat.zero_lt_succ _).trans length.le
  refine (reads_commaList (F := endsItem .newline) nonempty (fun d hd ↦ ?_)
    rfl (fun kind hkind ↦ ?_) few).map
  · have shorter := @length_tokens_le_commas _ Declarator.tokens _ _ hd
    exact reads_declarator hexpr (h d hd) (by omega) (by omega)
  · obtain rfl := eq_of_beq hkind
    exact ⟨rfl, nofun⟩

/-- A value up to the end of the line. -/
theorem reads_value {value : Expr} (h : value.Printable) (length : value.tokens.length < n) :
    Reads endsStmt expr value.tokens value := by
  refine (hexpr.tokens h length).mono fun kind hkind ↦ ?_
  obtain rfl := eq_of_beq hkind
  rfl

theorem reads_const {name : String} (hname : Spelled .identifier name) {value : Expr}
    (h : value.Printable) (length : value.tokens.length < n) :
    Reads endsStmt (const expr) (word name :: symbol .eq :: value.tokens) (.const name value) := by
  have value := reads_value hexpr h length
  exact .expectName hname (reads_annotation_nil.bind (.expectSymbol _ value.map) fun _ _ ↦ rfl)

theorem reads_set {target value : Expr} (ht : target.Printable) (hv : value.Printable)
    (length : target.tokens.length + value.tokens.length < n) :
    Reads endsStmt (Parser.set expr n)
      (keyword .setKw :: (target.tokens ++ symbol .eq :: value.tokens)) (.set target value) := by
  have htarget := reads_chain hexpr ht (by omega)
  have hvalue := reads_value hexpr hv (by omega)
  exact .advance _ (htarget.bind (.expectSymbol _ hvalue.map) fun _ _ ↦ rfl)

theorem reads_assignment {target value : Expr} (ht : target.Printable) (hv : value.Printable)
    (length : target.tokens.length + value.tokens.length < n) :
    Reads endsStmt (assignmentOrCall expr n) (target.tokens ++ symbol .eq :: value.tokens)
      (.assign target value) := by
  have htarget := reads_chain hexpr ht (by omega)
  have hvalue := reads_value hexpr hv (by omega)
  exact htarget.bind (.accept rfl hvalue.map) fun _ _ ↦ rfl

theorem reads_reDim {name : String} (hname : Spelled .identifier name) {bounds : List Expr}
    (hbounds : ∀ e ∈ bounds, e.Printable) {preserve : Bool}
    (hpreserve : preserve = true ∨ Text.sameWord name "preserve" = false)
    (length : (commas (bounds.map Expr.tokens)).length < n) :
    Reads endsStmt (reDim expr n)
      (keyword .reDimKw ::
        ((if preserve then [word "Preserve"] else []) ++ word name :: parens
          (commas (bounds.map Expr.tokens)))) (.reDim name bounds preserve) := by
  have hbounds : Reads (fun _ ↦ true) (Parser.bounds expr n) _ bounds :=
    reads_bounds hexpr hbounds length length.le
  have rest (preserve : Bool) : Reads endsStmt (do
      let name ← expectName .arrayAfterReDim
      expectSymbol .leftParen .openBounds
      let bounds ← Parser.bounds expr n
      annotation
      return .reDim name bounds preserve) (word name :: parens (commas (bounds.map Expr.tokens)))
        (Stmt.reDim name bounds preserve) := by
    refine .expectName hname (.expectSymbol _ (hbounds.bind_nil ?_ fun _ _ ↦ rfl))
    refine reads_annotation_nil.bind_nil (.pure _) fun kind hkind ↦ ?_
    obtain rfl := eq_of_beq hkind
    rfl
  refine .advance _ ?_
  cases preserve with
  | true =>
    exact .acceptWord (identifier_contextual "Preserve" (by decide)).2 (by decide) (rest true)
  | false =>
    refine .refuseWord (fun same ↦ ?_) (rest false)
    rcases hpreserve with h | h
    · cases h
    · exact Bool.eq_false_iff.mp h same.2

end

/-! ## Statements without parts -/

theorem reads_onError {policy : ErrorPolicy} (h : policy.Printable) :
    Reads G onError (keyword .onKw :: keyword .errorKw :: policy.tokens) (.onError policy) := by
  refine .advance _ (.expectKeyword _ ?_)
  cases policy with
  | resumeNext =>
    have resume : (word "Resume").kind = .identifier :=
      (identifier_contextual "Resume" (by decide)).2
    refine .refuse (fun next _ ↦ ?_) (.acceptWord resume (by decide) (.expectKeyword _ (.pure _)))
    change (word "Resume").kind ≠ _
    rw [resume]
    nofun
  | goTo label =>
    have target : (Token.label label).text = label ∧
        ((Token.label label).kind = .identifier ∨ (Token.label label).kind = .number) := by
      rcases h with h | h
      · rw [Token.label_identifier h]
        exact ⟨rfl, .inl h.2⟩
      · rw [Token.label_number h]
        exact ⟨rfl, .inr rfl⟩
    refine .accept rfl (.peek ?_)
    rw [if_pos target.2, target.1]
    exact .advance _ (.pure _)

theorem reads_exit (target : ExitTarget) :
    Reads G exit [keyword .exitKw, keyword target.keyword] (.exit target) := by
  refine .advance _ (.peekKind fun _ _ ↦ ?_)
  cases target <;> exact .advance _ (.pure _)

theorem reads_moreNames {names : List String} (h : ∀ n ∈ names, Spelled .identifier n) {fuel : Nat}
    (hfuel : names.length < fuel) :
    Reads endsStmt (moreNames fuel) ((names.map fun n ↦ [word n]).flatMap (symbol .comma :: ·))
      names := by
  induction names generalizing fuel with
  | nil =>
    obtain ⟨fuel, rfl⟩ := Nat.exists_eq_add_one.mpr (Nat.zero_lt_of_lt hfuel)
    refine .refuse (fun next hnext ↦ ?_) (.pure [])
    obtain rfl := eq_of_beq hnext
    nofun
  | cons name names ih =>
    obtain ⟨fuel, rfl⟩ := Nat.exists_eq_add_one.mpr (Nat.zero_lt_of_lt hfuel)
    have more := ih (fun n hn ↦ h n (List.mem_cons_of_mem _ hn)) (Nat.lt_of_succ_lt_succ hfuel)
    exact .accept rfl (.expectName (h name (List.mem_cons_self ..)) more.map)

theorem reads_erase {names : List String} (nonempty : names ≠ [])
    (h : ∀ n ∈ names, Spelled .identifier n) {fuel : Nat} (hfuel : names.length ≤ fuel) :
    Reads endsStmt (erase fuel) (keyword .eraseKw :: commas (names.map fun n ↦ [word n]))
      (.erase names) := by
  obtain ⟨first, names, rfl⟩ := List.exists_cons_of_ne_nil nonempty
  have more := reads_moreNames (fun n hn ↦ h n (List.mem_cons_of_mem _ hn)) hfuel
  rw [commas, List.map_cons, separated_cons]
  exact .advance _ (.expectName (h first (List.mem_cons_self ..)) more.map)

theorem literal?_repr (n : Nat) : literal? n.repr = some (Number.ofDecimal false n 0) := by
  have numeral : Number.Numeral (Nat.toDigits 10 n) [] :=
    ⟨Nat.toDigits_ne_nil, fun d ↦ Number.isDigit_toDigits, .none⟩
  rw [numeral.literal? .none (by simp), Number.numeralValue, List.tail_nil, List.append_nil,
    Number.digitsValue_toDigits]
  rfl

theorem reads_option {setting : OptionSetting} (h : setting.Printable) :
    Reads G option (keyword .optionKw :: setting.tokens) (.option setting) := by
  refine .advance _ ?_
  cases setting with
  | explicit => exact .accept rfl (.pure _)
  | base n =>
    obtain ⟨x, rfl⟩ := h
    have base : (word "Base").kind = .identifier := (identifier_contextual "Base" (by decide)).2
    refine .refuse (fun next _ ↦ ?_) (.acceptWord base (by decide) (.peek ?_))
    · change (word "Base").kind ≠ _
      rw [base]
      nofun
    · rw [if_pos (show (Token.number _).kind = .number from rfl)]
      simp only [Token.number, literal?_repr]
      rw [Number.toWord_ofDecimal_toWord]
      exact .advance _ (.pure _)
  | compare mode =>
    have compare : (word "Compare").kind = .identifier :=
      (identifier_contextual "Compare" (by decide)).2
    refine .refuse (fun next _ ↦ ?_) (.refuseWord ?_ (.acceptWord compare (by decide) ?_))
    · change (word "Compare").kind ≠ _
      rw [compare]
      nofun
    · exact fun same ↦ absurd same.2 (by decide)
    · exact .expectName h (.pure _)

/-! ## Statements with blocks -/

theorem reads_closingName {closing : Option String} (h : ∀ n ∈ closing, Spelled .identifier n) :
    Reads endsStmt closingName (closing.map word).toList closing := by
  cases closing with
  | none =>
    intro k eof hk
    have : (Cursor.mk k eof).peek.kind ≠ .identifier := by
      rw [eq_of_beq hk]
      nofun
    rw [closingName, peek_bind]
    exact congrFun (if_neg this) _
  | some name =>
    refine .peek ?_
    rw [if_pos (show (word name).kind = .identifier from (h name rfl).2)]
    exact .advance _ (.pure _)

theorem reads_expectEnd (kw : Keyword) : Reads G (expectEnd kw) [keyword .endKw, keyword kw] () :=
  .expectKeyword _ ((Reads.expect rfl _).discard.mono fun _ _ ↦ rfl)

variable {stmt : Parser Stmt}
  (hstmt : ∀ {s : Stmt}, s.Printable → s.tokens.length < n → Reads endsStmt stmt s.tokens s)

section

include hstmt

/-- The lines of a block, behind the line that opens it. -/
theorem reads_body {closing : List Keyword}
    (hclosing : ∀ k ∈ closing, startsStmt (.keyword k) = false) {body : List Stmt}
    (hbody : ∀ s ∈ body, s.Printable) (length : (lines body).length < n) {fuel : Nat}
    (hfuel : (lines body).length < fuel) {f : List Stmt → Parser β} (hf : Reads G (f body) us b)
    (follow : ∀ next, G next = true → endsBlock closing (firstKind us next) = true) :
    Reads G (block stmt closing fuel >>= f) (lineEnd :: (lines body ++ us)) b := by
  have each (s : Stmt) (hs : s ∈ body) : Reads endsStmt stmt s.tokens s :=
    hstmt (hbody s hs) ((length_tokens_lt_lines hs).trans length)
  have few : body.length < fuel := (length_le_lines body).trans_lt hfuel
  have line : ∀ t ∈ [lineEnd], isSeparator t = true := by simp [lineEnd, isSeparator]
  exact (reads_block hclosing hbody each few line).bind hf follow

end

section

include hexpr hstmt

theorem reads_doWhile {condition : Expr} (hcondition : condition.Printable) {body : List Stmt}
    (hbody : ∀ s ∈ body, s.Printable) (length : condition.tokens.length + (lines body).length < n) :
    Reads G (doWhile expr stmt n) (keyword .doKw :: keyword .whileKw ::
      (condition.tokens ++ lineEnd :: (lines body ++ [keyword .loopKw])))
        (.doWhile condition body) := by
  have condition := hexpr.tokens hcondition (by omega)
  refine .advance _ (.expectKeyword _ (condition.bind ?_ fun _ _ ↦ rfl))
  refine reads_body hstmt (by decide) hbody (by omega) (by omega) ?_ fun _ _ ↦ rfl
  exact .expectKeyword _ (.pure _)

theorem reads_procedure (kind : ProcedureKind) {name : String} (hname : Spelled .identifier name)
    {params : List Param} (hparams : ∀ p ∈ params, p.Printable) {body : List Stmt}
    (hbody : ∀ s ∈ body, s.Printable)
    (length : (commas (params.map Param.tokens)).length + (lines body).length < n) :
    Reads G (procedure expr stmt n kind) (keyword kind.keyword :: word name ::
      (parens (commas (params.map Param.tokens)) ++
        lineEnd :: (lines body ++ [keyword .endKw, keyword kind.keyword])))
      (.procedure kind name params body) := by
  have params : Reads (fun _ ↦ true) (Parser.params expr n) _ params :=
    reads_params hexpr hparams (by omega) (by omega)
  refine .advance _ (.expectName hname (params.bind ?_ fun _ _ ↦ rfl))
  refine reads_annotation_nil.bind ?_ fun _ _ ↦ rfl
  refine reads_body hstmt (by decide) hbody (by omega) (by omega) ?_ fun _ _ ↦ rfl
  exact (reads_expectEnd kind.keyword).bind_nil (.pure _) fun _ ↦ id

theorem reads_forLoop {counter : String} (hcounter : Spelled .identifier counter)
    {start stop : Expr} (hstart : start.Printable) (hstop : stop.Printable) {step : Option Expr}
    (hstep : ∀ e ∈ step, e.Printable) {body : List Stmt} (hbody : ∀ s ∈ body, s.Printable)
    {closing : Option String} (hclosing : ∀ n ∈ closing, Spelled .identifier n)
    (length : start.tokens.length + stop.tokens.length +
      (Expr.tokensBehind (keyword .stepKw) step).length + (lines body).length < n) :
    Reads endsStmt (forLoop expr stmt n) (keyword .forKw :: word counter :: symbol .eq ::
      (start.tokens ++ keyword .toKw :: (stop.tokens ++ (Expr.tokensBehind (keyword .stepKw) step ++
        lineEnd :: (lines body ++ keyword .nextKw :: (closing.map word).toList)))))
      (.forLoop counter start stop step body closing) := by
  have first := hexpr.tokens hstart (by omega)
  have last := hexpr.tokens hstop (by omega)
  have increment : Reads endsStmt (optionally (.keyword .stepKw) expr)
      (Expr.tokensBehind (keyword .stepKw) step) step := by
    refine reads_behind (t := keyword .stepKw) (fun e he ↦ ?_) fun next hnext ↦ ?_
    · obtain rfl : step = some e := he
      simp only [Expr.tokensBehind, List.length_cons] at length
      exact reads_value hexpr (hstep e rfl) (by omega)
    · obtain rfl := eq_of_beq hnext
      decide
  refine .advance _ (.expectName hcounter (.expectSymbol _ (first.bind (.expectKeyword _ (last.bind
    (increment.bind ?_ fun _ _ ↦ rfl) fun next hnext ↦ ?_)) fun _ _ ↦ rfl)))
  · refine reads_body hstmt (by decide) hbody (by omega) (by omega) ?_ fun _ _ ↦ rfl
    exact .expectKeyword _ (reads_closingName hclosing).map
  · cases step <;> rfl

/-- What stands behind `If` and `ElseIf` alike. -/
theorem reads_conditional {condition : Expr} {body : List Stmt} {alternative : Alternative}
    (h : (Stmt.ifThen condition body alternative).Printable)
    (length : (branches condition body alternative).length < n) {fuel : Nat}
    (hfuel : (branches condition body alternative).length ≤ fuel) (t : Token) :
    Reads G (conditional expr stmt fuel) (t :: branches condition body alternative)
      (condition, body, alternative) := by
  -- Each `ElseIf` takes one step of the bound, and more than one token.
  induction fuel generalizing condition body alternative t with
  | zero => simp [branches] at hfuel
  | succ fuel ih =>
    obtain ⟨hcondition, hbody⟩ := h.condition_body
    have lengths : (branches condition body alternative).length =
        condition.tokens.length + (lines body).length + (alternative.tokens).length + 4 := by
      simp [branches]
      omega
    refine .advance _
      ((hexpr.tokens hcondition (by omega)).bind (.expectKeyword _ (.peekKind fun _ _ ↦ ?_))
        fun _ _ ↦ rfl)
    rw [if_pos (.inl (show firstKind (lineEnd :: _) _ = .newline from rfl))]
    refine reads_body hstmt (by decide) hbody (by omega) (by omega)
      (.peekKind fun _ _ ↦ ?_) fun _ _ ↦ ?_
    · cases h with
      | ifThen =>
        rw [Alternative.tokens]
        exact (reads_expectEnd .ifKw).bind_nil (.pure _) fun _ ↦ id
      | @ifElse _ _ otherwise _ _ hotherwise =>
        have shorter : (Alternative.block otherwise).tokens.length =
            (lines otherwise).length + 2 := by
          rw [Alternative.tokens, lines, List.length_cons, List.length_cons]
        rw [Alternative.tokens, List.cons_append, List.cons_append]
        refine .advance _ (reads_body hstmt (by decide) hotherwise (by omega)
          (by omega) ?_ fun _ _ ↦ rfl)
        exact (reads_expectEnd .ifKw).bind_nil (.pure _) fun _ ↦ id
      | @ifElseIf _ next _ nextBody alternative _ _ hnext =>
        have shorter := congrArg List.length (tokens_elseIf next nextBody alternative)
        simp only [List.length_append, List.length_cons, List.length_nil] at shorter
        rw [tokens_elseIf]
        exact (ih hnext (by omega) (by omega) _).bind_nil (.pure _) fun _ ↦ id
    · cases alternative <;>
      · rw [Alternative.tokens]
        rfl

theorem reads_ifThen {condition : Expr} {body : List Stmt} {alternative : Alternative}
    (h : (Stmt.ifThen condition body alternative).Printable)
    (length : (branches condition body alternative).length < n) :
    Reads G (ifThen expr stmt n) (keyword .ifKw :: branches condition body alternative)
      (.ifThen condition body alternative) :=
  (reads_conditional hexpr hstmt h length length.le _).bind_nil (.pure _) fun _ ↦ id

end

end Statements

/-! ## All statements -/

theorem reads_label {name : String} (h : Spelled .identifier name) (n : Nat) :
    Reads endsStmt (statement (n + 1)) [word name, symbol .colon] (.label name) := by
  refine .peek ?_
  rw [show (word name).kind = .identifier from h.2]
  refine .secondKind fun _ _ ↦ ?_
  rw [if_pos (show firstKind [symbol .colon] _ = .symbol .colon from rfl)]
  exact .advance _ (.advance _ (.pure _))

theorem reads_assign {n : Nat} (hexpr : ReadsBelow n (expression n 1)) {target value : Expr}
    (hroot : target.Rooted) (ht : target.Printable) (hv : value.Printable)
    (length : target.tokens.length + value.tokens.length < n) :
    Reads endsStmt (statement (n + 1)) (target.tokens ++ symbol .eq :: value.tokens)
      (.assign target value) := by
  have assignment := reads_assignment hexpr ht hv length
  obtain ⟨name, ts, tokens, kind, colon⟩ := hroot.exists_tokens ht
  rw [tokens, List.cons_append] at assignment ⊢
  refine .peek ?_
  rw [kind]
  refine .secondKind fun next _ ↦ ?_
  have notLabel : firstKind (ts ++ symbol .eq :: value.tokens) next ≠ .symbol .colon := by
    rw [firstKind_append]
    exact colon _ nofun
  rw [if_neg notLabel]
  exact assignment

/-- Every kind of statement, where the parts are read one step below. -/
theorem reads_statement_succ {n : Nat} (hexpr : ReadsBelow n (expression n 1))
    (hstmt : ∀ {s : Stmt}, s.Printable → s.tokens.length < n →
      Reads endsStmt (statement n) s.tokens s)
    {s : Stmt} (h : s.Printable) (length : s.tokens.length < n + 1) :
    Reads endsStmt (statement (n + 1)) s.tokens s := by
  have printable := h
  cases h with
  | forLoop hcounter hstart hstop hstep hbody hclosing =>
    rw [Stmt.tokens, ← lines] at length ⊢
    simp only [List.append_assoc, List.cons_append, List.length_append,
      List.length_cons] at length ⊢
    exact .peek (reads_forLoop hexpr hstmt hcounter hstart hstop hstep hbody hclosing (by omega))
  | ifThen | ifElse | ifElseIf =>
    rw [tokens_ifThen] at length ⊢
    exact .peek (reads_ifThen hexpr hstmt printable (Nat.lt_of_succ_lt_succ length))
  | doWhile hcondition hbody =>
    rw [Stmt.tokens, ← lines] at length ⊢
    simp only [List.append_assoc, List.cons_append, List.length_append,
      List.length_cons] at length ⊢
    exact .peek (reads_doWhile hexpr hstmt hcondition hbody (by omega))
  | @procedure kind _ _ _ hname hparams hbody =>
    rw [Stmt.tokens, ← lines] at length ⊢
    simp only [List.append_assoc, List.cons_append, length_parens, List.length_append,
      List.length_cons]
      at length ⊢
    have read := reads_procedure (G := endsStmt) hexpr hstmt kind hname hparams hbody (by omega)
    cases kind <;> exact .peek read
  | dim nonempty h =>
    rw [Stmt.tokens] at length ⊢
    exact .peek (.advance _ (reads_dim hexpr nonempty h (Nat.lt_of_succ_lt_succ length)))
  | const hname hvalue =>
    rw [Stmt.tokens] at length ⊢
    simp only [List.length_cons] at length
    exact .peek (.advance _ (reads_const hexpr hname hvalue (by omega)))
  | set htarget hvalue =>
    rw [Stmt.tokens] at length ⊢
    simp only [List.cons_append, List.length_append, List.length_cons] at length ⊢
    exact .peek (reads_set hexpr htarget hvalue (by omega))
  | assign hroot htarget hvalue =>
    rw [Stmt.tokens] at length ⊢
    simp only [List.length_append, List.length_cons] at length
    exact reads_assign hexpr hroot htarget hvalue (by omega)
  | onError h =>
    rw [Stmt.tokens]
    exact .peek (reads_onError h)
  | @erase names nonempty h =>
    rw [Stmt.tokens, List.length_cons] at length
    have few : names.length ≤ (commas (names.map fun n ↦ [word n])).length :=
      length_le_commas fun _ _ ↦ Nat.one_pos
    rw [Stmt.tokens]
    exact .peek (reads_erase nonempty h (by omega))
  | reDim hname hpreserve hbounds =>
    rw [Stmt.tokens] at length ⊢
    simp only [List.cons_append, length_parens, List.length_append, List.length_cons] at length ⊢
    exact .peek (reads_reDim hexpr hname hbounds hpreserve (by omega))
  | exit =>
    rw [Stmt.tokens]
    exact .peek (reads_exit _)
  | label h =>
    rw [Stmt.tokens]
    exact reads_label h n
  | option h =>
    rw [Stmt.tokens]
    exact .peek (reads_option h)
  | @call callee args h =>
    rw [Stmt.tokens, List.length_cons] at length
    have read : Reads endsStmt (chain (expression n 1) n) (Expr.call callee args).tokens
        (.call callee args) := by
      refine (reads_chain hexpr h (by omega)).mono fun kind hkind ↦ ?_
      obtain rfl := eq_of_beq hkind
      rfl
    rw [Stmt.tokens]
    exact .peek (.advance _ read.map)

/-- Printed statements are read, with a bound above the number of their tokens. -/
theorem reads_statement (n : Nat) {s : Stmt} (h : s.Printable) (length : s.tokens.length < n) :
    Reads endsStmt (statement n) s.tokens s := by
  induction n generalizing s with
  | zero => exact absurd length (Nat.not_lt_zero _)
  | succ n ih => exact reads_statement_succ (reads_expression n).1 ih h length

end Parser

end MiniBasic
