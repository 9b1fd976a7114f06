import Mathlib.Data.List.Forall2
import Mathlib.Data.List.TakeWhile
import MiniBasic.Grammar.Statement
import MiniBasic.Proofs.Related

/-!
# Two readers side by side

What the rules of the grammar do is compared with what they do on another input: on tokens spelled
otherwise, under another bound on nesting, on an input that goes on, on one that is the same up to
the place where the run ends. A `Comparison` says how the two inputs differ: what the second parser
sees in place of a token, and which place of the second input answers to a place of the first one.
`C.Follows k P moves R p q` says that wherever `p` is run, it moves past some tokens and ends; and
that `q`, run on what is seen in place of these tokens, ends in the same way wherever that is
followed by a place that answers to the one where `p` ended.
-/

namespace MiniBasic

/-! ## Places -/

/-- The token does not end the input. -/
def Token.Inside (t : Token) : Prop :=
  t.kind ≠ .eof

/-- No condition on a token. -/
def Token.Any (_ : Token) : Prop :=
  True

theorem Token.inside_of_isWord {t : Token} (h : t.isWord = true) : t.Inside := by
  intro hk
  rw [isWord, hk] at h
  cases h

/-- A kind of token that stands inside a line. -/
def Kind.Inner (kind : Kind) : Prop :=
  kind ≠ .eof ∧ kind ≠ .newline

namespace Kind.Inner

theorem keyword (k : Keyword) : (Kind.keyword k).Inner :=
  ⟨Kind.noConfusion, Kind.noConfusion⟩

theorem symbol (s : Symbol) : (Kind.symbol s).Inner :=
  ⟨Kind.noConfusion, Kind.noConfusion⟩

theorem identifier : Kind.identifier.Inner :=
  ⟨Kind.noConfusion, Kind.noConfusion⟩

theorem number : Kind.number.Inner :=
  ⟨Kind.noConfusion, Kind.noConfusion⟩

end Kind.Inner

/-- The complaint can be about this token. -/
def Complaint.Fits (t : Token) : Complaint → Prop
  | .unknownToken => t.kind = .unknown
  | .invalidNumber => t.kind = .number ∧ Parser.literal? t.text = none
  | .trailingToken => t.Inside
  | _ => True

namespace Cursor

variable {c d : Cursor}

/-- A place that a cursor can reach from `start` by moving along its tokens. -/
structure Along (c start : Cursor) : Prop where
  eof : c.eof = start.eof
  rest : c.rest <:+ start.rest

theorem Along.refl (c : Cursor) : c.Along c :=
  ⟨rfl, List.suffix_refl _⟩

theorem Along.trans {e : Cursor} (h : c.Along d) (h' : d.Along e) : c.Along e :=
  ⟨h.eof.trans h'.eof, h.rest.trans h'.rest⟩

theorem Along.length_le (h : d.Along c) : d.rest.length ≤ c.rest.length :=
  h.rest.length_le

theorem advance_along (c : Cursor) : c.advance.Along c :=
  ⟨rfl, List.tail_suffix _⟩

/-- The cursor moved back over some tokens. -/
def rewind (passed : List Token) (c : Cursor) : Cursor :=
  ⟨passed ++ c.rest, c.eof⟩

theorem rewind_append (passed more : List Token) (c : Cursor) :
    c.rewind (passed ++ more) = (c.rewind more).rewind passed := by
  unfold rewind
  rw [List.append_assoc]

theorem along_rewind (passed : List Token) (c : Cursor) : c.Along (c.rewind passed) :=
  ⟨rfl, List.suffix_append _ _⟩

/-- The cursor behind all tokens that a class holds. -/
def skip (skipped : Token → Bool) (c : Cursor) : Cursor :=
  ⟨c.rest.dropWhile skipped, c.eof⟩

theorem kind_eof_ofTokens (ts : List Token) : (ofTokens ts).eof.kind = .eof := by
  unfold ofTokens
  cases ts.getLast? with
  | none => rfl
  | some last => rfl

/-- Before the end of the input there is a token to move past. -/
theorem eq_rewind_of_inside (eof : c.eof.kind = .eof) (inside : c.peek.Inside) :
    c = c.advance.rewind [c.peek] := by
  obtain ⟨_ | ⟨t, rest⟩, stop⟩ := c
  · exact absurd eof inside
  · rfl

/-- Where a token of the text is seen, moving on leaves fewer tokens. -/
theorem length_advance_lt (eof : c.eof.kind = .eof) (inside : c.peek.kind ≠ .eof) :
    c.advance.rest.length < c.rest.length := by
  conv => rhs; rw [eq_rewind_of_inside eof inside]
  exact Nat.lt_succ_self _

/-- The first token behind those that a class holds is not in the class. -/
theorem peek_skip {skipped : Token → Bool} (eof : skipped c.eof = false) :
    skipped (c.skip skipped).peek = false := by
  have first := List.head?_dropWhile_not skipped c.rest
  unfold skip peek
  cases hr : c.rest.dropWhile skipped with
  | nil => exact eof
  | cons t rest =>
    rw [hr] at first
    exact first

theorem skip_rewind {skipped : Token → Bool} {passed : List Token}
    (all : ∀ t ∈ passed, skipped t = true) (stops : skipped d.peek = false) :
    (d.rewind passed).skip skipped = d := by
  have rest : d.rest.dropWhile skipped = d.rest := by
    obtain ⟨_ | ⟨t, rest⟩, stop⟩ := d
    · rfl
    · exact List.dropWhile_cons_of_neg (Bool.eq_false_iff.mp stops)
  unfold skip rewind
  rw [List.dropWhile_append_of_pos all, rest]

end Cursor

/-! ## Comparisons -/

/-- How a second input differs from a first one. -/
structure Comparison where
  /-- What the second parser sees in place of a token. -/
  see : Token → Token
  /-- What is asked of the tokens of the first input. -/
  Good : Token → Prop
  /-- The places of the second input that answer to a place of the first one. -/
  View : Cursor → Cursor → Prop
  /-- The second input ends where the first one does, and failures are compared too. -/
  faithful : Prop
  /-- The two parsers have different bounds on nesting, above the number of tokens left. -/
  bounded : Prop
  kind_see {t : Token} : t.Inside → (see t).kind = t.kind
  /-- Where the first input ends, the second one ends or goes on with another line. -/
  kind_see_of_eof {t : Token} :
    t.kind = .eof → (see t).kind = .eof ∨ ¬faithful ∧ (see t).kind = .newline
  sameWord_see {t : Token} (word : String) : Good t → t.kind = .identifier →
    Text.sameWord (see t).text word = Text.sameWord t.text word
  literal?_see {t : Token} : Good t → t.kind = .number →
    Parser.literal? (see t).text = Parser.literal? t.text
  next {c d : Cursor} : View c d → d.peek = see c.peek
  second {c d : Cursor} : View c d → c.peek.Inside → d.peekSecond = see c.peekSecond
  rewind {c d : Cursor} {t : Token} : View c d → t.Inside → View (c.rewind [t]) (d.rewind [see t])

namespace Comparison

variable (C : Comparison)

/-- A place where the first parser may be run. -/
structure Admits (c : Cursor) : Prop where
  eof : c.eof.kind = .eof
  good : ∀ t ∈ c.rest, t.Inside → C.Good t

/-- The bounds on nesting of two parsers. If they differ, there are fewer than `k` tokens to go. -/
inductive Fuel : Nat → Nat → Nat → Prop
  | same (n : Nat) : Fuel n n n
  | above {k n m : Nat} (bounded : C.bounded) (hn : k ≤ n) (hm : k ≤ m) : Fuel k n m

variable {α β : Type} {C : Comparison} {c d : Cursor} {t : Token} {k l n m : Nat}
  {P Q : Token → Prop} {moves moves' : Prop} {R S : α → α → Prop}

theorem Admits.along (h : C.Admits c) (along : d.Along c) : C.Admits d :=
  ⟨along.eof ▸ h.eof, fun t ht ↦ h.good t (along.rest.subset ht)⟩

theorem Admits.peek (h : C.Admits c) (inside : c.peek.Inside) : C.Good c.peek := by
  refine h.good _ ?_ inside
  rw [Cursor.eq_rewind_of_inside h.eof inside]
  exact List.mem_cons_self

theorem kind_see_eq_iff {kind : Kind} (inner : kind.Inner) :
    (C.see t).kind = kind ↔ t.kind = kind := by
  by_cases hk : t.kind = .eof
  · have other : (C.see t).kind ≠ kind := by
      rcases C.kind_see_of_eof hk with same | ⟨-, line⟩
      · exact same ▸ inner.1.symm
      · exact line ▸ inner.2.symm
    exact ⟨fun h ↦ absurd h other, fun h ↦ absurd (h.symm.trans hk) inner.1⟩
  · rw [C.kind_see hk]

theorem isWord_see : (C.see t).isWord = t.isWord := by
  unfold Token.isWord
  by_cases hk : t.kind = .eof
  · rcases C.kind_see_of_eof hk with same | ⟨-, line⟩
    · rw [same, hk]
    · rw [line, hk]
      rfl
  · rw [C.kind_see hk]

theorem View.rewind (h : C.View c d) {passed : List Token} (inside : ∀ t ∈ passed, t.Inside) :
    C.View (c.rewind passed) (d.rewind (passed.map C.see)) := by
  induction passed with
  | nil => exact h
  | cons t passed ih =>
    obtain ⟨here, behind⟩ := List.forall_mem_cons.mp inside
    exact C.rewind (ih behind) here

/-- Two tokens that stand inside a line. -/
theorem pair_iff (h : C.View c d) {kind second : Kind} (inner : kind.Inner)
    (inner' : second.Inner) :
    d.peek.kind = kind ∧ d.peekSecond.kind = second ↔
      c.peek.kind = kind ∧ c.peekSecond.kind = second := by
  rw [C.next h, C.kind_see_eq_iff inner]
  refine and_congr_right fun hk ↦ ?_
  rw [C.second h (hk.trans_ne inner.1), C.kind_see_eq_iff inner']

/-- Induction on two bounds. -/
theorem Fuel.induction {motive : (k n m : Nat) → C.Fuel k n m → Prop}
    (zero : ∀ n m h, motive 0 n m h)
    (succ : ∀ k n m (h : C.Fuel k n m) h', motive k n m h → motive (k + 1) (n + 1) (m + 1) h')
    {k n m : Nat} (h : C.Fuel k n m) : motive k n m h := by
  induction k generalizing n m with
  | zero => exact zero n m h
  | succ k ih =>
    cases h with
    | same => exact succ k k k (.same k) _ (ih _)
    | above bounded hn hm =>
      obtain ⟨n, rfl⟩ := Nat.exists_eq_add_one.mpr (Nat.zero_lt_of_lt hn)
      obtain ⟨m, rfl⟩ := Nat.exists_eq_add_one.mpr (Nat.zero_lt_of_lt hm)
      have lower : C.Fuel k n m :=
        .above bounded (Nat.le_of_succ_le_succ hn) (Nat.le_of_succ_le_succ hm)
      exact succ k n m lower _ (ih lower)

/-- The first parser ends behind the tokens `passed` of its input, and the second one follows it. If
`moves` holds, a result is not given before a token has been read. -/
inductive Outcome (C : Comparison) (moves : Prop) (R : α → α → Prop) (p q : Parser α) (c : Cursor) :
    Prop
  | ok {a b : α} {c' : Cursor} (passed : List Token) (split : c = c'.rewind passed)
      (inside : ∀ t ∈ passed, t.Inside) (progress : moves → passed ≠ []) (result : R a b)
      (left : p c = .ok a c')
      (right : ∀ d, C.View c' d → q (d.rewind (passed.map C.see)) = .ok b d) :
      Outcome C moves R p q c
  | error {e : Complaint} {c' : Cursor} (passed : List Token) (split : c = c'.rewind passed)
      (inside : ∀ t ∈ passed, t.Inside) (fits : e.Fits c'.peek)
      (grammar : C.bounded → e ≠ .tooDeep) (left : p c = .error e c')
      (right : C.faithful → ∀ d, C.View c' d → q (d.rewind (passed.map C.see)) = .error e d) :
      Outcome C moves R p q c

/-- Where the next token is one that `P` holds of, `q` follows `p`; if bounds on nesting are
compared, where fewer than `k` tokens are left. -/
def Follows (C : Comparison) (k : Nat) (P : Token → Prop) (moves : Prop) (R : α → α → Prop)
    (p q : Parser α) : Prop :=
  ∀ ⦃c : Cursor⦄, C.Admits c → P c.peek → (C.bounded → c.rest.length < k) → C.Outcome moves R p q c

/-- Some tokens are moved past first. -/
theorem Outcome.after {p q p' q' : Parser α} {front : List Token} (h : C.Outcome moves R p q c)
    (inside : ∀ t ∈ front, t.Inside) (progress : moves' → moves ∨ front ≠ [])
    (left : p' (c.rewind front) = p c)
    (right : ∀ d, C.View c d → q' (d.rewind (front.map C.see)) = q d) :
    C.Outcome moves' R p' q' (c.rewind front) := by
  cases h with
  | ok passed split inside' progress' result left' right' =>
    subst split
    refine .ok (front ++ passed) (Cursor.rewind_append ..).symm
      (List.forall_mem_append.mpr ⟨inside, inside'⟩) (fun moved ↦ ?_) result (left.trans left')
      fun d view ↦ ?_
    · rcases progress moved with moved | moved
      · exact List.append_ne_nil_of_right_ne_nil _ (progress' moved)
      · exact List.append_ne_nil_of_left_ne_nil moved _
    · rw [List.map_append, Cursor.rewind_append, right _ (View.rewind view inside')]
      exact right' d view
  | error passed split inside' fits grammar left' right' =>
    subst split
    refine .error (front ++ passed) (Cursor.rewind_append ..).symm
      (List.forall_mem_append.mpr ⟨inside, inside'⟩) fits grammar (left.trans left')
      fun exactly d view ↦ ?_
    rw [List.map_append, Cursor.rewind_append, right _ (View.rewind view inside')]
    exact right' exactly d view

/-- The parsers do what others do here. -/
theorem Outcome.of_eq {p q p' q' : Parser α} (h : C.Outcome moves R p q c) (left : p' c = p c)
    (right : ∀ d, C.View c d → q' d = q d) : C.Outcome moves R p' q' c :=
  @after _ _ _ _ _ _ _ _ _ _ [] h (List.forall_mem_nil _) .inl left right

/-- A parser that has to read a token fails at the end of the input. If failures are not compared,
the second parser does not count. -/
theorem Outcome.of_eof {p q : Parser α} (h : C.Outcome True R p q c) (atEnd : c.peek.kind = .eof)
    (unfaithful : ¬C.faithful) (q' : Parser α) : C.Outcome True R p q' c := by
  cases h with
  | ok passed split inside progress =>
    cases passed with
    | nil => exact absurd rfl (progress trivial)
    | cons t passed =>
      subst split
      exact absurd atEnd (inside t List.mem_cons_self)
  | error passed split inside fits grammar left =>
    exact .error passed split inside fits grammar left fun faithful ↦ absurd faithful unfaithful

/-- A token that does not end the input is moved past. -/
theorem Outcome.advance {p q : Unit → Parser α} (admits : C.Admits c) (inside : c.peek.Inside)
    (h : C.Outcome moves R (p ()) (q ()) c.advance) :
    C.Outcome moves' R (Parser.advance >>= p) (Parser.advance >>= q) c := by
  rw [Cursor.eq_rewind_of_inside admits.eof inside]
  exact h.after (List.forall_mem_singleton.mpr inside) (fun _ ↦ .inr (List.cons_ne_nil _ _)) rfl
    fun d view ↦ rfl

namespace Follows

variable {p q p' q' : Parser α} {f g : α → Parser β} {T : β → β → Prop}

theorem mono (h : C.Follows k P moves R p q) (hk : l ≤ k) : C.Follows l P moves R p q :=
  fun _ admits next length ↦ h admits next fun bounded ↦ Nat.lt_of_lt_of_le (length bounded) hk

theorem lower (h : C.Follows (k + 1) P moves R p q) : C.Follows k P moves R p q :=
  h.mono (Nat.le_succ k)

/-- Where bounds on nesting are not compared, the number of tokens left does not count. -/
theorem unbounded (h : C.Follows k P moves R p q) (hC : ¬C.bounded) : C.Follows l P moves R p q :=
  fun _ admits next _ ↦ h admits next (absurd · hC)

theorem at_next (h : C.Follows k P moves R p q) (hP : ∀ t, Q t → P t) :
    C.Follows k Q moves R p q :=
  fun _ admits next length ↦ h admits (hP _ next) length

theorem anywhere (h : C.Follows k Token.Any moves R p q) : C.Follows k P moves R p q :=
  h.at_next fun _ _ ↦ trivial

theorem imp (h : C.Follows k P moves R p q) (hm : moves' → moves) (hR : ∀ a b, R a b → S a b) :
    C.Follows k P moves' S p q := by
  intro c admits next length
  cases h admits next length with
  | ok passed split inside progress result left right =>
    exact .ok passed split inside (progress ∘ hm) (hR _ _ result) left right
  | error passed split inside fits grammar left right =>
    exact .error passed split inside fits grammar left right

/-- Whether a token is read may be left open. -/
theorem rest (h : C.Follows k P moves R p q) : C.Follows k P False R p q :=
  h.imp False.elim fun _ _ ↦ id

theorem pure {a b : α} (h : R a b) : C.Follows k P False R (Pure.pure a) (Pure.pure b) :=
  fun _ _ _ _ ↦ .ok [] rfl (List.forall_mem_nil _) False.elim h rfl fun _ _ ↦ rfl

theorem throw {e : Complaint} (fits : ∀ t, P t → e.Fits t) (grammar : e ≠ .tooDeep) :
    C.Follows k P moves R (MonadExcept.throw e) (MonadExcept.throw e) :=
  fun _ _ next _ ↦ .error [] rfl (List.forall_mem_nil _) (fits _ next) (fun _ ↦ grammar) rfl
    fun _ _ _ ↦ rfl

theorem expected (what : Expected) :
    C.Follows k P moves R (MonadExcept.throw (.expected what))
      (MonadExcept.throw (.expected what)) :=
  .throw (fun _ _ ↦ trivial) Complaint.noConfusion

theorem unexpected (place : Place) :
    C.Follows k P moves R (MonadExcept.throw (.unexpected place))
      (MonadExcept.throw (.unexpected place)) :=
  .throw (fun _ _ ↦ trivial) Complaint.noConfusion

/-- The bounds on nesting are used up at once, or there are no tokens to go. -/
theorem exhausted (h : C.Fuel 0 n m) {p q : Nat → Parser α}
    (hp : p 0 = MonadExcept.throw .tooDeep) (hq : q 0 = MonadExcept.throw .tooDeep) :
    C.Follows 0 P moves R (p n) (q m) := by
  intro c _ _ length
  have unbounded (bounded : C.bounded) : False := Nat.not_lt_zero _ (length bounded)
  cases h with
  | same =>
    rw [hp, hq]
    exact .error (e := .tooDeep) [] rfl (List.forall_mem_nil _) trivial (False.elim ∘ unbounded)
      rfl fun _ _ _ ↦ rfl
  | above bounded => exact (unbounded bounded).elim

/-- The same where the last token is still to come. -/
theorem exhausted_inside (h : C.Fuel 0 n m) {p q : Nat → Parser α}
    (hp : p 0 = MonadExcept.throw .tooDeep) (hq : q 0 = MonadExcept.throw .tooDeep) :
    C.Follows 1 Token.Inside moves R (p n) (q m) := by
  intro c admits inside length
  refine exhausted (P := Token.Inside) h hp hq admits inside fun bounded ↦ ?_
  have short := length bounded
  rw [Cursor.eq_rewind_of_inside admits.eof inside] at short
  exact absurd short (Nat.not_lt.mpr (Nat.succ_le_succ (Nat.zero_le _)))

/-- One parser behind another. If the first one reads a token, fewer tokens are left. -/
theorem bind_of_le (hp : C.Follows k P moves R p q)
    (hf : ∀ a b, R a b → C.Follows l Token.Any False T (f a) (g b))
    (fewer : k ≤ l ∨ moves ∧ k ≤ l + 1) : C.Follows k P moves T (p >>= f) (q >>= g) := by
  intro c admits next length
  cases hp admits next length with
  | @ok _ _ c' passed split inside progress result left right =>
    subst split
    have second := hf _ _ result (admits.along (c'.along_rewind passed)) trivial fun bounded ↦ ?_
    · exact second.after inside (.inr ∘ progress) (bind_ok left) fun d view ↦
        bind_ok (right d view)
    · have whole := length bounded
      rw [Cursor.rewind, List.length_append] at whole
      rcases fewer with same | ⟨moved, lower⟩
      · omega
      · have read := List.length_pos_iff.mpr (progress moved)
        omega
  | error passed split inside fits grammar left right =>
    exact .error passed split inside fits grammar (bind_error left) fun faithful d view ↦
      bind_error (right faithful d view)

theorem bind (hp : C.Follows k P moves R p q)
    (hf : ∀ a b, R a b → C.Follows k Token.Any False T (f a) (g b)) :
    C.Follows k P moves T (p >>= f) (q >>= g) :=
  hp.bind_of_le hf (.inl (Nat.le_refl k))

theorem bind_lower (hp : C.Follows (k + 1) P True R p q)
    (hf : ∀ a b, R a b → C.Follows k Token.Any False T (f a) (g b)) :
    C.Follows (k + 1) P moves T (p >>= f) (q >>= g) :=
  (hp.bind_of_le hf (.inr ⟨trivial, Nat.le_refl _⟩)).imp (fun _ ↦ trivial) fun _ _ ↦ id

theorem map {F G : α → β} (hp : C.Follows k P moves R p q) (hF : ∀ a b, R a b → T (F a) (G b)) :
    C.Follows k P moves T (do return F (← p)) (do return G (← q)) :=
  hp.bind fun a b h ↦ .pure (hF a b h)

theorem discard (hp : C.Follows k P moves R p q) :
    C.Follows k P moves (fun _ _ ↦ True) (Functor.discard p) (Functor.discard q) :=
  hp.map fun _ _ _ ↦ trivial

/-- Two branches on tests that come out alike. -/
theorem ite {b b' : Prop} [Decidable b] [Decidable b'] (same : b' ↔ b)
    (hp : b → C.Follows k P moves R p q) (hp' : ¬b → C.Follows k P moves R p' q') :
    C.Follows k P moves R (if b then p else p') (if b' then q else q') := by
  by_cases hb : b
  · rw [if_pos hb, if_pos (same.mpr hb)]
    exact hp hb
  · rw [if_neg hb, if_neg (mt same.mp hb)]
    exact hp' hb

/-! ## Looking at tokens -/

/-- A look at the next token, which is still there for what follows. -/
theorem peek {f g : Token → Parser α}
    (hf : ∀ t, P t → (t.Inside → C.Good t) →
      C.Follows k (· = t) moves R (f t) (g (C.see t))) :
    C.Follows k P moves R (Parser.peek >>= f) (Parser.peek >>= g) := by
  intro c admits next length
  refine (hf c.peek next admits.peek admits rfl length).of_eq rfl fun d view ↦ ?_
  change g d.peek d = _
  rw [C.next view]

/-- A look at the next token whether it passes a test. At the end of the input none does. -/
theorem peek_ite {f g : Token → Parser α} {test : Token → Prop} [DecidablePred test]
    (same : ∀ t, (t.Inside → C.Good t) → (test (C.see t) ↔ test t))
    (yes : ∀ t, P t → C.Good t → test t → C.Follows k (· = t) moves R (f t) (g (C.see t)))
    (inside : ∀ t, test t → t.Inside)
    (no : C.Follows k (fun t ↦ P t ∧ ¬test t) moves R p q) :
    C.Follows k P moves R (do let t ← Parser.peek; if test t then f t else p)
      (do let t ← Parser.peek; if test t then g t else q) := by
  refine .peek fun t next good ↦ .ite (same t good) (fun passes ↦ ?_) fun fails ↦ ?_
  · exact yes t next (good (inside t passes)) passes
  · exact no.at_next fun _ here ↦ here ▸ ⟨next, fails⟩

/-- A look at the kind of the next token. At the end of the first input the second parser may see a
line end. -/
theorem peekKind {f g : Kind → Parser α}
    (inside : ∀ kind, kind ≠ .eof →
      C.Follows k (fun t ↦ P t ∧ t.kind = kind) moves R (f kind) (g kind))
    (atEnd : C.Follows k (fun t ↦ P t ∧ t.kind = .eof) moves R (f .eof) (g .eof))
    (line : ¬C.faithful →
      C.Follows k (fun t ↦ P t ∧ t.kind = .eof) moves R (f .eof) (g .newline)) :
    C.Follows k P moves R (Parser.peekKind >>= f) (Parser.peekKind >>= g) := by
  refine peek (f := fun t ↦ f t.kind) (g := fun t ↦ g t.kind) fun t next _ ↦ ?_
  by_cases hk : t.kind = .eof
  · have here (u : Token) (hu : u = t) : P u ∧ u.kind = .eof := hu ▸ ⟨next, hk⟩
    rw [hk]
    rcases C.kind_see_of_eof hk with same | ⟨unfaithful, newline⟩
    · rw [same]
      exact atEnd.at_next here
    · rw [newline]
      exact (line unfaithful).at_next here
  · rw [C.kind_see hk]
    refine (inside _ hk).at_next ?_
    rintro _ rfl
    exact ⟨next, rfl⟩

/-- A line end and the end of the input may be taken for the same. -/
theorem peekKind_of_eq {f g : Kind → Parser α}
    (hf : ∀ kind, C.Follows k (fun t ↦ P t ∧ t.kind = kind) moves R (f kind) (g kind))
    (same : g .newline = g .eof) :
    C.Follows k P moves R (Parser.peekKind >>= f) (Parser.peekKind >>= g) :=
  .peekKind (fun kind _ ↦ hf kind) (hf .eof) fun _ ↦ same ▸ hf .eof

theorem advance {f g : Unit → Parser α} (inside : ∀ t, P t → t.Inside)
    (hf : C.Follows k Token.Any False R (f ()) (g ())) :
    C.Follows (k + 1) P moves R (Parser.advance >>= f) (Parser.advance >>= g) := by
  intro c admits next length
  have behind := hf (admits.along c.advance_along) trivial fun bounded ↦ ?_
  · exact .advance admits (inside _ next) behind
  · have shorter := Cursor.length_advance_lt admits.eof (inside _ next)
    have whole := length bounded
    omega

/-- Two tokens are moved past. -/
theorem past (h : C.Follows k Token.Any False R p q) (admits : C.Admits c)
    (inside : c.peek.Inside) (inside' : c.peekSecond.Inside)
    (length : C.bounded → c.rest.length < k) :
    C.Outcome moves R (Parser.advance >>= fun _ ↦ Parser.advance >>= fun _ ↦ p)
      (Parser.advance >>= fun _ ↦ Parser.advance >>= fun _ ↦ q) c := by
  have along := c.advance.advance_along.trans c.advance_along
  have behind : C.Outcome True R (Parser.advance >>= fun _ ↦ p) (Parser.advance >>= fun _ ↦ q)
      c.advance :=
    .advance (admits.along c.advance_along) inside' <|
      h (admits.along along) trivial fun bounded ↦
        Nat.lt_of_le_of_lt along.length_le (length bounded)
  exact .advance admits inside behind

/-- Behind a token that does not end the input, the second one may be looked at. -/
theorem secondKind (inside : ∀ t, P t → t.Inside) {second : Kind} (inner : second.Inner)
    (yes : C.Follows k Token.Any False R p q) (no : C.Follows k P moves R p' q') :
    C.Follows k P moves R
      (do
        if (← Parser.secondKind) = second then
          Parser.advance
          Parser.advance
          p
        else
          p')
      (do
        if (← Parser.secondKind) = second then
          Parser.advance
          Parser.advance
          q
        else
          q') := by
  intro c admits next length
  have same (d : Cursor) (view : C.View c d) :
      d.peekSecond.kind = second ↔ c.peekSecond.kind = second := by
    rw [C.second view (inside _ next), C.kind_see_eq_iff inner]
  by_cases here : c.peekSecond.kind = second
  · refine (yes.past admits (inside _ next) (here.trans_ne inner.1) length).of_eq ?_
      fun d view ↦ ?_
    · exact congrFun (if_pos here) c
    · exact congrFun (if_pos ((same d view).mpr here)) d
  · refine (no admits next length).of_eq (congrFun (if_neg here) c) fun d view ↦ ?_
    exact congrFun (if_neg (mt (same d view).mp here)) d

/-- Two tokens that may be there, and are moved past if they are. -/
theorem pair {kind second : Kind} (inner : kind.Inner) (inner' : second.Inner)
    (yes : C.Follows k Token.Any False R p q) (no : C.Follows k P moves R p' q') :
    C.Follows k P moves R
      (do
        if (← Parser.peekKind) = kind ∧ (← Parser.secondKind) = second then
          Parser.advance
          Parser.advance
          p
        else
          p')
      (do
        if (← Parser.peekKind) = kind ∧ (← Parser.secondKind) = second then
          Parser.advance
          Parser.advance
          q
        else
          q') := by
  intro c admits next length
  have same (d : Cursor) (view : C.View c d) := C.pair_iff view inner inner'
  by_cases here : c.peek.kind = kind ∧ c.peekSecond.kind = second
  · refine (yes.past admits (here.1.trans_ne inner.1) (here.2.trans_ne inner'.1) length).of_eq ?_
      fun d view ↦ ?_
    · exact congrFun (if_pos here) c
    · exact congrFun (if_pos ((same d view).mpr here)) d
  · refine (no admits next length).of_eq (congrFun (if_neg here) c) fun d view ↦ ?_
    exact congrFun (if_neg (mt (same d view).mp here)) d

/-- Whether `End If` comes next. -/
theorem atEndIf : C.Follows k P False Eq Parser.atEndIf Parser.atEndIf := by
  intro c _ _ _
  refine .ok [] rfl (List.forall_mem_nil _) False.elim rfl rfl fun d view ↦ ?_
  have same := C.pair_iff view (.keyword .endKw) (.keyword .ifKw)
  exact congrArg (EStateM.Result.ok · d) (decide_eq_decide.mpr same)

/-! ## Skipping tokens -/

/-- Tokens of a class are moved past. If the end of the input is seen as a token of the class, what
follows has to fail there. -/
theorem skip (q' : Parser α) {skipped : Token → Bool}
    (outside : ∀ t : Token, skipped t = true → t.Inside)
    (see : ∀ t : Token, t.Inside → skipped (C.see t) = skipped t)
    (inside : C.Follows k Token.Inside False R p q)
    (atEnd : (∀ t : Token, t.kind = .eof → skipped (C.see t) = false) ∧
        C.Follows k (fun t ↦ t.kind = .eof) False R p q ∨
      ¬C.faithful ∧ C.Follows k (fun t ↦ t.kind = .eof) True R p q') :
    C.Follows k P False R (fun c ↦ p (c.skip skipped)) (fun c ↦ q (c.skip skipped)) := by
  intro c admits _ length
  let c' := c.skip skipped
  have split : c = c'.rewind (c.rest.takeWhile skipped) :=
    congrArg (Cursor.mk · c.eof) List.takeWhile_append_dropWhile.symm
  have passed (t : Token) (ht : t ∈ c.rest.takeWhile skipped) : skipped t = true :=
    List.mem_takeWhile_imp ht
  have inside' (t : Token) (ht : t ∈ c.rest.takeWhile skipped) : t.Inside :=
    outside t (passed t ht)
  have stops : skipped c'.peek = false :=
    Cursor.peek_skip (Bool.eq_false_iff.mpr fun h ↦ outside _ h admits.eof)
  have along : c'.Along c := ⟨rfl, List.dropWhile_suffix _⟩
  have admits' := admits.along along
  have length' (bounded : C.bounded) := Nat.lt_of_le_of_lt along.length_le (length bounded)
  have left : p ((c'.rewind (c.rest.takeWhile skipped)).skip skipped) = p c' := by rw [← split]
  -- unless the second input goes on with more tokens of the class, it is left at `d`
  have right (other : skipped (C.see c'.peek) = false) (d : Cursor) (view : C.View c' d) :
      q ((d.rewind ((c.rest.takeWhile skipped).map C.see)).skip skipped) = q d := by
    rw [Cursor.skip_rewind (fun u hu ↦ ?_) (C.next view ▸ other)]
    obtain ⟨t, ht, rfl⟩ := List.mem_map.mp hu
    rw [see t (inside' t ht), passed t ht]
  rw [split]
  by_cases hk : c'.peek.kind = .eof
  · rcases atEnd with ⟨other, here⟩ | ⟨unfaithful, fails⟩
    · exact (here admits' hk length').after inside' False.elim left (right (other _ hk))
    · have failed := (fails admits' hk length').of_eof hk unfaithful fun d ↦
        q ((d.rewind ((c.rest.takeWhile skipped).map C.see)).skip skipped)
      exact failed.after inside' False.elim left fun _ _ ↦ rfl
  · exact (inside admits' hk length').after inside' False.elim left
      (right ((see _ hk).trans stops))

theorem skipColons (hp : C.Follows k Token.Any False R p q) :
    C.Follows k P False R (Parser.skipColons >>= fun _ ↦ p) (Parser.skipColons >>= fun _ ↦ q) := by
  have see (t : Token) :
      ((C.see t).kind == .symbol .colon) = (t.kind == .symbol .colon) :=
    Bool.eq_iff_iff.mpr (by simpa using C.kind_see_eq_iff (.symbol .colon))
  refine skip q (fun t ht ↦ ?_) (fun t _ ↦ see t) hp.anywhere
    (.inl ⟨fun t ht ↦ ?_, hp.anywhere⟩)
  · exact (eq_of_beq ht).trans_ne Kind.noConfusion
  · rw [see, ht]
    rfl

/-- Line ends and colons are moved past. If the second input goes on where the first one ends, what
follows has to fail at the end. -/
theorem skipSeparators (q' : Parser α) (inside : C.Follows k Token.Inside False R p q)
    (atEnd : C.faithful → C.Follows k (fun t ↦ t.kind = .eof) False R p q)
    (fails : ¬C.faithful → C.Follows k (fun t ↦ t.kind = .eof) True R p q') :
    C.Follows k P False R (Parser.skipSeparators >>= fun _ ↦ p)
      (Parser.skipSeparators >>= fun _ ↦ q) := by
  refine skip q' (fun t ht hk ↦ ?_) (fun t ht ↦ ?_) inside ?_
  · rw [Parser.isSeparator, hk] at ht
    cases ht
  · unfold Parser.isSeparator
    rw [C.kind_see ht]
  · by_cases faithful : C.faithful
    · refine .inl ⟨fun t ht ↦ ?_, atEnd faithful⟩
      rcases C.kind_see_of_eof ht with same | ⟨unfaithful, -⟩
      · rw [Parser.isSeparator, same]
        rfl
      · exact absurd faithful unfaithful
    · exact .inr ⟨faithful, fails faithful⟩

/-- The same in front of a look at the kind of the next token. -/
theorem skipSeparators_peekKind {f g : Kind → Parser α}
    (inside : ∀ kind, kind ≠ .eof → C.Follows k (fun t ↦ t.kind = kind) False R (f kind) (g kind))
    (atEnd : C.Follows k (fun t ↦ t.kind = .eof) (¬C.faithful) R (f .eof) (g .eof)) :
    C.Follows k P False R (Parser.skipSeparators >>= fun _ ↦ Parser.peekKind >>= f)
      (Parser.skipSeparators >>= fun _ ↦ Parser.peekKind >>= g) := by
  refine skipSeparators (Parser.peek >>= fun _ ↦ g .eof)
    (peek (f := fun t ↦ f t.kind) (g := fun t ↦ g t.kind) fun t ht _ ↦ ?_)
    (fun faithful ↦ peek (f := fun t ↦ f t.kind) (g := fun t ↦ g t.kind) fun t ht _ ↦ ?_)
    fun unfaithful ↦ peek (f := fun t ↦ f t.kind) fun t ht _ ↦ ?_
  · rw [C.kind_see ht]
    exact (inside t.kind ht).at_next fun _ here ↦ congrArg Token.kind here
  · rcases C.kind_see_of_eof ht with same | ⟨unfaithful, -⟩
    · rw [ht, same]
      exact atEnd.rest.at_next fun _ here ↦ here ▸ ht
    · exact absurd faithful unfaithful
  · rw [ht]
    exact (atEnd.imp (fun _ ↦ unfaithful) fun _ _ ↦ id).at_next fun _ here ↦ here ▸ ht

/-! ## Reading tokens -/

/-- A token that passes a test is moved past, and what follows may depend on it. -/
theorem peek_advance {f g : Token → Parser α} {test : Token → Prop} [DecidablePred test]
    (same : ∀ t, (t.Inside → C.Good t) → (test (C.see t) ↔ test t))
    (inside : ∀ t, test t → t.Inside) (fewer : l ≤ k + 1)
    (yes : ∀ t, P t → C.Good t → test t → C.Follows k Token.Any False R (f t) (g (C.see t)))
    (no : C.Follows l (fun t ↦ P t ∧ ¬test t) moves R p q) :
    C.Follows l P moves R
      (do let t ← Parser.peek; if test t then do Parser.advance; f t else p)
      (do let t ← Parser.peek; if test t then do Parser.advance; g t else q) := by
  refine .peek_ite same (fun t next good passes ↦ ?_) inside no
  refine (Follows.advance (fun _ here ↦ ?_) (yes t next good passes)).mono fewer
  exact here ▸ inside t passes

/-- The same where the token is the result. -/
theorem take (test : Token → Prop) [DecidablePred test] {x : Token → α}
    (same : ∀ t, (t.Inside → C.Good t) → (test (C.see t) ↔ test t))
    (inside : ∀ t, test t → t.Inside) (fewer : l ≤ k + 1)
    (yes : ∀ t, P t → C.Good t → test t →
      C.Follows k Token.Any False T (f (x t)) (g (x (C.see t))))
    (no : C.Follows l (fun t ↦ P t ∧ ¬test t) moves T (p >>= f) (q >>= g)) :
    C.Follows l P moves T
      ((do let t ← Parser.peek; if test t then do Parser.advance; return x t else p) >>= f)
      ((do let t ← Parser.peek; if test t then do Parser.advance; return x t else q) >>= g) := by
  have run (p : Parser α) (f : α → Parser β) :
      (do let t ← Parser.peek; if test t then do Parser.advance; return x t else p) >>= f =
        (do let t ← Parser.peek; if test t then do Parser.advance; f (x t) else p >>= f) := by
    rw [bind_assoc]
    refine bind_congr fun t ↦ ?_
    by_cases ht : test t
    · rw [if_pos ht, if_pos ht]
      rfl
    · rw [if_neg ht, if_neg ht]
  rw [run, run]
  exact .peek_advance same inside fewer yes no

section Accept

variable {kind : Kind} (inner : kind.Inner) {f g : Bool → Parser α}

include inner

theorem accept_of_le (fewer : l ≤ k + 1)
    (present : C.Follows k Token.Any False R (f true) (g true))
    (absent : C.Follows l P moves R (f false) (g false)) :
    C.Follows l P moves R (Parser.accept kind >>= f) (Parser.accept kind >>= g) :=
  .take (fun t ↦ t.kind = kind) (x := fun _ ↦ true) (fun _ _ ↦ C.kind_see_eq_iff inner)
    (fun _ hk ↦ hk.trans_ne inner.1) fewer (fun _ _ _ _ ↦ present)
    (absent.at_next fun _ here ↦ here.1)

theorem accept (present : C.Follows k Token.Any False R (f true) (g true))
    (absent : C.Follows k P moves R (f false) (g false)) :
    C.Follows k P moves R (Parser.accept kind >>= f) (Parser.accept kind >>= g) :=
  accept_of_le inner (Nat.le_succ k) present absent

theorem accept_lower (present : C.Follows k Token.Any False R (f true) (g true))
    (absent : C.Follows (k + 1) P moves R (f false) (g false)) :
    C.Follows (k + 1) P moves R (Parser.accept kind >>= f) (Parser.accept kind >>= g) :=
  accept_of_le inner (Nat.le_refl _) present absent

omit f g in
theorem accepted : C.Follows k P False Eq (Parser.accept kind) (Parser.accept kind) := by
  rw [← bind_pure (Parser.accept kind)]
  exact .accept inner (.pure rfl) (.pure rfl)

end Accept

theorem acceptWord (word : String) {f g : Bool → Parser α}
    (present : C.Follows k Token.Any False R (f true) (g true))
    (absent : C.Follows k (fun t ↦ P t ∧ ¬(t.kind = .identifier ∧ Text.sameWord t.text word = true))
      moves R (f false) (g false)) :
    C.Follows k P moves R (Parser.acceptWord word >>= f) (Parser.acceptWord word >>= g) := by
  refine .take (fun t ↦ t.kind = .identifier ∧ Text.sameWord t.text word = true)
    (x := fun _ ↦ true) (fun t good ↦ ?_) (fun _ here ↦ here.1.trans_ne Kind.noConfusion)
    (Nat.le_succ k) (fun _ _ _ _ ↦ present) absent
  rw [C.kind_see_eq_iff .identifier]
  refine and_congr_right fun hk ↦ ?_
  rw [C.sameWord_see word (good (hk.trans_ne Kind.noConfusion)) hk]

theorem acceptedWord (word : String) :
    C.Follows k P False Eq (Parser.acceptWord word) (Parser.acceptWord word) := by
  rw [← bind_pure (Parser.acceptWord word)]
  exact .acceptWord word (.pure rfl) (.pure rfl)

theorem expect {kind : Kind} (inner : kind.Inner) (what : Expected) :
    C.Follows k P moves (fun t u ↦ P t ∧ C.Good t ∧ t.kind = kind ∧ u = C.see t)
      (Parser.expect kind what) (Parser.expect kind what) := by
  refine .peek_advance (fun _ _ ↦ C.kind_see_eq_iff inner) (fun _ hk ↦ hk.trans_ne inner.1)
    (Nat.le_succ k) (fun t next good hk ↦ ?_) (.expected what)
  exact .pure ⟨next, good, hk, rfl⟩

theorem expectKeyword (word : Keyword) (what : Expected) :
    C.Follows k P moves (fun _ _ ↦ True) (Parser.expectKeyword word what)
      (Parser.expectKeyword word what) :=
  (expect (.keyword word) what).discard

theorem expectSymbol (s : Symbol) (what : Expected) :
    C.Follows k P moves (fun _ _ ↦ True) (Parser.expectSymbol s what)
      (Parser.expectSymbol s what) :=
  (expect (.symbol s) what).discard

theorem expectEnd (word : Keyword) :
    C.Follows k P moves (fun _ _ ↦ True) (Parser.expectEnd word) (Parser.expectEnd word) :=
  (expectKeyword _ _).bind fun _ _ _ ↦ expectKeyword _ _

theorem optionally {kind : Kind} (inner : kind.Inner) (hp : C.Follows k Token.Any False R p q) :
    C.Follows k P False (Option.Rel R) (Parser.optionally kind p) (Parser.optionally kind q) :=
  .accept inner (hp.map fun _ _ ↦ .some) (.pure .none)

/-- One item or more, with commas between them. -/
theorem commaList (fuel : C.Fuel k n m) (hp : C.Follows k Token.Any False R p q) :
    C.Follows k Token.Any False (fun xs ys ↦ List.Forall₂ R xs ys ∧ xs ≠ [])
      (Parser.commaList p n) (Parser.commaList q m) := by
  induction fuel using Fuel.induction with
  | zero n m h => exact .exhausted h rfl rfl
  | succ k n m fuel _ ih =>
    refine hp.bind fun a b first ↦ .accept_lower (.symbol .comma) ?_ (.pure ?_)
    · exact (ih hp.lower).map fun as bs rest ↦ ⟨.cons first rest.1, List.cons_ne_nil _ _⟩
    · exact ⟨.cons first .nil, List.cons_ne_nil _ _⟩

end Follows

/-- A name, and how the second parser sees it. -/
def Name (C : Comparison) (a b : String) : Prop :=
  ∃ t, C.Good t ∧ t.kind = .identifier ∧ a = t.text ∧ b = (C.see t).text

theorem Follows.expectName_at (what : Expected) :
    C.Follows k P moves (fun a b ↦ C.Name a b ∧ ∃ t, P t ∧ t.kind = .identifier ∧ a = t.text)
      (Parser.expectName what) (Parser.expectName what) := by
  refine (expect .identifier what).map ?_
  rintro t _ ⟨next, good, hk, rfl⟩
  exact ⟨⟨t, good, hk, rfl, rfl⟩, t, next, hk, rfl⟩

theorem Follows.expectName (what : Expected) :
    C.Follows k P moves C.Name (Parser.expectName what) (Parser.expectName what) :=
  (expectName_at what).imp id fun _ _ ↦ And.left

/-- A name behind a word that may be left out is another word, if that was left out. -/
theorem Follows.wordThenName (word : String) (what : Expected) {f g : Bool → String → Parser α}
    (hf : ∀ present a b, C.Name a b → present = true ∨ Text.sameWord a word = false →
      C.Follows k Token.Any False R (f present a) (g present b)) :
    C.Follows k P False R
      (do let present ← Parser.acceptWord word; let a ← Parser.expectName what; f present a)
      (do let present ← Parser.acceptWord word; let a ← Parser.expectName what; g present a) := by
  refine .acceptWord word ?_ ?_
  · exact (expectName what).bind fun a b name ↦ hf true a b name (.inl rfl)
  · refine (expectName_at what).bind fun a b name ↦ ?_
    obtain ⟨name, t, ⟨-, other⟩, hk, rfl⟩ := name
    -- the name is the token that was looked at before
    exact hf false _ b name (.inr (Bool.eq_false_iff.mpr fun same ↦ other ⟨hk, same⟩))

/-! ## Runs -/

/-- A parser moves along the tokens. -/
theorem Follows.along {p q : Parser α} (h : C.Follows k P moves R p q) (admits : C.Admits c)
    (next : P c.peek) (length : C.bounded → c.rest.length < k) {a : α} {c' : Cursor}
    (run : p c = .ok a c') : c'.Along c := by
  cases h admits next length with
  | ok passed split _ _ _ left =>
    cases left.symm.trans run
    rw [split]
    exact c'.along_rewind passed
  | error _ _ _ _ _ left => cases left.symm.trans run

/-- If one place of the second input answers to each place of the first one, two runs from such
places end at such places. -/
theorem Outcome.ended {p q : Parser α} (h : C.Outcome moves R p q c) (faithful : C.faithful)
    {image : Cursor → Cursor} (view : ∀ c d, C.View c d ↔ d = image c) :
    Ended (fun c' d ↦ d = image c' ∧ c'.Along c) Eq R (p c) (q (image c)) := by
  have start (passed : List Token) (inside : ∀ t ∈ passed, t.Inside) (c' : Cursor) :
      image (c'.rewind passed) = (image c').rewind (passed.map C.see) :=
    ((view _ _).mp (View.rewind ((view c' _).mpr rfl) inside)).symm
  cases h with
  | @ok a b c' passed split inside _ result left right =>
    subst split
    rw [left, start passed inside c', right _ ((view c' _).mpr rfl)]
    exact .ok result ⟨rfl, c'.along_rewind passed⟩
  | @error e c' passed split inside _ _ left right =>
    subst split
    rw [left, start passed inside c', right faithful _ ((view c' _).mpr rfl)]
    exact .error rfl ⟨rfl, c'.along_rewind passed⟩

/-- The input itself, with something that is known of its tokens. -/
def self (Good : Token → Prop) (bounded : Prop) : Comparison where
  see := id
  Good := Good
  View c d := d = c
  faithful := True
  bounded := bounded
  kind_see _ := rfl
  kind_see_of_eof := .inl
  sameWord_see _ _ _ := rfl
  literal?_see _ _ := rfl
  next := congrArg Cursor.peek
  second h _ := congrArg Cursor.peekSecond h
  rewind h _ := congrArg (Cursor.rewind _) h

end Comparison

end MiniBasic
