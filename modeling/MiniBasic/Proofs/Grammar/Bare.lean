import MiniBasic.Proofs.Grammar.Walk
import MiniBasic.Proofs.Spelling.Tree

/-!
# Parsing sees kinds and spellings only

`bare f` takes a token's place away and respells its text by `f`, string literals excepted. A parser
run on bare tokens does the same as on the tokens themselves: it stops at the same token, with the
same complaint or with the respelled result. So trees do not depend on where tokens stand, and the
case of letters in names passes through to the tree without any other effect. Numbers are read
before they get into the tree, so `f` has to leave their texts alone.
-/

namespace MiniBasic

namespace Token

/-- A token without its place, its text respelled by `f` unless it is a string literal. -/
def bare (f : String → String) (t : Token) : Token :=
  ⟨t.kind, if t.kind = .text then t.text else f t.text, 0, 0, 0⟩

/-- A change of spelling that does not touch the token if it is a number. -/
def NumberKept (f : String → String) (t : Token) : Prop :=
  t.kind = .number → f t.text = t.text

variable {f : String → String} {t : Token}

theorem text_bare_of_text (h : t.kind = .text) : (t.bare f).text = t.text :=
  if_pos h

theorem text_bare_of_ne (h : t.kind ≠ .text) : (t.bare f).text = f t.text :=
  if_neg h

theorem text_bare_of_number (ht : t.NumberKept f) (h : t.kind = .number) :
    (t.bare f).text = t.text := by
  rw [text_bare_of_ne (by simp [h]), ht h]

theorem text_bare_of_isWord (h : t.isWord = true) : (t.bare f).text = f t.text := by
  refine text_bare_of_ne fun hk ↦ ?_
  simp [isWord, hk, Kind.isWord] at h

end Token

namespace Cursor

def bare (f : String → String) (c : Cursor) : Cursor :=
  ⟨c.rest.map (Token.bare f), c.eof.bare f⟩

variable (f : String → String) (c : Cursor)

theorem peek_bare : (c.bare f).peek = c.peek.bare f := by
  unfold peek bare
  cases c.rest <;> rfl

theorem peekSecond_bare : (c.bare f).peekSecond = c.peekSecond.bare f := by
  unfold peekSecond bare
  cases c.rest with
  | nil => rfl
  | cons t rest => cases rest <;> rfl

end Cursor

namespace Parser

variable {f : String → String} {α β : Type}

theorem peek_bind (k : Token → Parser α) (c : Cursor) : (peek >>= k) c = k c.peek c :=
  rfl

theorem modifyGet_bind (F : Cursor → α × Cursor) (k : α → Parser β) (c : Cursor) :
    (modifyGet F >>= k) c = k (F c).1 (F c).2 :=
  rfl

theorem peekKind_bind (f : Kind → Parser α) (c : Cursor) : (peekKind >>= f) c = f c.peek.kind c :=
  rfl

theorem openCall?_respell (e : Expr) (kind : Kind) :
    openCall? (e.respell f) kind =
      (openCall? e kind).map fun (callee, first) ↦ (callee.respell f, first.respell f) := by
  cases e with
  | call callee args =>
    rw [Expr.respell]
    rcases args with _ | ⟨first, _ | ⟨second, rest⟩⟩
    · rfl
    · cases kind with
      | symbol s => cases s <;> rfl
      | _ => rfl
    · rfl
  | _ => simp only [Expr.respell]; rfl

theorem nestingBound_eq_of_bare {ts us : List Token}
    (same : ts.map (Token.bare f) = us.map (Token.bare f)) :
    nestingBound us = nestingBound ts := by
  rw [nestingBound, nestingBound, ← List.length_map (Token.bare f), ← same, List.length_map]

end Parser

namespace Comparison

variable {f : String → String} (hf : Text.Folding f)

/-- The second parser sees bare tokens. -/
def bare : Comparison where
  see := Token.bare f
  Good := Token.NumberKept f
  View c d := d = c.bare f
  faithful := True
  bounded := False
  kind_see _ := rfl
  kind_see_of_eof := .inl
  sameWord_see word _ hk := by
    rw [Token.text_bare_of_ne (hk.trans_ne Kind.noConfusion), hf.sameWord_apply]
  literal?_see kept hk := by rw [Token.text_bare_of_number kept hk]
  next h := h ▸ Cursor.peek_bare f _
  second h _ := h ▸ Cursor.peekSecond_bare f _
  rewind h _ := h ▸ rfl

/-! ## Respelled trees -/

theorem map_eq_of_forall₂ {α : Type} {g : α → α} {as bs : List α}
    (h : List.Forall₂ (fun a b ↦ g a = b) as bs) : as.map g = bs :=
  eq_of_forall₂ (List.forall₂_map_left_iff.mpr h)

theorem eq_of_name_bare {a b : String} (h : (bare hf).Name a b) : f a = b := by
  obtain ⟨t, -, hk, rfl, rfl⟩ := h
  exact (Token.text_bare_of_ne (hk.trans_ne Kind.noConfusion)).symm

/-- The trees that the second parser builds are those of the first one, respelled. -/
def Trees.respell : (bare hf).Trees where
  SameType a b := f a = b
  SameExpr a b := a.respell f = b
  Root _ := True
  SameParam a b := a.respell f = b
  SameDeclarator a b := a.respell f = b
  SameStmt a b := a.respell f = b
  word _ hw := (Token.text_bare_of_isWord hw).symm
  dotted same _ hw := by
    rw [hf.append, hf.append, hf.dot, same]
    exact congrArg _ (Token.text_bare_of_isWord hw).symm
  number _ _ _ := by rw [Expr.respell]
  text _ hk := by
    rw [Expr.respell]
    exact congrArg Expr.text (Token.text_bare_of_text hk).symm
  name {t} _ hk := by
    have other : t.kind ≠ .text :=
      hk.elim (·.trans_ne Kind.noConfusion) (·.trans_ne Kind.noConfusion)
    rw [Expr.respell]
    exact congrArg Expr.name (Token.text_bare_of_ne other).symm
  new same := by rw [Expr.respell, same]
  unary op _ _ same := by rw [Expr.respell, same]
  binary op _ _ _ _ same same' := by rw [Expr.respell, same, same']
  member same _ hw := by
    rw [Expr.respell, same]
    exact congrArg (Expr.member _) (Token.text_bare_of_isWord hw).symm
  call same args := by rw [Expr.respell, same, map_eq_of_forall₂ args]
  root_name _ _ := trivial
  root_member _ := id
  root_call _ := id
  openCall? kind same := by
    rw [← same, Parser.openCall?_respell]
    cases Parser.openCall? _ kind with
    | none => exact .none
    | some parts => exact .some ⟨rfl, rfl⟩
  param _ _ _ name same := by
    rw [Param.respell, eq_of_name_bare hf name, map_eq_of_optionRel (fun _ _ ↦ id) same]
  declarator name bounds type := by
    rw [Declarator.respell, eq_of_name_bare hf name,
      map_eq_of_optionRel (fun _ _ ↦ map_eq_of_forall₂) bounds,
      map_eq_of_optionRel (fun _ _ ↦ id) type]
  forLoop name start stop step body closing := by
    rw [Stmt.respell, eq_of_name_bare hf name, start, stop,
      map_eq_of_optionRel (fun _ _ ↦ id) step, map_eq_of_forall₂ body,
      map_eq_of_optionRel (g := f) (fun _ _ ↦ eq_of_name_bare hf) closing]
  ifThen same body := by
    rw [Stmt.respell, same, map_eq_of_forall₂ body, Alternative.respell]
  ifElse same body other := by
    rw [Stmt.respell, same, map_eq_of_forall₂ body, Alternative.respell, map_eq_of_forall₂ other]
  ifElseIf same body next := by
    rw [Stmt.respell] at next
    obtain ⟨rfl, rfl, rfl⟩ := Stmt.ifThen.inj next
    rw [Stmt.respell, same, map_eq_of_forall₂ body, Alternative.respell]
  doWhile same body := by rw [Stmt.respell, same, map_eq_of_forall₂ body]
  procedure _ _ _ _ _ _ _ name params body := by
    rw [Stmt.respell, eq_of_name_bare hf name, map_eq_of_forall₂ params, map_eq_of_forall₂ body]
  dim same _ := by rw [Stmt.respell, map_eq_of_forall₂ same]
  const name same := by rw [Stmt.respell, eq_of_name_bare hf name, same]
  set same same' := by rw [Stmt.respell, same, same']
  assign same _ same' := by rw [Stmt.respell, same, same']
  goTo {t} _ hk := by
    have other : t.kind ≠ .text :=
      hk.elim (·.trans_ne Kind.noConfusion) (·.trans_ne Kind.noConfusion)
    rw [Stmt.respell, ErrorPolicy.respell]
    exact congrArg (Stmt.onError ∘ ErrorPolicy.goTo) (Token.text_bare_of_ne other).symm
  resumeNext := by rw [Stmt.respell, ErrorPolicy.respell]
  exit _ := by rw [Stmt.respell]
  erase same _ := by
    rw [Stmt.respell, map_eq_of_forall₂ (same.imp fun _ _ ↦ eq_of_name_bare hf)]
  reDim name _ same := by rw [Stmt.respell, eq_of_name_bare hf name, map_eq_of_forall₂ same]
  explicit := by rw [Stmt.respell, OptionSetting.respell]
  base _ := by rw [Stmt.respell, OptionSetting.respell]
  compare name := by rw [Stmt.respell, OptionSetting.respell, eq_of_name_bare hf name]
  label name := by rw [Stmt.respell, eq_of_name_bare hf name]
  callStmt same := by rw [Stmt.respell, Expr.respell_asCall, same]

/-! ## Whole token lists -/

variable {hf} {α : Type} {g : α → α} {k : Nat} {moves : Prop} {p : Parser α} {ts us : List Token}

/-- On two token lists that are the same when bare, a parser ends at the same place in the same
way. -/
theorem Follows.ended (hp : (bare hf).Follows k Token.Any moves (fun a b ↦ g a = b) p p)
    (hts : ∀ t ∈ ts, t.NumberKept f) (hus : ∀ t ∈ us, t.NumberKept f)
    (same : ts.map (Token.bare f) = us.map (Token.bare f)) :
    Ended (fun c d ↦ c.bare f = d.bare f ∧ c.Along (.ofTokens ts) ∧ d.Along (.ofTokens us)) Eq
      (fun a b ↦ g a = g b) (p (.ofTokens ts)) (p (.ofTokens us)) := by
  have eof (ts : List Token) : (Cursor.ofTokens ts).eof.bare f = ⟨.eof, f "", 0, 0, 0⟩ := by
    unfold Cursor.ofTokens
    cases ts.getLast? with
    | none => rfl
    | some last => rfl
  have run {ts : List Token} (h : ∀ t ∈ ts, t.NumberKept f) :=
    (hp ⟨Cursor.kind_eof_ofTokens ts, fun t ht _ ↦ h t ht⟩ trivial False.elim).ended trivial
      fun _ _ ↦ Iff.rfl
  have start : (Cursor.ofTokens ts).bare f = (Cursor.ofTokens us).bare f := by
    unfold Cursor.bare
    rw [eof ts, eof us]
    exact congrArg (Cursor.mk · _) same
  have left := run hts
  have right := run hus
  rw [start] at left
  generalize p (.ofTokens ts) = x at left ⊢
  generalize p (.ofTokens us) = y at right ⊢
  generalize p _ = z at left right
  cases left with
  | ok result state =>
    cases right with
    | ok result' state' =>
      exact .ok (result.trans result'.symm) ⟨state.1.symm.trans state'.1, state.2, state'.2⟩
  | error error state =>
    cases right with
    | error error' state' =>
      exact .error (error.trans error'.symm) ⟨state.1.symm.trans state'.1, state.2, state'.2⟩

/-- What a token list spells does not depend on the places of the tokens. -/
theorem Follows.run_eq_ok
    (hp : (bare Text.folding_id).Follows k Token.Any moves (fun a b ↦ g a = b) p p)
    (hg : ∀ a, g a = a) (same : ts.map (Token.bare id) = us.map (Token.bare id)) {a : α}
    (h : p.run ts = .ok a) : p.run us = .ok a := by
  have ended := hp.ended (fun _ _ _ ↦ rfl) (fun _ _ _ ↦ rfl) same
  unfold Parser.run at h ⊢
  generalize p (.ofTokens ts) = x at ended h
  generalize p (.ofTokens us) = y at ended ⊢
  cases ended with
  | ok result state =>
    rw [hg, hg] at result
    rw [← result]
    exact h
  | error => cases h

variable (hf) in
theorem follows_program_bare (fuel : Nat) :
    (bare hf).Follows fuel Token.Any False (fun p q ↦ p.map (Stmt.respell f) = q)
      (Parser.program fuel) (Parser.program fuel) :=
  (follows_program (Trees.respell hf) trivial (.same fuel)).imp id fun _ _ ↦ map_eq_of_forall₂

end Comparison

end MiniBasic
