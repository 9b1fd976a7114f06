import MiniBasic.Proofs.Grammar.Walk
import MiniBasic.Proofs.Print.Printable

/-!
# Parsed trees can be printed

The parts of a tree that parsing makes are texts of tokens. If the tokens are spelled as their kinds
say and their numbers are finite, as those of a source text with finite numbers are, the tree is
`Printable`.
-/

namespace MiniBasic

open Token (Word Spelled)

/-- A token that is spelled as its kind says, and a finite one if it is a number. -/
structure Token.Sound (t : Token) : Prop where
  spelled : t.kind ≠ .unknown → t.kind ≠ .eof → Spelled t.kind t.text
  finite : t.kind = .number → ∀ x ∈ Parser.literal? t.text, x.isFinite = true

namespace Token.Sound

variable {t : Token} (h : t.Sound)

include h

theorem spelledAs {kind : Kind} (hk : t.kind = kind) (known : kind ≠ .unknown)
    (inside : kind ≠ .eof) :
    Spelled kind t.text := by
  subst hk
  exact h.spelled known inside

theorem identifier (hk : t.kind = .identifier) : Spelled .identifier t.text :=
  h.spelledAs hk (by decide) (by decide)

theorem word (hk : t.isWord = true) : Word t.text := by
  rw [Token.isWord] at hk
  cases kind : t.kind with
  | identifier => exact (h.identifier kind).1
  | keyword k => exact (h.spelledAs kind (by simp) (by simp)).1
  | _ =>
    rw [kind] at hk
    cases hk

/-- The number that a literal stands for has no sign. -/
theorem unsigned (hk : t.kind = .number) {x : Float} (hx : Parser.literal? t.text = some x) :
    Number.Unsigned x := by
  obtain ⟨ds, fs, ms, htext, hn, hms⟩ := h.spelledAs hk (by decide) (by decide)
  have value := hn.literal? hms htext
  rw [hx] at value
  obtain rfl := Option.some.inj value
  exact Number.unsigned_of_positive (Number.positive_ofDecimal _ _) (h.finite hk _ hx)

end Token.Sound

theorem TypeName.dotted {name word : String} (hname : TypeName name) (hword : Word word) :
    TypeName (name ++ "." ++ word) := by
  obtain ⟨w, ws, hw, hws, rfl⟩ := hname
  refine ⟨w, ws ++ [word], hw, ?_, by rw [List.foldl_append]; rfl⟩
  exact List.forall_mem_append.mpr ⟨hws, List.forall_mem_singleton.mpr hword⟩

theorem printable_asCall {e : Expr} (h : e.Printable) : (Stmt.call e.asCall).Printable := by
  cases e with
  | call callee args => exact .call h
  | _ => exact .call (.call h nofun)

theorem Parser.openCall?_eq_some {e callee first : Expr} {kind : Kind}
    (h : Parser.openCall? e kind = some (callee, first)) :
    e = .call callee [first] := by
  unfold Parser.openCall? at h
  split at h
  · cases h
    rfl
  · cases h

namespace Comparison

section Relations

variable {α : Type} {P : α → Prop}

theorem forall_of_forall₂ {as bs : List α} (h : List.Forall₂ (fun a b ↦ P a ∧ a = b) as bs) :
    (∀ a ∈ as, P a) ∧ as = bs :=
  ((List.forall₂_and_left as bs).mp h).imp_right eq_of_forall₂

theorem forall_of_optionRel {R : α → α → Prop} (hR : ∀ a b, R a b → P a ∧ a = b) {a b : Option α}
    (h : Option.Rel R a b) : (∀ x ∈ a, P x) ∧ a = b := by
  refine ⟨fun x hx ↦ ?_, eq_of_optionRel (fun _ _ same ↦ (hR _ _ same).2) h⟩
  cases h with
  | none => cases hx
  | some h =>
    cases hx
    exact (hR _ _ h).1

theorem spelled_of_name {a b : String} (h : (self Token.Sound False).Name a b) :
    Spelled .identifier a ∧ a = b := by
  obtain ⟨t, sound, hk, rfl, rfl⟩ := h
  exact ⟨sound.identifier hk, rfl⟩

end Relations

/-- The trees can be printed. -/
def Trees.printable : (Comparison.self Token.Sound False).Trees where
  SameType a b := TypeName a ∧ a = b
  SameExpr a b := a.Printable ∧ a = b
  Root := Expr.Rooted
  SameParam a b := a.Printable ∧ a = b
  SameDeclarator a b := a.Printable ∧ a = b
  SameStmt a b := a.Printable ∧ a = b
  word sound hw := ⟨⟨_, [], sound.word hw, List.forall_mem_nil _, rfl⟩, rfl⟩
  dotted same sound hw := ⟨same.1.dotted (sound.word hw), same.2 ▸ rfl⟩
  number sound hk hx := ⟨.number (sound.unsigned hk hx), rfl⟩
  text sound hk := ⟨.text (sound.spelledAs hk (by decide) (by decide)), rfl⟩
  name sound hk :=
    ⟨.name (hk.imp sound.identifier fun hk ↦ sound.spelledAs hk (by decide) (by decide)), rfl⟩
  new same := ⟨.new same.1, congrArg Expr.new same.2⟩
  unary op _ _ same := ⟨.unary same.1, congrArg (Expr.unary op) same.2⟩
  binary _ _ _ _ _ same same' := ⟨.binary same.1 same'.1, by rw [same.2, same'.2]⟩
  member same sound hw := ⟨.member same.1 (sound.word hw), same.2 ▸ rfl⟩
  call same args := by
    obtain ⟨hargs, rfl⟩ := forall_of_forall₂ args
    exact ⟨.call same.1 hargs, by rw [same.2]⟩
  root_name sound hk := sound.identifier hk
  root_member _ := id
  root_call _ := id
  openCall? {e e'} kind same := by
    rw [← same.2]
    cases hopen : Parser.openCall? e kind with
    | none => exact .none
    | some parts =>
      obtain ⟨callee, first⟩ := parts
      have printable := same.1
      rw [Parser.openCall?_eq_some hopen] at printable
      cases printable with
      | call hcallee hargs =>
        exact .some ⟨⟨hcallee, rfl⟩, hargs first (List.mem_singleton_self _), rfl⟩
  param _ _ _ name same := by
    obtain ⟨hname, rfl⟩ := spelled_of_name name
    obtain ⟨hfallback, rfl⟩ := forall_of_optionRel (fun _ _ ↦ id) same
    exact ⟨⟨hname, hfallback⟩, rfl⟩
  declarator name bounds type := by
    obtain ⟨hname, rfl⟩ := spelled_of_name name
    obtain ⟨hbounds, rfl⟩ := forall_of_optionRel (fun _ _ ↦ forall_of_forall₂) bounds
    obtain ⟨htype, rfl⟩ := forall_of_optionRel (fun _ _ ↦ id) type
    exact ⟨⟨hname, hbounds, htype⟩, rfl⟩
  forLoop name start stop step body closing := by
    obtain ⟨hname, rfl⟩ := spelled_of_name name
    obtain ⟨hstart, rfl⟩ := start
    obtain ⟨hstop, rfl⟩ := stop
    obtain ⟨hstep, rfl⟩ := forall_of_optionRel (fun _ _ ↦ id) step
    obtain ⟨hbody, rfl⟩ := forall_of_forall₂ body
    obtain ⟨hclosing, rfl⟩ := forall_of_optionRel (fun _ _ ↦ spelled_of_name) closing
    exact ⟨.forLoop hname hstart hstop hstep hbody hclosing, rfl⟩
  ifThen same body := by
    obtain ⟨hbody, rfl⟩ := forall_of_forall₂ body
    exact ⟨.ifThen same.1 hbody, by rw [same.2]⟩
  ifElse same body other := by
    obtain ⟨hbody, rfl⟩ := forall_of_forall₂ body
    obtain ⟨hother, rfl⟩ := forall_of_forall₂ other
    exact ⟨.ifElse same.1 hbody hother, by rw [same.2]⟩
  ifElseIf same body next := by
    obtain ⟨hbody, rfl⟩ := forall_of_forall₂ body
    obtain ⟨hnext, parts⟩ := next
    obtain ⟨rfl, rfl, rfl⟩ := Stmt.ifThen.inj parts
    exact ⟨.ifElseIf same.1 hbody hnext, by rw [same.2]⟩
  doWhile same body := by
    obtain ⟨hbody, rfl⟩ := forall_of_forall₂ body
    exact ⟨.doWhile same.1 hbody, by rw [same.2]⟩
  procedure _ _ _ _ _ _ _ name params body := by
    obtain ⟨hname, rfl⟩ := spelled_of_name name
    obtain ⟨hparams, rfl⟩ := forall_of_forall₂ params
    obtain ⟨hbody, rfl⟩ := forall_of_forall₂ body
    exact ⟨.procedure hname hparams hbody, rfl⟩
  dim same nonempty := by
    obtain ⟨hdeclarators, rfl⟩ := forall_of_forall₂ same
    exact ⟨.dim nonempty hdeclarators, rfl⟩
  const name same := by
    obtain ⟨hname, rfl⟩ := spelled_of_name name
    exact ⟨.const hname same.1, by rw [same.2]⟩
  set same same' := ⟨.set same.1 same'.1, by rw [same.2, same'.2]⟩
  assign same root same' := ⟨.assign root same.1 same'.1, by rw [same.2, same'.2]⟩
  goTo sound hk :=
    ⟨.onError (hk.imp sound.identifier fun hk ↦ sound.spelledAs hk (by decide) (by decide)), rfl⟩
  resumeNext := ⟨.onError trivial, rfl⟩
  exit _ := ⟨.exit, rfl⟩
  erase same nonempty := by
    obtain ⟨hnames, rfl⟩ := forall_of_forall₂ (same.imp fun _ _ ↦ spelled_of_name)
    exact ⟨.erase nonempty hnames, rfl⟩
  reDim name other same := by
    obtain ⟨hname, rfl⟩ := spelled_of_name name
    obtain ⟨hbounds, rfl⟩ := forall_of_forall₂ same
    exact ⟨.reDim hname other hbounds, rfl⟩
  explicit := ⟨.option trivial, rfl⟩
  base x := ⟨.option ⟨x, rfl⟩, rfl⟩
  compare name := by
    obtain ⟨hname, rfl⟩ := spelled_of_name name
    exact ⟨.option hname, rfl⟩
  label name := by
    obtain ⟨hname, rfl⟩ := spelled_of_name name
    exact ⟨.label hname, rfl⟩
  callStmt same := ⟨printable_asCall same.1, by rw [same.2]⟩

end Comparison

/-- The statements of a program can be printed if its tokens are sound. -/
theorem printable_of_parse {tokens : List Token} (htokens : ∀ t ∈ tokens, t.Sound) {p : Program}
    (h : parse tokens = .ok p) : ∀ s ∈ p, s.Printable := by
  have follows := Comparison.follows_program .printable trivial
    (.same (Parser.nestingBound tokens))
  unfold parse Parser.run at h
  dsimp only at h
  cases follows ⟨Cursor.kind_eof_ofTokens tokens, fun t ht _ ↦ htokens t ht⟩ trivial False.elim with
  | ok _ _ _ _ result left =>
    unfold Parser.program at left
    rw [left] at h
    cases h
    exact (Comparison.forall_of_forall₂ result).1
  | error _ _ _ _ _ left =>
    unfold Parser.program at left
    rw [left] at h
    cases h

end MiniBasic
