import MiniBasic.Proofs.Grammar.Walk

/-!
# Bounds on nesting do not matter

Every rule of the grammar reads a token before it goes deeper, so a bound above the number of tokens
is never used up: two bounds of that kind lead to the same end, a tree or a complaint, and the
complaint is not about the bound.
-/

namespace MiniBasic

namespace Comparison

variable {α : Type} {k : Nat} {P : Token → Prop} {moves : Prop} {R : α → α → Prop} {p q : Parser α}
  {c c' : Cursor}

/-- The same trees are built from one input. -/
def Trees.self (Good : Token → Prop) (bounded : Prop) : (self Good bounded).Trees :=
  .same fun _ _ ↦ rfl

theorem self_admits {bounded : Prop} (eof : c.eof.kind = .eof) :
    (self Token.Any bounded).Admits c :=
  ⟨eof, fun _ _ _ ↦ trivial⟩

/-- With few tokens to go, two parsers do the same. -/
theorem Follows.run_eq (h : (self Token.Any True).Follows k P moves Eq p q)
    (eof : c.eof.kind = .eof) (next : P c.peek) (length : c.rest.length < k) : p c = q c := by
  have ended := (h (self_admits eof) next fun _ ↦ length).ended trivial fun _ _ ↦ Iff.rfl
  generalize p c = x at ended ⊢
  change Ended _ _ _ x (q c) at ended
  generalize q c = y at ended ⊢
  cases ended with
  | ok result state => rw [result, state.1]
  | error error state => rw [error, state.1]

theorem Follows.along_self (h : (self Token.Any False).Follows k Token.Any moves R p q)
    (eof : c.eof.kind = .eof) {a : α} (run : p c = .ok a c') : c'.Along c :=
  h.along (self_admits eof) trivial False.elim run

end Comparison

namespace Parser

variable {n m : Nat} {c c' : Cursor} (eof : c.eof.kind = .eof)

include eof

theorem expression_along {level : Nat} {e : Expr} (run : expression n level c = .ok e c') :
    c'.Along c :=
  (Comparison.follows_expression (.self _ _) (.same n) level).along_self eof run

/-! Any bounds above the number of tokens will do. -/

theorem expression_eq_of_bound (hn : c.rest.length < n) (hm : c.rest.length < m) (level : Nat) :
    expression n level c = expression m level c :=
  (Comparison.follows_expression (.self _ _) (.above trivial hn hm) level).run_eq eof trivial
    (Nat.lt_succ_self _)

theorem chain_eq_of_bound (hn : c.rest.length ≤ n) (hm : c.rest.length ≤ m) :
    chain (expression n 1) n c = chain (expression m 1) m c := by
  have fuel : (Comparison.self Token.Any True).Fuel c.rest.length n m := .above trivial hn hm
  have expr := (Comparison.follows_expression (.self _ _) fuel 1).rest
  have chain : (Comparison.self Token.Any True).Follows _ Token.Any False Eq _ _ :=
    Comparison.follows_chain (.self _ _) expr fuel
  exact chain.run_eq eof trivial (Nat.lt_succ_self _)

theorem block_eq_of_bound {i j : Nat} (hn : c.rest.length < n) (hm : c.rest.length < m)
    (hi : c.rest.length < i) (hj : c.rest.length < j) :
    block (statement n) [] i c = block (statement m) [] j c := by
  have stmt := Comparison.follows_statement (.self Token.Any True) (.above trivial hn hm)
  have block : (Comparison.self Token.Any True).Follows _ Token.Any False (List.Forall₂ Eq) _ _ :=
    Comparison.follows_block _ stmt (.above trivial hi hj) trivial []
  exact (block.imp id fun _ _ ↦ Comparison.eq_of_forall₂).run_eq eof trivial (Nat.lt_succ_self _)

end Parser

end MiniBasic
