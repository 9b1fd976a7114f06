import MiniBasic.Proofs.Grammar.Walk

/-!
# Input that goes on

A rule of the grammar that has read its tokens up to the end of the input reads the same tokens
where the input goes on with another line. Two cursors are compared, `Cursor.Before e c d`: the
input of `c` ends where that of `d` goes on at `e`, and a line end is seen there. Where a statement
is read at `c`, it is read at `d`, and what is ahead of both cursors is the same again. Only the
statements of a block may lie on both sides of the place, which is what `block_before` is about.
-/

namespace MiniBasic

namespace Cursor

variable {e c d : Cursor}

/-- The tokens ahead are the same up to the end of the first input. The second one goes on at
`e`. -/
inductive Before (e : Cursor) : Cursor → Cursor → Prop
  | last (stop eof : Token) (hstop : stop.kind = .eof) (heof : eof.kind = .eof) :
    Before e ⟨[stop], eof⟩ e
  | next {rest rest' : List Token} {eof eof' : Token} (t : Token) (inside : t.Inside)
      (behind : Before e ⟨rest, eof⟩ ⟨rest', eof'⟩) : Before e ⟨t :: rest, eof⟩ ⟨t :: rest', eof'⟩

theorem Before.kind_eof (h : Before e c d) : c.eof.kind = .eof := by
  induction h with
  | last stop eof hstop heof => exact heof
  | next t inside behind ih => exact ih

theorem Before.peek_eq (h : Before e c d) (inside : c.peek.Inside) : d.peek = c.peek := by
  cases h with
  | last stop eof hstop => exact absurd hstop inside
  | next => rfl

theorem Before.eq_of_end (h : Before e c d) (atEnd : c.peek.kind = .eof) : d = e := by
  cases h with
  | last => rfl
  | next t inside => exact absurd atEnd inside

theorem Before.advance (h : Before e c d) (inside : c.peek.Inside) :
    Before e c.advance d.advance := by
  cases h with
  | last stop eof hstop => exact absurd hstop inside
  | next t inside behind => exact behind

theorem Before.exists_of_cons {t : Token} {rest : List Token} {eof : Token}
    (h : Before e ⟨t :: rest, eof⟩ d) (inside : t.Inside) :
    ∃ d', Before e ⟨rest, eof⟩ d' ∧ d = d'.rewind [t] := by
  cases h with
  | last stop eof hstop => exact absurd hstop inside
  | next t inside behind => exact ⟨_, behind, rfl⟩

/-- Tokens that do not end the first input are ahead of both cursors. -/
theorem Before.exists_of_rewind {passed : List Token} (h : Before e (c.rewind passed) d)
    (inside : ∀ t ∈ passed, t.Inside) : ∃ d', Before e c d' ∧ d = d'.rewind passed := by
  induction passed generalizing d with
  | nil => exact ⟨d, h, rfl⟩
  | cons t passed ih =>
    obtain ⟨here, behind⟩ := List.forall_mem_cons.mp inside
    obtain ⟨d₁, h₁, rfl⟩ := h.exists_of_cons here
    obtain ⟨d', h', rfl⟩ := ih h₁ behind
    exact ⟨d', h', rfl⟩

/-- The cursor may leave the first input only if what comes next can be skipped. -/
theorem Before.skip (h : Before e c d) (skipped : Token → Bool)
    (hskipped : ∀ t : Token, t.kind = .eof → skipped t = false) :
    (c.skip skipped).peek.Inside ∧ Before e (c.skip skipped) (d.skip skipped) ∨
      (c.skip skipped).peek.kind = .eof ∧ d.skip skipped = e.skip skipped := by
  induction h with
  | last stop eof hstop =>
    have stays : Cursor.skip skipped ⟨[stop], eof⟩ = ⟨[stop], eof⟩ := by
      unfold Cursor.skip
      rw [List.dropWhile_cons_of_neg (Bool.not_eq_true _ ▸ hskipped stop hstop)]
    rw [stays]
    exact .inr ⟨hstop, rfl⟩
  | next t inside behind ih =>
    unfold Cursor.skip at ih ⊢
    by_cases ht : skipped t = true
    · rw [List.dropWhile_cons_of_pos ht, List.dropWhile_cons_of_pos ht]
      exact ih
    · rw [List.dropWhile_cons_of_neg ht, List.dropWhile_cons_of_neg ht]
      exact .inl ⟨inside, .next t inside behind⟩

end Cursor

/-- The second input goes on at `e` where the first one ends. -/
def Comparison.extended (e : Cursor) (line : e.peek.kind = .newline) : Comparison where
  see t := if t.kind = .eof then e.peek else t
  Good _ := True
  View := Cursor.Before e
  faithful := False
  bounded := False
  kind_see inside := by rw [if_neg inside]
  kind_see_of_eof atEnd := .inr ⟨id, by rw [if_pos atEnd, line]⟩
  sameWord_see _ _ hk := by rw [if_neg (hk.trans_ne Kind.noConfusion)]
  literal?_see _ hk := by rw [if_neg (hk.trans_ne Kind.noConfusion)]
  next {c d} h := by
    by_cases hk : c.peek.kind = .eof
    · rw [if_pos hk, h.eq_of_end hk]
    · rw [if_neg hk, h.peek_eq hk]
  second {c d} h inside := by
    have behind := h.advance inside
    change d.advance.peek = if c.advance.peek.kind = .eof then e.peek else c.advance.peek
    by_cases hk : c.advance.peek.kind = .eof
    · rw [if_pos hk, behind.eq_of_end hk]
    · rw [if_neg hk, behind.peek_eq hk]
  rewind h inside := by
    rw [if_neg inside]
    exact .next _ inside h

namespace Parser

open Cursor (Before)

variable {e c d c' : Cursor}

/-- Where a statement is read, it is read on an input that goes on. -/
theorem statement_before (h : Before e c d) (line : e.peek.kind = .newline) {fuel : Nat} {s : Stmt}
    (hr : statement fuel c = .ok s c') : ∃ d', statement fuel d = .ok s d' ∧ Before e c' d' := by
  have unchanged (t : Token) (inside : t.Inside) : (Comparison.extended e line).see t = t :=
    if_neg inside
  have follows := Comparison.follows_statement (.same unchanged) (.same fuel)
    ⟨h.kind_eof, fun _ _ _ ↦ trivial⟩ trivial False.elim
  cases follows with
  | error _ _ _ _ _ left => cases left.symm.trans hr
  | ok passed split inside _ result left right =>
    cases left.symm.trans hr
    cases result
    rw [split] at h
    obtain ⟨d', h', rfl⟩ := h.exists_of_rewind inside
    refine ⟨d', ?_, h'⟩
    have run := right d' h'
    rwa [List.map_congr_left fun t ht ↦ unchanged t (inside t ht), List.map_id'] at run

theorem block_succ (stmt : Parser Stmt) (closing : List Keyword) (fuel : Nat) (c : Cursor) :
    block stmt closing (fuel + 1) c =
      (if (c.skip isSeparator).peek.kind == .eof ||
          closing.any ((c.skip isSeparator).peek.kind == .keyword ·) then
        return []
      else do
        let first ← stmt
        return first :: (← block stmt closing fuel) : Parser (List Stmt)) (c.skip isSeparator) :=
  rfl

/-- The statements of an input that goes on are read as far as the first input reaches. Then those
behind are read. -/
theorem block_before (h : Before e c d) (line : e.peek.kind = .newline) {n fuel : Nat}
    {body : List Stmt} (hr : block (statement n) [] fuel c = .ok body c') :
    block (statement n) [] fuel d =
      (do return body ++ (← block (statement n) [] (fuel - body.length))) e := by
  induction fuel generalizing c d body with
  | zero => cases hr
  | succ fuel ih =>
    have kept (t : Token) (ht : t.kind = .eof) : isSeparator t = false := by
      rw [isSeparator, ht]
      rfl
    rw [block_succ] at hr
    rcases h.skip isSeparator kept with ⟨inside, ahead⟩ | ⟨atEnd, there⟩
    · have opened : ¬((c.skip isSeparator).peek.kind == .eof || false) = true := by
        rw [Bool.or_false, beq_iff_eq]
        exact inside
      rw [List.any_nil, if_neg opened] at hr
      obtain ⟨first, c₁, left, right⟩ := exists_of_bind_eq_ok hr
      obtain ⟨rest, c₂, left', ⟨⟩⟩ := exists_of_bind_eq_ok right
      obtain ⟨d₁, moved, h₁⟩ := statement_before ahead line left
      have goesOn := ih h₁ left'
      rw [block_succ, ahead.peek_eq inside, List.any_nil, if_neg opened, bind_ok moved,
        List.length_cons, Nat.add_sub_add_right]
      cases hb : block (statement n) [] (fuel - rest.length) e with
      | ok more e' =>
        rw [bind_ok hb] at goesOn ⊢
        rw [bind_ok goesOn]
        rfl
      | error complaint e' =>
        rw [bind_error hb] at goesOn ⊢
        rw [bind_error goesOn]
    · rw [if_pos (by simp [atEnd])] at hr
      cases hr
      rw [block_succ, there, ← block_succ]
      exact (congrFun (bind_pure _) e).symm

end Parser

end MiniBasic
