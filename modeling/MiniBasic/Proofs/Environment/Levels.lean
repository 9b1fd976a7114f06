import MiniBasic.Proofs.Machine.CallFree

/-!
# Levels of scopes

A name may be bound at several levels at once: among the globals, and in each of the frames. What is
said here of an environment is said level by level: which binding of a name is seen, which one a
write changes, and which levels come and go when frames are pushed and popped. All bindings that are
not mentioned stay as they are.
-/

namespace MiniBasic.Environment

/-- A level of an environment: the globals, or a frame. The frame of the outermost call has number
zero. -/
inductive Level where
  | globals
  | frame (i : Nat)
  deriving DecidableEq

/-- The innermost level if there are so many frames. -/
def Level.innermost : Nat → Level
  | 0 => globals
  | i + 1 => frame i

/-- What a level binds a name to. A frame that is not on the stack binds nothing. -/
def boundAt? (env : Environment) (n : String) : Level → Option Value
  | .globals => env.globals.get? n
  | .frame i => env.frames.reverse[i]?.bind (·.get? n)

/-- The level at which names are declared. -/
def innermost (env : Environment) : Level :=
  .innermost env.frames.length

/-- The binding of a name that is seen: the one of the innermost frame, or else the global one. -/
def visible? (env : Environment) (n : String) : Option Value :=
  (env.boundAt? n env.innermost).or (env.boundAt? n .globals)

/-- The level at which a name is assigned: the innermost frame if it binds the name, or else the
globals if they do. A name that neither binds is declared. -/
def owner (env : Environment) (n : String) : Level :=
  if (env.boundAt? n env.innermost).isSome then env.innermost
  else if (env.boundAt? n .globals).isSome then .globals
  else env.innermost

/-- A value put under a name at one level. -/
structure Write where
  level : Level
  name : String
  value : Value

/-- What a write puts under a name at a level. -/
def Write.value? (w : Write) (n : String) (l : Level) : Option Value :=
  if w.level = l ∧ Text.foldCase w.name = Text.foldCase n then some w.value else none

/-- `env'` differs from `env` in one binding at one level. -/
structure Wrote (env : Environment) (w : Write) (env' : Environment) : Prop where
  depth : env'.frames.length = env.frames.length
  bound (n : String) (l : Level) : env'.boundAt? n l = (w.value? n l).or (env.boundAt? n l)
  procedures : env'.procedures = env.procedures

/-! ## The stack -/

theorem boundAt?_push (env : Environment) (frame : Scope) (n : String) (l : Level) :
    (env.push frame).boundAt? n l =
      if l = .frame env.frames.length then frame.get? n else env.boundAt? n l := by
  cases l with
  | globals => rfl
  | frame i =>
    simp only [boundAt?, push, List.reverse_cons, Level.frame.injEq]
    rw [← List.length_reverse]
    by_cases last : i = env.frames.reverse.length
    · rw [if_pos last, last, List.getElem?_concat_length]
      rfl
    · rw [if_neg last]
      rcases Nat.lt_or_gt_of_ne last with lt | gt
      · rw [List.getElem?_append_left lt]
      · have outside : (env.frames.reverse ++ [frame]).length ≤ i := by
          rw [List.length_append]
          exact gt
        rw [List.getElem?_eq_none (Nat.le_of_lt gt), List.getElem?_eq_none outside]

/-- A frame beyond the innermost one binds nothing. -/
theorem boundAt?_of_le {env : Environment} {i : Nat} (h : env.frames.length ≤ i) (n : String) :
    env.boundAt? n (.frame i) = none := by
  rw [boundAt?, List.getElem?_eq_none (by rwa [List.length_reverse])]
  rfl

/-- There is no frame, or there is an innermost one, which stands on the others. -/
theorem frames_cases (env : Environment) :
    env.frames = [] ∨ ∃ outer frame, env = push outer frame := by
  obtain ⟨globals, frames, procedures⟩ := env
  cases frames with
  | nil => exact .inl rfl
  | cons frame frames => exact .inr ⟨⟨globals, frames, procedures⟩, frame, rfl⟩

theorem innermost_of_nil {env : Environment} (h : env.frames = []) : env.innermost = .globals := by
  rw [innermost, h]
  rfl

theorem boundAt?_push_innermost (env : Environment) (frame : Scope) (n : String) :
    (env.push frame).boundAt? n (env.push frame).innermost = frame.get? n :=
  (env.boundAt?_push frame n _).trans (if_pos rfl)

theorem pop_of_nil {env : Environment} (h : env.frames = []) : env.pop = (.empty, env) := by
  obtain ⟨globals, frames, procedures⟩ := env
  cases h
  rfl

/-- Popping gives the innermost frame, with all its bindings. -/
theorem get?_pop (env : Environment) (n : String) :
    env.pop.1.get? n = env.boundAt? n (.frame (env.frames.length - 1)) := by
  rcases env.frames_cases with none | ⟨outer, frame, rfl⟩
  · rw [pop_of_nil none, boundAt?_of_le (by rw [none]; exact Nat.zero_le _)]
    exact Scope.get?_empty n
  · exact (outer.boundAt?_push_innermost frame n).symm

theorem boundAt?_pop (env : Environment) (n : String) (l : Level) :
    env.pop.2.boundAt? n l = if l = .frame (env.frames.length - 1) then none
      else env.boundAt? n l := by
  rcases env.frames_cases with none | ⟨outer, frame, rfl⟩
  · rw [pop_of_nil none]
    split
    next first =>
      rw [first]
      exact boundAt?_of_le (by rw [none]; exact Nat.zero_le _) n
    next => rfl
  · change outer.boundAt? n l = if l = .frame outer.frames.length then none else _
    rw [outer.boundAt?_push]
    split
    next last =>
      rw [last]
      exact boundAt?_of_le (Nat.le_refl _) n
    next => rfl

/-! ## Lookups -/

theorem get?_eq_visible? (env : Environment) (n : String) : env.get? n = env.visible? n := by
  rw [visible?]
  rcases env.frames_cases with none | ⟨outer, frame, rfl⟩
  · rw [innermost_of_nil none, get?, none]
    exact Option.or_self.symm
  · rw [boundAt?_push_innermost]
    rfl

theorem get?_getOrDeclare (env : Environment) (m n : String) :
    (env.getOrDeclare m).2.get? n =
      if Text.foldCase m = Text.foldCase n then some (env.getOrDeclare m).1 else env.get? n := by
  cases bound : env.get? m with
  | some v =>
    rw [getOrDeclare_of_some bound]
    split
    next same => rw [← get?_sameName same, bound]
    next => rfl
  | none =>
    rw [getOrDeclare_of_none bound]
    exact env.get?_declare m n _

/-! ## Writes -/

theorem wrote_defineGlobal (env : Environment) (n : String) (v : Value) :
    env.Wrote ⟨.globals, n, v⟩ (env.defineGlobal n v) where
  depth := rfl
  procedures := rfl
  bound m l := by
    cases l with
    | frame i => rfl
    | globals =>
      change (env.globals.set n v).get? m = _
      rw [Scope.get?_set, Write.value?]
      by_cases same : Text.foldCase n = Text.foldCase m
      · rw [if_pos same, if_pos ⟨rfl, same⟩, Option.some_or]
      · rw [if_neg same, if_neg (same ·.2), Option.none_or]
        rfl

/-- Setting a variable of the innermost frame. -/
theorem wrote_push_set (env : Environment) (frame : Scope) (n : String) (v : Value) :
    (env.push frame).Wrote ⟨(env.push frame).innermost, n, v⟩ (env.push (frame.set n v)) where
  depth := rfl
  procedures := rfl
  bound m l := by
    change _ = (Write.value? ⟨.frame env.frames.length, n, v⟩ m l).or _
    rw [boundAt?_push, boundAt?_push, Scope.get?_set, Write.value?]
    by_cases here : l = .frame env.frames.length
    · subst here
      by_cases same : Text.foldCase n = Text.foldCase m
      · rw [if_pos rfl, if_pos same, if_pos ⟨rfl, same⟩, Option.some_or]
      · rw [if_pos rfl, if_neg same, if_neg (same ·.2), Option.none_or, if_pos rfl]
    · rw [if_neg here, if_neg (here ·.1.symm), Option.none_or, if_neg here]

/-- With no frame, all writes are global. -/
theorem declare_of_nil {env : Environment} (h : env.frames = []) (n : String) (v : Value) :
    env.declare n v = env.defineGlobal n v := by
  rw [declare, h]

theorem wrote_declare (env : Environment) (n : String) (v : Value) :
    env.Wrote ⟨env.innermost, n, v⟩ (env.declare n v) := by
  rcases env.frames_cases with none | ⟨outer, frame, rfl⟩
  · rw [innermost_of_nil none, declare_of_nil none]
    exact env.wrote_defineGlobal n v
  · exact outer.wrote_push_set frame n v

theorem wrote_assign (env : Environment) (n : String) (v : Value) :
    env.Wrote ⟨env.owner n, n, v⟩ (env.assign n v) := by
  rw [owner, assign, any_contains_eq_isSome_local?, Scope.contains_eq_isSome]
  rcases env.frames_cases with none | ⟨outer, frame, rfl⟩
  · rw [innermost_of_nil none, declare_of_nil none, ite_self, ite_self, ite_self, ite_self]
    exact env.wrote_defineGlobal n v
  · rw [boundAt?_push_innermost]
    change Wrote _
      ⟨if (frame.get? n).isSome then _ else if (outer.globals.get? n).isSome then _ else _, n, v⟩
      (if (frame.get? n).isSome then _ else if (outer.globals.get? n).isSome then _ else _)
    split
    · exact wrote_declare _ n v
    · split
      · exact wrote_defineGlobal _ n v
      · exact wrote_declare _ n v

end MiniBasic.Environment
