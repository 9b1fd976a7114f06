import MiniBasic.Proofs.Control.Bindings

/-!
# What a call gives back

A variable that is passed by reference gets the final value of its parameter when the call has
ended, and of two parameters that it is passed for, the value of the last one. All other variables
of the caller are as they were before the body, and the globals are as the body has left them. A
body that fails gives nothing back.
-/

namespace MiniBasic

namespace Environment

/-- A variable of the innermost call. -/
def local? (env : Environment) (name : String) : Option Value :=
  env.frames.head?.bind (·.get? name)

/-- `env'` differs from `env` in the value of one variable only. A global that a local variable
hides is not touched. -/
structure Updated (env : Environment) (n : String) (w : Value) (env' : Environment) : Prop where
  get? (v : String) : env'.get? v = if Text.foldCase n = Text.foldCase v then some w else env.get? v
  isLocal (v : String) : (env'.local? v).isSome = (env.local? v).isSome
  hidden (v : String) : (env.local? v).isSome → env'.globals.get? v = env.globals.get? v

theorem local?_sameName {n m : String} (env : Environment) (h : Text.foldCase n = Text.foldCase m) :
    env.local? n = env.local? m := by
  rw [local?, local?]
  simp only [Scope.get?_sameName h]

theorem updated_global {env : Environment} {n : String} (h : env.local? n = none) (w : Value) :
    env.Updated n w (env.defineGlobal n w) where
  get? v := by
    change (env.local? v).or ((env.globals.set n w).get? v) = if _ then _ else (env.local? v).or _
    rw [Scope.get?_set]
    split
    next same =>
      rw [← env.local?_sameName same, h, Option.none_or]
    next => rfl
  isLocal v := rfl
  hidden v bound := by
    change (env.globals.set n w).get? v = _
    rw [Scope.get?_set, if_neg]
    intro same
    rw [← env.local?_sameName same, h] at bound
    cases bound

theorem any_contains_eq_isSome_local? (env : Environment) (n : String) :
    env.frames.head?.any (·.contains n) = (env.local? n).isSome := by
  rw [local?]
  cases env.frames.head? with
  | none => rfl
  | some frame => exact frame.contains_eq_isSome n

theorem get?_declare (env : Environment) (n v : String) (w : Value) :
    (env.declare n w).get? v = if Text.foldCase n = Text.foldCase v then some w
      else env.get? v := by
  obtain ⟨globals, frames, procedures⟩ := env
  cases frames with
  | nil => exact globals.get?_set n v w
  | cons frame frames =>
    change ((frame.set n w).get? v).or (globals.get? v) = if _ then _
      else (frame.get? v).or (globals.get? v)
    rw [frame.get?_set]
    split
    · rfl
    · rfl

theorem updated_declare {env : Environment} {n : String} (h : (env.local? n).isSome) (w : Value) :
    env.Updated n w (env.declare n w) := by
  obtain ⟨globals, frames, procedures⟩ := env
  cases frames with
  | nil => cases h
  | cons frame frames =>
    replace h : (frame.get? n).isSome := h
    refine ⟨fun v ↦ get?_declare _ n v w, fun v ↦ ?_, fun v _ ↦ rfl⟩
    change ((frame.set n w).get? v).isSome = (frame.get? v).isSome
    rw [← Scope.contains_eq_isSome] at h
    rw [← Scope.contains_eq_isSome, ← Scope.contains_eq_isSome,
      Scope.contains_set_of_contains_self h]

/-- A variable that is bound is assigned where it is bound. -/
theorem assign_cases {env : Environment} {n : String} (bound : (env.get? n).isSome) (v : Value) :
    (env.local? n).isSome ∧ env.assign n v = env.declare n v ∨
      env.local? n = none ∧ env.assign n v = env.defineGlobal n v := by
  rw [assign, any_contains_eq_isSome_local?]
  cases found : env.local? n with
  | some w => exact .inl ⟨rfl, rfl⟩
  | none =>
    have global : env.globals.contains n := by
      rwa [get?, ← local?, found, Option.none_or, ← Scope.contains_eq_isSome] at bound
    exact .inr ⟨rfl, if_pos global⟩

/-- An assignment to a variable that is bound. -/
theorem updated_assign {env : Environment} {n : String} (h : (env.get? n).isSome) (w : Value) :
    env.Updated n w (env.assign n w) := by
  rcases assign_cases h w with ⟨bound, assigned⟩ | ⟨unbound, assigned⟩
  · rw [assigned]
    exact updated_declare bound w
  · rw [assigned]
    exact updated_global unbound w

theorem get?_assign (env : Environment) (n v : String) (w : Value) :
    (env.assign n w).get? v = if Text.foldCase n = Text.foldCase v then some w else env.get? v := by
  by_cases bound : (env.get? n).isSome
  · exact (updated_assign bound w).get? v
  · have unbound : env.get? n = none := Option.not_isSome_iff_eq_none.mp bound
    obtain ⟨hidden, global⟩ := Option.or_eq_none_iff.mp unbound
    rw [assign, any_contains_eq_isSome_local?, Scope.contains_eq_isSome, local?, hidden, global]
    exact env.get?_declare n v w

theorem get?_assign_self (env : Environment) (n : String) (w : Value) :
    (env.assign n w).get? n = some w :=
  (env.get?_assign n n w).trans (if_pos rfl)

theorem boundIn_innermost {env : Environment} {frame : Scope} {frames : List Scope}
    (h : env.frames = frame :: frames) (n : String) :
    env.boundIn frames.length n = frame.contains n := by
  rw [boundIn, h, List.reverse_cons, ← List.length_reverse, List.getElem?_concat_length]
  rfl

end Environment

namespace Machine

/-! ## Copying back -/

/-- At place `i`, the variable `v` is passed by reference for the parameter `q`. -/
structure Lends (params : List Param) (args : List Expr) (v : String) (i : Nat) (q : Param) :
    Prop where
  param : params[i]? = some q
  byReference : q.byValue = false
  argument : ∃ n, args[i]? = some (.name n) ∧ Text.foldCase n = Text.foldCase v

theorem Lends.succ {p : Param} {ps : List Param} {arg : Expr} {args : List Expr} {v : String}
    {i : Nat} {q : Param} :
    Lends (p :: ps) (arg :: args) v (i + 1) q ↔ Lends ps args v i q := by
  constructor
  · rintro ⟨param, byReference, argument⟩
    exact ⟨param, byReference, argument⟩
  · rintro ⟨param, byReference, argument⟩
    exact ⟨param, byReference, argument⟩

theorem isIntrinsicConstant_sameName {a b : String} (h : Text.foldCase a = Text.foldCase b) :
    isIntrinsicConstant a = isIntrinsicConstant b := by
  rw [isIntrinsicConstant, isIntrinsicConstant, h]

section CopyBack

variable {frame : Scope} {env : Environment}

/-- A copy changes one variable, which is bound and no constant, or nothing. -/
theorem copyBackOne_cases (frame : Scope) (p : Param) (arg : Expr) (env : Environment) :
    copyBackOne frame p arg env = env ∨
      ∃ n w, arg = .name n ∧ p.byValue = false ∧ isIntrinsicConstant n = false ∧
      (env.get? n).isSome ∧
        env.Updated n w (copyBackOne frame p arg env) := by
  unfold copyBackOne
  split
  case h_2 => exact .inl rfl
  case h_1 _ n byReference =>
    split
    case isTrue => exact .inl rfl
    case isFalse free =>
      rw [Bool.or_eq_true, not_or, Bool.not_eq_true, Option.isNone_iff_eq_none, ← ne_eq,
        Option.ne_none_iff_isSome] at free
      cases frame.get? p.name with
      | none => exact .inl rfl
      | some w =>
        exact .inr ⟨n, w, rfl, byReference, free.1, free.2, Environment.updated_assign free.2 w⟩

theorem copyBackOne_lent {p : Param} {n : String} {w : Value} (byReference : p.byValue = false)
    (free : isIntrinsicConstant n = false) (bound : (env.get? n).isSome)
    (hw : frame.get? p.name = some w) :
    env.Updated n w (copyBackOne frame p (.name n) env) := by
  have copies : ¬(isIntrinsicConstant n || (env.get? n).isNone) = true := by
    rw [free, Bool.false_or, Option.isNone_iff_eq_none]
    exact Option.ne_none_iff_isSome.mpr bound
  unfold copyBackOne
  simp only [byReference, if_neg copies, hw]
  exact Environment.updated_assign bound w

/-- A variable that is not passed by reference, a constant and a name that is not bound are as
before. -/
theorem get?_copyBack_of_not_lent {params : List Param} {args : List Expr} {v : String}
    (h : (∀ i q, ¬Lends params args v i q) ∨ isIntrinsicConstant v = true ∨ env.get? v = none) :
    (copyBack frame params args env).get? v = env.get? v := by
  induction params generalizing args env with
  | nil => rfl
  | cons p ps ih =>
    cases args with
    | nil => rfl
    | cons arg args =>
      have first : (copyBackOne frame p arg env).get? v = env.get? v := by
        rcases copyBackOne_cases frame p arg env with same
          | ⟨n, w, rfl, byReference, free, bound, updated⟩
        · rw [same]
        · rw [updated.get?, if_neg]
          intro same
          rcases h with h | h | h
          · exact h 0 p ⟨rfl, byReference, n, rfl, same⟩
          · rw [← isIntrinsicConstant_sameName same, free] at h
            cases h
          · rw [Environment.get?_sameName same, h] at bound
            cases bound
      rw [copyBack, ih, first]
      rw [first]
      exact h.imp_left fun h i q lent ↦ h (i + 1) q (Lends.succ.mpr lent)

/-- The last parameter that a variable is passed for gives it its value. -/
theorem get?_copyBack_of_lent {params : List Param} {args : List Expr} {v : String} {i : Nat}
    {q : Param} (lent : Lends params args v i q) (last : ∀ j r, Lends params args v j r → j ≤ i)
    (free : isIntrinsicConstant v = false) (bound : (env.get? v).isSome) {w : Value}
    (hw : frame.get? q.name = some w) : (copyBack frame params args env).get? v = some w := by
  induction params generalizing args env i with
  | nil => cases lent.param
  | cons p ps ih =>
    obtain ⟨param, byReference, n, argument, same⟩ := id lent
    cases args with
    | nil => cases argument
    | cons arg args =>
      rw [copyBack]
      cases i with
      | zero =>
        obtain rfl := Option.some.inj param
        obtain rfl := Option.some.inj argument
        rw [← isIntrinsicConstant_sameName same] at free
        rw [← Environment.get?_sameName same] at bound
        have updated := copyBackOne_lent byReference free bound hw
        have done : ∀ j r, ¬Lends ps args v j r := by
          intro j r later
          cases last (j + 1) r (Lends.succ.mpr later)
        rw [get?_copyBack_of_not_lent (.inl done), updated.get?, if_pos same]
      | succ i =>
        apply ih (Lends.succ.mp lent)
        · intro j r later
          exact Nat.le_of_succ_le_succ (last (j + 1) r (Lends.succ.mpr later))
        · rcases copyBackOne_cases frame p arg env with kept | ⟨n, w, -, -, -, -, updated⟩
          · rwa [kept]
          · rw [updated.get?]
            split
            · rfl
            · exact bound

/-- Copying back makes no local variable, and does not touch a global that a local variable
hides. -/
theorem copyBack_local? (frame : Scope) (params : List Param) (args : List Expr) (env : Environment)
    (v : String) :
    ((copyBack frame params args env).local? v).isSome = (env.local? v).isSome ∧
      ((env.local? v).isSome → (copyBack frame params args env).globals.get? v =
        env.globals.get? v) := by
  induction params generalizing args env with
  | nil => exact ⟨rfl, fun _ ↦ rfl⟩
  | cons p ps ih =>
    cases args with
    | nil => exact ⟨rfl, fun _ ↦ rfl⟩
    | cons arg args =>
      rw [copyBack]
      obtain ⟨isLocal, hidden⟩ := ih args (copyBackOne frame p arg env)
      rcases copyBackOne_cases frame p arg env with kept | ⟨n, w, -, -, -, -, updated⟩
      · rw [kept] at isLocal hidden ⊢
        exact ⟨isLocal, hidden⟩
      · rw [updated.isLocal] at isLocal hidden
        exact ⟨isLocal, fun bound ↦ (hidden bound).trans (updated.hidden v bound)⟩

end CopyBack

/-! ## The frame of the callee -/

/-- All parameters are bound, and what was bound before them. -/
theorem contains_bindParams {eval : Expr → Machine Value} {params : List Param} {args : List Value}
    {frame frame' : Scope} {s s' : State}
    (h : bindParams eval params args frame s = .ok frame' s') :
    (∀ n, frame.contains n → frame'.contains n) ∧ ∀ q ∈ params, frame'.contains q.name := by
  induction params generalizing args frame s with
  | nil =>
    cases h
    exact ⟨fun _ ↦ id, fun _ h ↦ by cases h⟩
  | cons p ps ih =>
    have step {v : Value} {args : List Value} {t : State}
        (h : bindParams eval ps args (frame.set p.name v) t = .ok frame' s') :
        (∀ n, frame.contains n → frame'.contains n) ∧ ∀ q ∈ p :: ps, frame'.contains q.name := by
      obtain ⟨before, bound⟩ := ih h
      have first : (frame.set p.name v).contains p.name := by
        rw [Scope.contains_set, decide_eq_true rfl, Bool.true_or]
      constructor
      · intro n hn
        exact before n (Scope.contains_set_of_contains hn _ _)
      · exact List.forall_mem_cons.mpr ⟨before _ first, bound⟩
    cases args with
    | cons v vs => exact step h
    | nil =>
      rw [bindParams] at h
      cases hp : p.fallback with
      | none =>
        rw [hp] at h
        exact step h
      | some e =>
        rw [hp] at h
        obtain ⟨v, t, -, h⟩ := exists_of_bind_eq_ok h
        exact step h

theorem contains_openFrame {eval : Expr → Machine Value} {p : Procedure} {args : List Value}
    {frame : Scope} {s s' : State} (h : openFrame eval p args s = .ok frame s') :
    ∀ q ∈ p.params, frame.contains q.name := by
  obtain ⟨bound, t, hbound, h⟩ := exists_of_bind_eq_ok h
  intro q hq
  have contained := (contains_bindParams hbound).2 q hq
  cases kind : p.kind with
  | function =>
    rw [kind] at h
    cases h
    exact Scope.contains_set_of_contains contained _ _
  | sub =>
    rw [kind] at h
    cases h
    exact contained

/-- At the end of a body its frame is on the stack of the caller, and what was bound in it is
bound. -/
theorem exists_final_frame (fuel : Nat) (body : List Stmt) (s : State) (frame : Scope) :
    let s' := (execAll (exec fuel) body).final { s with env := s.env.push frame }
    ∃ final, s'.env.frames = final :: s.env.frames ∧ ∀ n, frame.contains n → final.contains n := by
  intro s'
  have kept : State.KeepsFrames _ s' := State.guarantee_keepsFrames.execAll fuel body _
  obtain ⟨-, names⟩ : State.KeepsAllBindings _ s' :=
    State.guarantee_keepsAllBindings.execAll fuel body _
  obtain ⟨final, frames⟩ : ∃ final, s'.env.frames = final :: s.env.frames := by
    have depth := kept.depth
    have callers := kept.callers
    cases hf : s'.env.frames with
    | nil =>
      rw [hf] at depth
      cases depth
    | cons final rest =>
      rw [hf] at callers
      exact ⟨final, congrArg (final :: ·) callers⟩
  refine ⟨final, frames, ?_⟩
  intro n hn
  have started : (s.env.push frame).boundIn s.env.frames.length n := by
    rwa [Environment.boundIn_innermost rfl]
  have ended := names.frames s.env.frames.length (Nat.lt_succ_self _) n started
  rwa [Environment.boundIn_innermost frames] at ended

/-! ## Calls -/

/-- The run comes to its end, or an exit leaves it. -/
inductive Finishes (m : Machine Unit) (s : State) : Option ExitTarget → State → Prop
  | normally {s' : State} (h : m s = .ok () s') : Finishes m s none s'
  | left {t : ExitTarget} {s' : State} (h : m s = .error (.exit t) s') : Finishes m s (some t) s'

/-- What the caller sees of a variable when the body of its callee has ended: its own variable as it
was `before` the body, or the global variable as it is `after` the body. -/
def seenBehind (before after : State) (v : String) : Option Value :=
  (before.env.local? v).or (after.env.globals.get? v)

/-- `s'` is how a call leaves its caller, if the body began behind `before` and ended in `after`,
with `final` for its frame. -/
structure CopiesOut (params : List Param) (args : List Expr) (final : Scope)
    (before after s' : State) : Prop where
  copied {v : String} {i : Nat} {q : Param} : Lends params args v i q →
    (∀ j r, Lends params args v j r → j ≤ i) → isIntrinsicConstant v = false →
    (seenBehind before after v).isSome → ∃ w, final.get? q.name = some w ∧ s'.env.get? v = some w
  kept {v : String} : ((∀ i q, ¬Lends params args v i q) ∨ isIntrinsicConstant v = true ∨
    seenBehind before after v = none) → s'.env.get? v = seenBehind before after v
  isLocal (v : String) : (s'.env.local? v).isSome = (before.env.local? v).isSome
  hidden (v : String) : (before.env.local? v).isSome →
    s'.env.globals.get? v = after.env.globals.get? v
  callers : s'.env.frames.tail = before.env.frames.tail
  procedures : s'.env.procedures = after.env.procedures
  others : s' = { after with env := s'.env }

theorem copiesOut_copyBack {params : List Param} {args : List Expr} {final : Scope}
    {before after : State} (frames : after.env.frames = final :: before.env.frames)
    (bound : ∀ q ∈ params, final.contains q.name) :
    CopiesOut params args final before after
      { after with env := copyBack final params args after.env.pop.2 } := by
  have seen (v : String) : after.env.pop.2.get? v = seenBehind before after v := by
    change (after.env.frames.tail.head?.bind _).or _ = _
    rw [frames]
    rfl
  have isLocal (v : String) : after.env.pop.2.local? v = before.env.local? v := by
    change after.env.frames.tail.head?.bind _ = _
    rw [frames]
    rfl
  constructor
  case copied =>
    intro v i q lent last free visible
    have mem : q ∈ params := List.mem_of_getElem? lent.param
    obtain ⟨w, hw⟩ : ∃ w, final.get? q.name = some w := by
      rw [← Option.isSome_iff_exists, ← Scope.contains_eq_isSome]
      exact bound q mem
    rw [← seen] at visible
    exact ⟨w, hw, get?_copyBack_of_lent lent last free visible hw⟩
  case kept =>
    intro v h
    rw [← seen] at h ⊢
    exact get?_copyBack_of_not_lent h
  case isLocal =>
    intro v
    rw [← isLocal]
    exact (copyBack_local? final params args _ v).1
  case hidden =>
    intro v h
    rw [← isLocal] at h
    exact (copyBack_local? final params args _ v).2 h
  case callers =>
    have tail : after.env.pop.2.frames.tail = before.env.frames.tail := by
      change after.env.frames.tail.tail = _
      rw [frames]
      rfl
    exact Environment.copyBack_induction (P := fun env ↦ env.frames.tail = before.env.frames.tail)
      (fun env n v h ↦ (env.assign_frames n v).2.trans h) final params args tail
  case procedures => exact Environment.copyBack_procedures final params args _
  case others => rfl

theorem Finishes.inFrame {body : Machine Unit} {frame : Scope} {s s' : State}
    {left : Option ExitTarget} (h : Finishes body { s with env := s.env.push frame } left s') :
    Machine.inFrame frame body s = .ok (s'.env.pop.1, left) { s' with env := s'.env.pop.2 } := by
  unfold Machine.inFrame
  cases h with
  | normally h => rw [h]
  | left h => rw [h]

theorem Finishes.final {m : Machine Unit} {s s' : State} {left : Option ExitTarget}
    (h : Finishes m s left s') :
    m.final s = s' := by
  unfold Machine.final
  cases h with
  | normally h => rw [h]
  | left h => rw [h]

theorem final_of_error {m : Machine Unit} {s s' : State} {i : Interrupt} (h : m s = .error i s') :
    m.final s = s' := by
  rw [Machine.final, h]

/-- The expression calls the procedure with these arguments: by call syntax, or by the name alone if
no variable has it. -/
inductive Calls (s : State) (p : Procedure) : Expr → List Expr → Prop
  | call {n : String} (declared : s.env.procedure? n = some p) (args : List Expr) :
    Calls s p (.call (.name n) args) args
  | name {n : String} (free : s.env.get? n = none) (declared : s.env.procedure? n = some p) :
    Calls s p (.name n) []

theorem Calls.eval_eq {s : State} {p : Procedure} {e : Expr} {args : List Expr}
    (h : Calls s p e args) (fuel : Nat) :
    eval (fuel + 1) e s = invoke (eval fuel) (exec fuel) p args s := by
  have looked : (get : Machine State) s = .ok s s := rfl
  cases h with
  | call declared =>
    rw [eval, evalExpr, evalCall, bind_ok looked]
    simp only [declared]
  | name free declared =>
    rw [eval, evalExpr, evalName, bind_ok looked]
    simp only [free, declared]

/-- A call gives back what was passed by reference, and nothing else. Behind its arguments and
fallbacks the caller is in `s₂`. If the body comes to its end or an exit leaves it, then the
caller's variables are as `CopiesOut` says, whether the call answers the exit or hands it on. If the
body fails, nothing is copied: the caller has the frames that it had before the body, and all else
is as the body has left it. -/
theorem call_copiesOut {fuel : Nat} {p : Procedure} {e : Expr} {args : List Expr} {s s₁ s₂ : State}
    {values : List Value} {frame : Scope} (called : Calls s p e args)
    (evaluated : evalAll (eval fuel) args s = .ok values s₁)
    (opened : openFrame (eval fuel) p values s₁ = .ok frame s₂) :
    let body := execAll (exec fuel) p.body
    let start := { s₂ with env := s₂.env.push frame }
    (∀ left s₃, Finishes body start left s₃ →
        ∃ final s', s₃.env.frames = final :: s₂.env.frames ∧
          eval (fuel + 1) e s = finishCall p final (left.filter (· ≠ p.kind.exitTarget)) s' ∧
          CopiesOut p.params args final s₂ s₃ s') ∧
      ∀ e' s₃, body start = .error (.error e') s₃ →
        eval (fuel + 1) e s =
          .error (.error e') { s₃ with env := { s₃.env with frames := s₂.env.frames } } := by
  intro body start
  obtain ⟨final, frames, names⟩ := exists_final_frame fuel p.body s₂ frame
  rw [called.eval_eq, invoke, bind_ok evaluated]
  constructor
  · intro left s₃ finishes
    rw [finishes.final] at frames
    have run : runProcedure (eval fuel) (exec fuel) p values s₁ =
        .ok (s₃.env.pop.1, left.filter (· ≠ p.kind.exitTarget))
          { s₃ with env := s₃.env.pop.2 } := by
      rw [runProcedure, bind_ok opened, bind_ok finishes.inFrame]
      rfl
    have popped : s₃.env.pop.1 = final := by
      rw [Environment.pop, frames]
      rfl
    refine ⟨final, _, frames, ?_, copiesOut_copyBack frames fun q hq ↦
      names _ (contains_openFrame opened q hq)⟩
    rw [bind_ok run, popped]
    rfl
  · intro e' s₃ failed
    rw [final_of_error failed] at frames
    have stopped : inFrame frame body s₂ = .error (.error e') { s₃ with env := s₃.env.pop.2 } := by
      rw [inFrame, failed]
    have run : runProcedure (eval fuel) (exec fuel) p values s₁ =
        .error (.error e') { s₃ with env := s₃.env.pop.2 } := by
      rw [runProcedure, bind_ok opened, bind_error stopped]
    rw [bind_error run, Environment.pop, frames]
    rfl

/-- Of two parameters for one variable, the last one counts. -/
theorem call_copiesOut_twice :
    let p : Procedure := ⟨.sub, "p", [⟨"a", false, none⟩, ⟨"b", false, none⟩],
      [.assign (.name "a") (.text "1"), .assign (.name "b") (.text "2"), .exit .sub]⟩
    let args : List Expr := [.name "x", .name "X"]
    let v := Value.text "0"
    let s := { State.initial with
      env := (State.initial.env.defineProcedure p).push (Scope.empty.set "x" v) }
    let frame := (Scope.empty.set "a" v).set "b" v
    s.env.procedure? "p" = some p ∧ evalAll (eval 2) args s = .ok [v, v] s ∧
      openFrame (eval 2) p [v, v] s = .ok frame s ∧
      ∃ s₃ s', Finishes (execAll (exec 2) p.body) { s with env := s.env.push frame }
        (some .sub) s₃ ∧
        eval 3 (.call (.name "p") args) s = .ok .empty s' ∧ s'.env.get? "x" = some (.text "2") := by
  intro p args v s frame
  have declared : s.env.procedure? "p" = some p := by
    simp [s, Environment.procedure?, Environment.push, Environment.defineProcedure, p]
  have x : s.env.local? "x" = some v := by
    simp [s, Environment.local?, Environment.push, Scope.get?_set]
  have read (n : String) (same : Text.foldCase n = Text.foldCase "x") :
      eval 2 (.name n) s = .ok v s := by
    have bound : s.env.get? n = some v := by
      rw [Environment.get?_sameName same, Environment.get?, ← Environment.local?, x, Option.some_or]
    rw [eval, evalExpr, evalName, bind_ok (rfl : (get : Machine State) s = .ok s s)]
    simp only [bound]
    rfl
  have evaluated : evalAll (eval 2) args s = .ok [v, v] s := by
    have second : evalAll (eval 2) [.name "X"] s = .ok [v] s := by
      rw [evalAll, bind_ok (read "X" (by decide))]
      rfl
    rw [evalAll, bind_ok (read "x" rfl), bind_ok second]
    rfl
  have opened : openFrame (eval 2) p [v, v] s = .ok frame s := rfl
  have inFrame (frame : Scope) (n : String) (bound : frame.contains n) (w : Value) :
      (s.env.push frame).assign n w = s.env.push (frame.set n w) :=
    if_pos bound
  have finishes : Finishes (execAll (exec 2) p.body) { s with env := s.env.push frame } (some .sub)
      { s with env := s.env.push ((frame.set "a" (.text "1")).set "b" (.text "2")) } := by
    have a : frame.contains "a" := by simp [frame, Scope.contains_set]
    have b : (frame.set "a" (.text "1")).contains "b" := by simp [frame, Scope.contains_set]
    rw [← inFrame _ "b" b, ← inFrame _ "a" a]
    exact .left rfl
  obtain ⟨final, s', frames, result, copies⟩ :=
    (call_copiesOut (.call declared args) evaluated opened).1 _ _ finishes
  obtain rfl : (frame.set "a" (.text "1")).set "b" (.text "2") = final := (List.cons.inj frames).1
  have lent : Lends p.params args "x" 1 ⟨"b", false, none⟩ := ⟨rfl, rfl, "X", rfl, by decide⟩
  have last : ∀ j r, Lends p.params args "x" j r → j ≤ 1 := by
    intro j r lent
    obtain ⟨bound, -⟩ := List.getElem?_eq_some_iff.mp lent.param
    exact Nat.le_of_lt_succ bound
  obtain ⟨w, hw, got⟩ := copies.copied lent last (by decide) (by rw [seenBehind, x]; rfl)
  rw [Scope.get?_set, if_pos rfl] at hw
  rw [← hw] at got
  exact ⟨declared, evaluated, opened, _, s', finishes, result, got⟩

end Machine

end MiniBasic
