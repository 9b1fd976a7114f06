import MiniBasic.Proofs.Control.Correspondence

/-!
# Where an exit leads

What a host does is what the machine with an explicit stack does. There, an `Exit` goes on behind
the innermost active construct that it is for, be that in the same procedure or in a caller, and the
calls that it leaves on the way copy their parameters back. If there is no such construct, the
operation of the host fails.
-/

namespace MiniBasic

/-- What a host may ask for. -/
inductive Operation where
  | run (program : Program)
  | call (name : String) (args : List Value)
  | evaluate (text : String)

namespace Operation

/-- The operation within a bound, as a computation. The value of a program is empty. -/
def machine (fuel : Nat) : Operation → Machine Value
  | run program => do
    Machine.runProgram fuel program
    return .empty
  | call name args => Machine.callProcedure fuel name args
  | evaluate text => Machine.evalText fuel text

/-- The operation, with given ways to evaluate expressions and to execute statements. -/
def through (eval : Expr → Machine Value) (exec : Stmt → Machine Unit) : Operation → Machine Value
  | run program => do
    Machine.defineAll program
    Machine.execAll exec program
    return .empty
  | call name args => do
    match (← get).env.procedure? name with
    | some p =>
      let (frame, left) ← Machine.runProcedure eval exec p args
      Machine.finishCall p frame left
    | none => Machine.raise (.unknownProcedure name)
  | evaluate text =>
    match parseExpression (Token.tokenize text) with
    | .ok e => eval e
    | .error e => Machine.raise (.malformed e)

theorem machine_eq (fuel : Nat) (op : Operation) :
    op.machine fuel = op.through (Machine.eval fuel) (Machine.exec fuel) := by
  cases op with
  | run program => simp only [machine, through, Machine.runProgram, bind_assoc]
  | call name args => rfl
  | evaluate text => rfl

/-- The outcome of the operation and the state that it leaves. -/
def perform (fuel : Nat) (op : Operation) (s : State) : Outcome Value × State :=
  match op with
  | run program =>
    let (outcome, s) := s.run fuel program
    match outcome with
    | .done _ => (.done .empty, s)
    | .failed e => (.failed e, s)
    | .unfinished => (.unfinished, s)
  | call name args => s.call fuel name args
  | evaluate text => s.evaluate fuel text

theorem perform_eq (fuel : Nat) (op : Operation) (s : State) :
    op.perform fuel s = (op.machine fuel).finish s := by
  cases op with
  | run program =>
    dsimp only [perform, machine, State.run, Machine.finish, bind, EStateM.bind]
    cases Machine.runProgram fuel program s with
    | ok a s' => rfl
    | error i s' => cases i <;> rfl
  | call name args => rfl
  | evaluate text => rfl

open Control in
def code : Operation → Code
  | run program =>
    .onEnv (fun env ↦ (program.filterMap Procedure.ofStmt?).foldl Environment.defineProcedure env)
      (.exec program .done)
  | call name args =>
    .look fun s ↦
      match s.env.procedure? name with
      | some p => .enterCall p args []
      | none => .fail (.unknownProcedure name)
  | evaluate text =>
    match parseExpression (Token.tokenize text) with
    | .ok e => .eval e .value
    | .error e => .fail (.malformed e)

/-- The machine before the first step of the operation. -/
def start (op : Operation) (s : State) : Control.Config :=
  .running op.code [] s

end Operation

namespace Control

open MiniBasic.Control.Config

/-! ## Operations of a host -/

theorem copyBack_nil (frame : Scope) (params : List Param) :
    Machine.copyBack frame params [] = id := by
  funext env
  cases params with
  | nil => rfl
  | cons p ps => rfl

section Realizes

variable {n : Nat} {evaluate : Expr → Machine Value} {execute : Stmt → Machine Unit}

theorem realizes_through (heval : ∀ e, Realizes n (evaluate e) (.expr e))
    (hexec : ∀ stmt, Performs n (execute stmt) (.stmt stmt)) (op : Operation) :
    Realizes (n + 1) (op.through evaluate execute) op.code := by
  cases op with
  | run program => exact .onEnv (realizes_execAll hexec program performs_done)
  | call name args =>
    refine .look fun s ↦ ?_
    cases s.env.procedure? name with
    | none => exact .fail _
    | some p =>
      have entered := realizes_enterCall heval hexec p args []
      simp only [copyBack_nil] at entered
      exact entered
  | evaluate text =>
    simp only [Operation.through, Operation.code]
    cases parseExpression (Token.tokenize text) with
    | error e => exact .fail _
    | ok e =>
      have evaluated := realizes_eval heval e (f := pure) .value
      rw [bind_pure] at evaluated
      exact evaluated

theorem realizes_operation (n : Nat) (op : Operation) :
    Realizes (n + 1) (op.machine n) op.code := by
  obtain ⟨heval, hexec⟩ := realizes_eval_exec n
  rw [op.machine_eq]
  exact realizes_through heval hexec op

/-- What a code does ends as the machine halts, if its bound is not used up. -/
theorem Realizes.halts_or_lasts {m : Machine Value} {code : Code} (h : Realizes n m code)
    (s : State) :
    (m.finish s).1 ≠ .unfinished ∧
        (Config.running code [] s).Reaches (.halted (m.finish s).1 (m.finish s).2) ∨
      (m.finish s).1 = .unfinished ∧ (Config.running code [] s).Lasts n := by
  have settles := h [] s
  unfold Machine.finish
  cases hm : m s with
  | ok v s' =>
    rw [hm] at settles
    cases settles with
    | value h => exact .inl ⟨nofun, h.step⟩
  | error i s' =>
    rw [hm] at settles
    cases settles with
    | exit h => exact .inl ⟨nofun, h⟩
    | fail h => exact .inl ⟨nofun, h⟩
    | lasts h => exact .inr ⟨rfl, h⟩

/-- What a code does within every bound is finished within some bound exactly if the machine halts,
and the two ends are the same. -/
theorem finish_iff_reaches {m : Nat → Machine Value} {code : Code}
    (h : ∀ n, Realizes (n + 1) (m n) code) (s : State) (outcome : Outcome Value) (s' : State) :
    (∃ n, (m n).finish s = (outcome, s')) ∧ outcome ≠ .unfinished ↔
      (Config.running code [] s).Reaches (.halted outcome s') := by
  constructor
  · rintro ⟨⟨n, performed⟩, finished⟩
    rcases (h n).halts_or_lasts s with ⟨-, halts⟩ | ⟨unfinished, -⟩
    · rwa [performed] at halts
    · rw [performed] at unfinished
      exact absurd unfinished finished
  · rintro ⟨n, halted⟩
    rcases (h n).halts_or_lasts s with ⟨finished, halts⟩ | ⟨-, lasts⟩
    · obtain ⟨i, same⟩ := Reaches.halts halts ⟨n, halted⟩
      rw [iterate_halted] at same
      cases same
      exact ⟨⟨n, rfl⟩, finished⟩
    · have running := lasts.mono (Nat.le_succ n)
      rw [Lasts, halted] at running
      exact running.elim

end Realizes

/-- The operation ends as the machine halts, if its bound is not used up. -/
theorem halts_or_lasts (fuel : Nat) (op : Operation) (s : State) :
    (op.perform fuel s).1 ≠ .unfinished ∧
        (op.start s).Reaches (.halted (op.perform fuel s).1 (op.perform fuel s).2) ∨
      (op.perform fuel s).1 = .unfinished ∧ (op.start s).Lasts (fuel + 1) := by
  rw [op.perform_eq]
  exact (realizes_operation fuel op).halts_or_lasts s

/-- The operation is finished within some bound exactly if the machine halts, and the two ends are
the same. -/
theorem perform_iff_reaches (op : Operation) (s : State) (outcome : Outcome Value) (s' : State) :
    (∃ fuel, op.perform fuel s = (outcome, s')) ∧ outcome ≠ .unfinished ↔
      (op.start s).Reaches (.halted outcome s') := by
  simp only [op.perform_eq]
  exact finish_iff_reaches (fun fuel ↦ realizes_operation fuel op) s outcome s'

/-! ## Unwinding -/

/-- The state when everything on a stack has been left, the uppermost first. -/
def leaveAll : Stack → State → State
  | [], s => s
  | .resume _ :: stack, s => leaveAll stack s
  | .active c :: stack, s => leaveAll stack (c.leave s).2

theorem unwind_cases (t : ExitTarget) (stack : Stack) (s : State) :
    (∃ above c below, stack = above ++ .active c :: below ∧ c.target = t ∧
        (∀ d, .active d ∈ above → d.target ≠ t) ∧
        unwind t stack s =
          .running (.value (c.leave (leaveAll above s)).1) below (c.leave (leaveAll above s)).2) ∨
      (∀ c, .active c ∈ stack → c.target ≠ t) ∧
        unwind t stack s = .halted (.failed (.unmatchedExit t)) (leaveAll stack s) := by
  induction stack generalizing s with
  | nil => exact .inr ⟨nofun, rfl⟩
  | cons waiting stack ih =>
    cases waiting with
    | resume next =>
      rcases ih s with ⟨above, c, below, rfl, hc, habove, hunwind⟩ | ⟨none, hunwind⟩
      · refine .inl ⟨.resume next :: above, c, below, rfl, hc, fun d hd ↦ ?_, hunwind⟩
        cases hd with
        | tail _ hd => exact habove d hd
      · refine .inr ⟨fun c hc ↦ ?_, hunwind⟩
        cases hc with
        | tail _ hc => exact none c hc
    | active c =>
      by_cases hc : c.target = t
      · exact .inl ⟨[], c, stack, rfl, hc, nofun, if_pos hc⟩
      · have passes : unwind t (.active c :: stack) s = unwind t stack (c.leave s).2 := if_neg hc
        rw [passes]
        rcases ih (c.leave s).2 with ⟨above, d, below, rfl, hd, habove, hunwind⟩ | ⟨none, hunwind⟩
        · refine .inl ⟨.active c :: above, d, below, rfl, hd, fun d hd ↦ ?_, hunwind⟩
          cases hd with
          | head => exact hc
          | tail _ hd => exact habove d hd
        · refine .inr ⟨fun d hd ↦ ?_, hunwind⟩
          cases hd with
          | head => exact hc
          | tail _ hd => exact none d hd

/-- An exit unwinds to the innermost active construct of its kind. The machine with an explicit
stack ends every operation of a host as the evaluator does. Whenever it executes an `Exit`, it goes
on with the value and on the stack of the innermost active construct that the exit is for; of what
was above, only the calls are heard of again, as their parameters are copied back. If the exit is
for no active construct, the copies are made and the operation fails. -/
theorem exit_unwinds (op : Operation) (s : State) :
    (∀ outcome s', (∃ fuel, op.perform fuel s = (outcome, s')) ∧ outcome ≠ .unfinished ↔
        (op.start s).Reaches (.halted outcome s')) ∧
      ∀ t stack s₁, (op.start s).Reaches (.running (.exit t) stack s₁) →
        (∃ above c below, stack = above ++ .active c :: below ∧ c.target = t ∧
            (∀ d, .active d ∈ above → d.target ≠ t) ∧
            Config.step (.running (.exit t) stack s₁) =
              .running (.value (c.leave (leaveAll above s₁)).1) below
                (c.leave (leaveAll above s₁)).2) ∨
          (∀ c, .active c ∈ stack → c.target ≠ t) ∧
            ∀ fuel outcome s', op.perform fuel s = (outcome, s') → outcome ≠ .unfinished →
              outcome = .failed (.unmatchedExit t) ∧ s' = leaveAll stack s₁ := by
  refine ⟨perform_iff_reaches op s, fun t stack s₁ reached ↦ ?_⟩
  rcases unwind_cases t stack s₁ with found | ⟨none, hunwind⟩
  · exact .inl found
  · refine .inr ⟨none, fun fuel outcome s' performed finished ↦ ?_⟩
    have halts := (perform_iff_reaches op s outcome s').mp ⟨⟨fuel, performed⟩, finished⟩
    have next : (op.start s).Reaches (unwind t stack s₁) := reached.step
    rw [hunwind] at next
    obtain ⟨i, same⟩ := next.halts halts
    rw [iterate_halted] at same
    cases same
    exact ⟨rfl, rfl⟩

theorem exit_unwinds_across_call :
    ∃ stack s₁, (Operation.start (.run [.procedure .sub "S" [] [.exit .doLoop],
        .doWhile (.name "True") [.call (.call (.name "S") [])]]) .initial).Reaches
          (.running (.exit .doLoop) stack s₁) ∧
      ∃ above c below, stack = above ++ .active c :: below ∧ c.target = .doLoop ∧
        Config.step (.running (.exit .doLoop) stack s₁) =
          .running (.value (c.leave (leaveAll above s₁)).1) below
            (c.leave (leaveAll above s₁)).2 := by
  -- the body of `S`, the call, the statement that is the call, and the loop around it
  have reached : ∃ next p args next₁ next₂ condition body stack s₁,
      (Operation.start (.run [.procedure .sub "S" [] [.exit .doLoop],
        .doWhile (.name "True") [.call (.call (.name "S") [])]]) .initial).Reaches
          (.running (.exit .doLoop) (.resume next :: .active (.call p args) :: .resume next₁ ::
            .resume next₂ :: .active (.doLoop condition body) :: stack) s₁) :=
    ⟨_, _, _, _, _, _, _, _, _, 15, rfl⟩
  obtain ⟨next, p, args, next₁, next₂, condition, body, stack, s₁, reached⟩ := reached
  refine ⟨_, s₁, reached, ?_⟩
  rcases (exit_unwinds _ _).2 _ _ _ reached with ⟨above, c, below, split, target, -, step⟩
    | ⟨none, -⟩
  · exact ⟨above, c, below, split, target, step⟩
  · exact absurd rfl (none (.doLoop condition body) (by simp))

end Control

end MiniBasic
