import MiniBasic.Proofs.Control.CopyBack

/-!
# Counting loops

A `For` loop evaluates its start, its limit and its step once each and in this order, and then
assigns the start to its counter. From there on it goes round. It reads the counter before and after
each run of the body, so the body may take part in the counting. Where it does not, the body is
started with the start, the start plus the step, and so on, as long as these numbers are within the
limit. The counter ends with the first number that is not, or with the current one if `Exit For`
leaves the loop.
-/

namespace MiniBasic

namespace State

/-- The number that a variable stands for, if it is bound. -/
def number? (s : State) (name : String) : Option Float :=
  (s.env.get? name).map Value.toNumber

theorem number?_of_get? {s : State} {name : String} {v : Value} (found : s.env.get? name = some v) :
    s.number? name = some v.toNumber :=
  congrArg (Option.map Value.toNumber) found

/-- The state after an assignment. -/
def assigned (s : State) (name : String) (v : Value) : State :=
  { s with env := s.env.assign name v }

theorem get?_assigned_self (s : State) (name : String) (v : Value) :
    (s.assigned name v).env.get? name = some v :=
  s.env.get?_assign_self name v

/-- A name that can be looked up can be looked up later on: the frame that it is looked up in is the
same one. -/
theorem KeepsAllBindings.isSome_get? {s s' : State} (h : s.KeepsAllBindings s') (name : String)
    (bound : (s.env.get? name).isSome) : (s'.env.get? name).isSome := by
  obtain ⟨depth, kept⟩ := h
  rw [Environment.get?, Option.isSome_or, Bool.or_eq_true] at bound ⊢
  rcases bound with bound | bound
  · refine .inl ?_
    cases frames : s.env.frames with
    | nil =>
      rw [frames] at bound
      cases bound
    | cons frame rest =>
      rw [State.depth, State.depth, frames] at depth
      obtain ⟨frame', rest', frames'⟩ := List.exists_cons_of_length_eq_add_one depth
      have same : rest'.length = rest.length := by
        rw [frames'] at depth
        exact Nat.succ.inj depth
      have before : s.env.boundIn rest.length name := by
        rw [Environment.boundIn_innermost frames, Scope.contains_eq_isSome]
        rwa [frames] at bound
      have after : s'.env.boundIn rest'.length name := by
        rw [same]
        exact kept.frames rest.length (by rw [State.depth, frames]; exact Nat.lt_succ_self _)
          name before
      rw [Environment.boundIn_innermost frames', Scope.contains_eq_isSome] at after
      rwa [frames']
  · rw [← Scope.contains_eq_isSome] at bound ⊢
    exact .inr (kept.globals name bound)

end State

namespace Machine

/-! ## The header -/

/-- What the evaluation of the start, the limit and the step of a loop comes to. They are evaluated
in this order, each in the state that the one before has left, and the first interruption is the
end. A step that is not given is one. -/
inductive Header (eval : Expr → Machine Value) (start stop : Expr) :
    Option Expr → State → EStateM.Result Interrupt State (Float × Float × Float) → Prop
  | start {step : Option Expr} {s t : State} {i : Interrupt} (first : eval start s = .error i t) :
    Header eval start stop step s (.error i t)
  | stop {step : Option Expr} {s s₁ t : State} {i : Interrupt} {a : Value}
    (first : eval start s = .ok a s₁) (second : eval stop s₁ = .error i t) :
    Header eval start stop step s (.error i t)
  | step {step : Expr} {s s₁ s₂ t : State} {i : Interrupt} {a b : Value}
    (first : eval start s = .ok a s₁) (second : eval stop s₁ = .ok b s₂)
    (third : eval step s₂ = .error i t) :
    Header eval start stop (some step) s (.error i t)
  | withStep {step : Expr} {s s₁ s₂ t : State} {a b c : Value} (first : eval start s = .ok a s₁)
    (second : eval stop s₁ = .ok b s₂) (third : eval step s₂ = .ok c t) :
    Header eval start stop (some step) s (.ok (a.toNumber, b.toNumber, c.toNumber) t)
  | withoutStep {s s₁ t : State} {a b : Value} (first : eval start s = .ok a s₁)
    (second : eval stop s₁ = .ok b t) :
    Header eval start stop none s (.ok (a.toNumber, b.toNumber, 1) t)

/-! ## The rounds -/

/-- A number is not beyond the limit, in the direction of the step. -/
def Within (step limit x : Float) : Prop :=
  if step > 0 then x ≤ limit else x ≥ limit

/-- How a loop ends: the counter is beyond the limit, `Exit For` leaves the body, or the body is
interrupted in another way. -/
inductive LoopEnd where
  | finished
  | left
  | interrupted (i : Interrupt)

/-- What the loop as a whole comes to. -/
def LoopEnd.result : LoopEnd → State → EStateM.Result Interrupt State Unit
  | finished, s | left, s => .ok () s
  | interrupted i, s => .error i s

/-- The rounds of a loop from a state on: the states in which the body is started, and how and in
which state the loop ends. A bound on the rounds may be used up in front of each. -/
inductive Rounds (counter : String) (limit step : Float) (body : Machine Unit) :
    State → List State → LoopEnd → State → Prop
  | outOfFuel {s : State} : Rounds counter limit step body s [] (.interrupted .outOfFuel) s
  | finished {s : State} {x : Float} (current : s.number? counter = some x)
    (beyond : ¬ Within step limit x) :
    Rounds counter limit step body s [] .finished s
  | left {s t : State} {x : Float} (current : s.number? counter = some x)
    (within : Within step limit x) (run : Finishes body s (some .forLoop) t) :
    Rounds counter limit step body s [s] .left t
  | interrupted {s t : State} {x : Float} {i : Interrupt} (current : s.number? counter = some x)
    (within : Within step limit x) (run : body s = .error i t) (other : i ≠ .exit .forLoop) :
    Rounds counter limit step body s [s] (.interrupted i) t
  | next {s t u : State} {x y : Float} {starts : List State} {e : LoopEnd}
    (current : s.number? counter = some x) (within : Within step limit x)
    (run : Finishes body s none t) (after : t.number? counter = some y)
    (more : Rounds counter limit step body (t.assigned counter (.number (y + step))) starts e u) :
    Rounds counter limit step body s (s :: starts) e u

variable {counter : String} {limit step : Float} {body : Machine Unit} {s t : State}

theorem inRange_iff {x : Float} : inRange step limit x ↔ Within step limit x := by
  rw [inRange, Within]
  split <;> simp

theorem getOrDeclare_of_bound {v : Value} (bound : s.env.get? counter = some v) :
    getOrDeclare counter s = .ok v s := by
  change EStateM.Result.ok (s.env.getOrDeclare counter).1
    { s with env := (s.env.getOrDeclare counter).2 } = _
  rw [Environment.getOrDeclare, bound]

theorem leaving_cases (target : ExitTarget) (body : Machine Unit) (s : State) :
    (∃ t, Finishes body s none t ∧ leaving target body s = .ok true t) ∨
    (∃ t, Finishes body s (some target) t ∧ leaving target body s = .ok false t) ∨
    ∃ i t, body s = .error i t ∧ i ≠ .exit target ∧ leaving target body s = .error i t := by
  rw [leaving]
  cases run : body s with
  | ok _ t => exact .inl ⟨t, .normally run, rfl⟩
  | error i t =>
    cases i with
    | exit other =>
      by_cases same : other = target
      · subst same
        exact .inr (.inl ⟨t, .left run, if_pos rfl⟩)
      · exact .inr (.inr ⟨_, t, rfl, fun h ↦ same (Interrupt.exit.inj h), if_neg same⟩)
    | error e => exact .inr (.inr ⟨_, t, rfl, by simp, rfl⟩)
    | outOfFuel => exact .inr (.inr ⟨_, t, rfl, by simp, rfl⟩)

/-- A loop whose counter is bound goes its rounds, if the body leaves the counter bound. -/
theorem exists_rounds (limit step : Float)
    (keeps : ∀ u, (u.env.get? counter).isSome → ((body.final u).env.get? counter).isSome)
    (fuel : Nat) {s : State} (bound : (s.env.get? counter).isSome) :
    ∃ starts e t, Rounds counter limit step body s starts e t ∧
      forRounds counter limit step body fuel s = e.result t := by
  induction fuel generalizing s with
  | zero => exact ⟨[], .interrupted .outOfFuel, s, .outOfFuel, rfl⟩
  | succ fuel ih =>
    obtain ⟨v, value⟩ := Option.isSome_iff_exists.mp bound
    have current : s.number? counter = some v.toNumber := State.number?_of_get? value
    rw [forRounds, bind_ok (getOrDeclare_of_bound value)]
    by_cases within : Within step limit v.toNumber
    · rw [if_pos (inRange_iff.mpr within)]
      rcases leaving_cases .forLoop body s with ⟨t, run, through⟩ | ⟨t, run, through⟩
        | ⟨i, t, run, other, through⟩
      · have still := keeps s bound
        rw [run.final] at still
        obtain ⟨w, after⟩ := Option.isSome_iff_exists.mp still
        have stepped (v : Value) : assign counter v t = .ok () (t.assigned counter v) := rfl
        obtain ⟨starts, e, u, more, result⟩ :=
          ih (Option.isSome_of_eq_some (t.get?_assigned_self counter (.number (w.toNumber + step))))
        refine ⟨s :: starts, e, u, .next current within run (State.number?_of_get? after) more, ?_⟩
        rw [bind_ok through, if_pos rfl, bind_ok (getOrDeclare_of_bound after),
          bind_ok (stepped _), result]
      · refine ⟨[s], .left, t, .left current within run, ?_⟩
        rw [bind_ok through]
        rfl
      · refine ⟨[s], .interrupted i, t, .interrupted current within run other, ?_⟩
        rw [bind_error through]
        rfl
    · rw [if_neg (inRange_iff.not.mpr within)]
      exact ⟨[], .finished, s, .finished current within, rfl⟩

/-! ## Counting -/

/-- No run of the body that comes to its end or is left by `Exit For` changes the number that the
counter stands for. -/
def Undisturbed (counter : String) (body : Machine Unit) (starts : List State) : Prop :=
  ∀ s ∈ starts, ∀ t, Finishes body s none t ∨ Finishes body s (some .forLoop) t →
    t.number? counter = s.number? counter

/-- The numbers from `x` on, each the one before plus the step. -/
def counted (x step : Float) : Nat → Float
  | 0 => x
  | k + 1 => counted x step k + step

theorem counted_add (x step : Float) (k : Nat) :
    counted (x + step) step k = counted x step (k + 1) := by
  induction k with
  | zero => rfl
  | succ k ih => exact congrArg (· + step) ih

/-- The loop counts from `x` in steps up to the limit. -/
structure Counts (counter : String) (x limit step : Float) (starts : List State) (e : LoopEnd)
    (t : State) : Prop where
  within (k : Nat) (s : State) : starts[k]? = some s →
    s.env.get? counter = some (.number (counted x step k)) ∧ Within step limit (counted x step k)
  finished : e = .finished → t.env.get? counter = some (.number (counted x step starts.length)) ∧
    ¬ Within step limit (counted x step starts.length)
  left : e = .left → ∃ k, starts.length = k + 1 ∧ t.number? counter = some (counted x step k)

theorem Counts.cons {x : Float} {starts : List State} {e : LoopEnd}
    (value : s.env.get? counter = some (.number x)) (within : Within step limit x)
    (more : Counts counter (x + step) limit step starts e t) :
    Counts counter x limit step (s :: starts) e t where
  within k u found := by
    cases k with
    | zero =>
      cases found
      exact ⟨value, within⟩
    | succ k =>
      have later := more.within k u found
      rwa [counted_add] at later
  finished ended := by
    have last := more.finished ended
    rwa [counted_add] at last
  left ended := by
    obtain ⟨k, length, last⟩ := more.left ended
    rw [counted_add] at last
    exact ⟨k + 1, congrArg (· + 1) length, last⟩

/-- The loop ends in its first round. -/
theorem Counts.single {x : Float} {e : LoopEnd} (value : s.env.get? counter = some (.number x))
    (within : Within step limit x) (unfinished : e ≠ .finished)
    (same : e = .left → t.number? counter = some x) :
    Counts counter x limit step [s] e t where
  within k u found := by
    cases k with
    | zero =>
      cases found
      exact ⟨value, within⟩
    | succ k => cases found
  finished ended := absurd ended unfinished
  left ended := ⟨0, rfl, same ended⟩

theorem Rounds.counts {starts : List State} {e : LoopEnd}
    (h : Rounds counter limit step body s starts e t) {x : Float}
    (value : s.env.get? counter = some (.number x))
    (undisturbed : Undisturbed counter body starts) :
    Counts counter x limit step starts e t := by
  have number : s.number? counter = some x := State.number?_of_get? value
  -- At the start of each round the counter has just been assigned: it holds a number and not only
  -- stands for one.
  induction h generalizing x with
  | outOfFuel => exact ⟨by simp, by simp, by simp⟩
  | finished current beyond =>
    cases current.symm.trans number
    exact ⟨by simp, fun _ ↦ ⟨value, beyond⟩, by simp⟩
  | @left s t _ current within run =>
    cases current.symm.trans number
    exact .single value within (by simp) fun _ ↦ (undisturbed s (.head _) t (.inr run)).trans number
  | interrupted current within =>
    cases current.symm.trans number
    exact .single value within (by simp) (by simp)
  | @next s t _ _ y _ _ current within run after _ ih =>
    have same := (undisturbed s (.head _) t (.inl run)).trans number
    rw [Option.some.inj (current.symm.trans number)] at within
    rw [Option.some.inj (after.symm.trans same)] at ih
    have stepped := t.get?_assigned_self counter (.number (x + step))
    exact .cons value within (ih stepped (fun u mem ↦ undisturbed u (.tail _ mem))
      (State.number?_of_get? stepped))

/-! ## Loops -/

theorem execStmt_forLoop (fuel : Nat) (eval : Expr → Machine Value) (exec : Stmt → Machine Unit)
    (counter : String) (start stop : Expr) (step : Option Expr) (body : List Stmt)
    (closing : Option String) (s : State) :
    (∃ i t, Header eval start stop step s (.error i t) ∧
      execStmt fuel eval exec (.forLoop counter start stop step body closing) s = .error i t) ∨
    ∃ x limit d t, Header eval start stop step s (.ok (x, limit, d) t) ∧
      execStmt fuel eval exec (.forLoop counter start stop step body closing) s =
        forRounds counter limit d (execAll exec body) fuel (t.assigned counter (.number x)) := by
  rw [execStmt]
  cases first : eval start s with
  | error i t => exact .inl ⟨i, t, .start first, bind_error first⟩
  | ok a s₁ =>
    rw [bind_ok first]
    cases second : eval stop s₁ with
    | error i t => exact .inl ⟨i, t, .stop first second, bind_error second⟩
    | ok b s₂ =>
      rw [bind_ok second]
      cases step with
      | none => exact .inr ⟨_, _, _, s₂, .withoutStep first second, rfl⟩
      | some step =>
        cases third : eval step s₂ with
        | error i t =>
          have stopped : evalStep eval (some step) s₂ = .error i t := bind_error third
          exact .inl ⟨i, t, .step first second third, bind_error stopped⟩
        | ok c s₃ =>
          have stepped : evalStep eval (some step) s₂ = .ok c.toNumber s₃ := bind_ok third
          refine .inr ⟨_, _, _, s₃, .withStep first second third, ?_⟩
          rw [bind_ok stepped]
          rfl

/-- A loop ends where its header is interrupted, before anything is assigned. Otherwise the start is
assigned to the counter and the loop goes its rounds, with the limit and the step that the header
has given. If the body leaves the number in the counter as it is, then these rounds count from the
start in steps up to the limit. -/
theorem forLoop_counts (fuel : Nat) (counter : String) (start stop : Expr) (step : Option Expr)
    (body : List Stmt) (closing : Option String) (s : State) :
    (∃ i t, Header (eval fuel) start stop step s (.error i t) ∧
      exec (fuel + 1) (.forLoop counter start stop step body closing) s = .error i t) ∨
    ∃ x limit d s', Header (eval fuel) start stop step s (.ok (x, limit, d) s') ∧
      ∃ starts e t, Rounds counter limit d (execAll (exec fuel) body)
        (s'.assigned counter (.number x)) starts e t ∧
        exec (fuel + 1) (.forLoop counter start stop step body closing) s = e.result t ∧
        (Undisturbed counter (execAll (exec fuel) body) starts →
          Counts counter x limit d starts e t) := by
  rw [exec]
  rcases execStmt_forLoop fuel (eval fuel) (exec fuel) counter start stop step body closing s with
    interrupted | ⟨x, limit, d, s', header, run⟩
  · exact .inl interrupted
  · have keeps (u : State) :=
      (State.guarantee_keepsAllBindings.execAll fuel body u).isSome_get? counter
    have value := s'.get?_assigned_self counter (.number x)
    obtain ⟨starts, e, t, rounds, result⟩ :=
      exists_rounds limit d keeps fuel (Option.isSome_of_eq_some value)
    exact .inr ⟨x, limit, d, s', header, starts, e, t, rounds, run.trans result,
      rounds.counts value⟩

/-- The limit is read once: here each round sets the variable that the limit was read from to
zero. -/
theorem forLoop_counts_changed_limit :
    let body : List Stmt := [.assign (.name "n") (.number 0)]
    let loop : Stmt := .forLoop "i" (.number 1) (.name "n") none body none
    let s := State.initial.assigned "n" (.number 2)
    ∃ starts e t, exec 6 loop s = e.result t ∧ Undisturbed "i" (execAll (exec 5) body) starts ∧
      Counts "i" 1 2 1 starts e t ∧ ((exec 6 loop).final s).number? "i" = some 3 := by
  intro body loop s
  have first : eval 5 (.number 1) s = .ok (.number 1) s := rfl
  have second : eval 5 (.name "n") s = .ok (.number 2) s := by
    have bound : s.env.get? "n" = some (.number 2) := State.get?_assigned_self _ _ _
    rw [eval, evalExpr, evalName, bind_ok (rfl : (get : Machine State) s = .ok s s)]
    simp only [bound]
    rfl
  have run (u : State) : execAll (exec 5) body u = .ok () (u.assigned "n" (.number 0)) := rfl
  have undisturbed (starts : List State) : Undisturbed "i" (execAll (exec 5) body) starts := by
    rintro u - t (ended | ended)
    · cases ended with
      | normally h =>
        rw [run] at h
        cases h
        rw [State.number?, State.assigned, Environment.get?_assign, if_neg (by decide),
          State.number?]
    · cases ended with
      | left h =>
        rw [run] at h
        cases h
  obtain ⟨_, _, header, -⟩ | ⟨_, _, _, _, header, starts, e, t, -, result, counts⟩ :=
    forLoop_counts 5 "i" (.number 1) (.name "n") none body none s
  · cases header with
    | start h =>
      rw [first] at h
      cases h
    | stop h h' =>
      rw [first] at h
      cases h
      rw [second] at h'
      cases h'
  · cases header with
    | withoutStep h h' =>
      rw [first] at h
      cases h
      rw [second] at h'
      cases h'
      exact ⟨starts, e, t, result, undisturbed starts, counts (undisturbed starts),
        by decide +kernel⟩

end Machine

end MiniBasic
