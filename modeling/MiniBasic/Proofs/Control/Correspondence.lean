import MiniBasic.Proofs.Control.Stack

/-!
# Runs and the stack machine

The evaluator and the machine with an explicit stack do the same. `Realizes n m code` says it of a
computation `m` and a code, for every stack below: if `m` has a value, the machine comes to that
value on the same stack; if `m` is left by an exit, the machine comes to where the exit leads from
that stack; if it fails, the machine stops with the error; and if `m` has used up its bound, the
machine takes `n` steps at least. The relation is shown rule by rule, for the evaluation and
execution one level below, and then by induction on the bound.
-/

namespace MiniBasic.Control

namespace Config

variable {c d e : Config} {n m : Nat}

theorem Reaches.refl (c : Config) : c.Reaches c :=
  ⟨0, rfl⟩

theorem Reaches.trans (h : c.Reaches d) (h' : d.Reaches e) : c.Reaches e := by
  obtain ⟨i, rfl⟩ := h
  obtain ⟨j, rfl⟩ := h'
  exact ⟨j + i, Function.iterate_add_apply _ _ _ _⟩

theorem Reaches.of_step (h : c.step.Reaches d) : c.Reaches d :=
  .trans ⟨1, rfl⟩ h

/-- A step at the end of a run. -/
theorem Reaches.step (h : c.Reaches d) : c.Reaches d.step :=
  h.trans ⟨1, rfl⟩

def IsRunning : Config → Prop
  | running .. => True
  | halted .. => False

/-- The machine is not halted after `n` steps. -/
def Lasts (n : Nat) (c : Config) : Prop :=
  (step^[n] c).IsRunning

theorem iterate_halted (n : Nat) (outcome : Outcome Value) (s : State) :
    step^[n] (halted outcome s) = halted outcome s :=
  Function.iterate_fixed rfl n

theorem isRunning_of_step (h : c.step.IsRunning) : c.IsRunning := by
  cases c with
  | running => trivial
  | halted => exact h

theorem isRunning_of_reaches (h : c.Reaches d) (hd : d.IsRunning) : c.IsRunning := by
  obtain ⟨n, rfl⟩ := h
  induction n with
  | zero => exact hd
  | succ n ih =>
    rw [Function.iterate_succ_apply'] at hd
    exact ih (isRunning_of_step hd)

theorem Lasts.mono (h : c.Lasts n) (hm : m ≤ n) : c.Lasts m := by
  refine isRunning_of_reaches ⟨n - m, ?_⟩ h
  rw [← Function.iterate_add_apply, Nat.sub_add_cancel hm]

theorem Lasts.of_step (h : c.step.Lasts n) : c.Lasts (n + 1) :=
  h

theorem Lasts.of_reaches (h : c.Reaches d) (hd : d.Lasts n) : c.Lasts n := by
  obtain ⟨i, rfl⟩ := h
  refine isRunning_of_reaches ⟨i, ?_⟩ hd
  rw [← Function.iterate_add_apply, ← Function.iterate_add_apply, Nat.add_comm]

/-- A run that halts does so from everything on its way. -/
theorem Reaches.halts {outcome : Outcome Value} {s : State} (h : c.Reaches d)
    (halts : c.Reaches (.halted outcome s)) : d.Reaches (.halted outcome s) := by
  obtain ⟨i, rfl⟩ := h
  obtain ⟨j, hj⟩ := halts
  refine ⟨j, ?_⟩
  rw [← Function.iterate_add_apply, Nat.add_comm, Function.iterate_add_apply, hj, iterate_halted]

end Config

open MiniBasic.Control.Config

/-- What becomes of a configuration, as a computation ends from there, on a stack that it does not
look into. -/
inductive Settles (n : Nat) (c : Config) (stack : Stack) :
    EStateM.Result Interrupt State Value → Prop
  | value {v : Value} {s : State} (h : c.Reaches (.running (.value v) stack s)) :
    Settles n c stack (.ok v s)
  | exit {t : ExitTarget} {s : State} (h : c.Reaches (unwind t stack s)) :
    Settles n c stack (.error (.exit t) s)
  | fail {e : RuntimeError} {s : State} (h : c.Reaches (abort e stack s)) :
    Settles n c stack (.error (.error e) s)
  | lasts {s : State} (h : c.Lasts n) : Settles n c stack (.error .outOfFuel s)

/-- The code does what the computation does. -/
def Realizes (n : Nat) (m : Machine Value) (code : Code) : Prop :=
  ∀ stack s, Settles n (.running code stack s) stack (m s)

/-- The code does what the execution of a statement does. -/
abbrev Performs (n : Nat) (m : Machine Unit) (code : Code) : Prop :=
  Realizes n (do m; return .empty) code

namespace Settles

variable {n k : Nat} {c d : Config} {stack : Stack} {r : EStateM.Result Interrupt State Value}

theorem of_step (h : Settles n c.step stack r) : Settles (n + 1) c stack r := by
  cases h with
  | value h => exact .value h.of_step
  | exit h => exact .exit h.of_step
  | fail h => exact .fail h.of_step
  | lasts h => exact .lasts h.of_step

theorem of_reaches (h : c.Reaches d) (hd : Settles n d stack r) : Settles n c stack r := by
  cases hd with
  | value hd => exact .value (h.trans hd)
  | exit hd => exact .exit (h.trans hd)
  | fail hd => exact .fail (h.trans hd)
  | lasts hd => exact .lasts (hd.of_reaches h)

theorem mono (h : Settles n c stack r) (hk : k ≤ n) : Settles k c stack r := by
  cases h with
  | value h => exact .value h
  | exit h => exact .exit h
  | fail h => exact .fail h
  | lasts h => exact .lasts (h.mono hk)

/-- A value is taken up by what waits for it. -/
theorem resume {m : Machine Value} {f : Value → Machine Value} {next : Value → Code} {s : State}
    (h : Settles n c (.resume next :: stack) (m s)) (hf : ∀ v, Realizes n (f v) (next v)) :
    Settles n c stack ((m >>= f) s) := by
  change Settles n c stack (EStateM.bind m f s)
  unfold EStateM.bind
  cases hm : m s with
  | ok v s' =>
    rw [hm] at h
    cases h with
    | value h => exact .of_reaches h.step (hf v stack s')
  | error i s' =>
    rw [hm] at h
    cases h with
    | exit h => exact .exit h
    | fail h => exact .fail h
    | lasts h => exact .lasts h

end Settles

namespace Realizes

variable {α : Type} {n : Nat}

theorem value (v : Value) : Realizes n (pure v) (.value v) :=
  fun _ _ ↦ .value (.refl _)

theorem fail (e : RuntimeError) : Realizes n (Machine.raise e) (.fail e) :=
  fun _ _ ↦ .fail (.of_step (.refl _))

theorem exit (t : ExitTarget) : Realizes n (throw (.exit t)) (.exit t) :=
  fun _ _ ↦ .exit (.of_step (.refl _))

theorem act {m : Machine Value} {next : State → Code} {change : State → State}
    (f : State → Machine Value) (hm : ∀ s, m s = f s (change s))
    (h : ∀ s, Realizes n (f s) (next s)) :
    Realizes n m (.act next change) := by
  intro stack s
  rw [hm]
  exact .mono (.of_step (h s stack (change s))) (Nat.le_succ n)

theorem ite {b : Prop} [Decidable b] {m m' : Machine Value} {code code' : Code}
    (h : Realizes n m code) (h' : Realizes n m' code') :
    Realizes n (if b then m else m') (if b then code else code') := by
  split
  · exact h
  · exact h'

/-! ## Steps on the state -/

theorem look {f : State → Machine Value} {next : State → Code}
    (h : ∀ s, Realizes n (f s) (next s)) :
    Realizes n (get >>= f) (.look next) :=
  .act f (fun _ ↦ rfl) h

theorem change {m : Machine Value} {f : State → State} {next : Code} (h : Realizes n m next) :
    Realizes n (modify f >>= fun _ ↦ m) (.change f next) :=
  .act (fun _ ↦ m) (fun _ ↦ rfl) fun _ ↦ h

theorem onHeap {action : Heap.Action α} {f : α → Machine Value} {next : α → Code}
    (h : ∀ a, Realizes n (f a) (next a)) :
    Realizes n (Machine.onHeap action >>= f) (.onHeap action next) := by
  intro stack s
  refine .mono (.of_step ?_) (Nat.le_succ n)
  change Settles n (Config.step (.running (.onHeap action next) stack s)) stack
    (EStateM.bind (Machine.onHeap action) f s)
  unfold EStateM.bind Machine.onHeap Code.onHeap Config.step
  dsimp only
  cases action s.heap with
  | ok a heap => exact h a stack { s with heap }
  | error e heap => exact Realizes.fail e stack { s with heap }

theorem onEnv {m : Machine Value} {f : Environment → Environment} {next : Code}
    (h : Realizes n m next) :
    Realizes n (Machine.onEnv f >>= fun _ ↦ m) (.onEnv f next) :=
  .change h

theorem assign {m : Machine Value} {name : String} {v : Value} {next : Code}
    (h : Realizes n m next) :
    Realizes n (Machine.assign name v >>= fun _ ↦ m) (.assign name v next) :=
  .onEnv h

theorem getOrDeclare {f : Value → Machine Value} {name : String} {next : Value → Code}
    (h : ∀ v, Realizes n (f v) (next v)) :
    Realizes n (Machine.getOrDeclare name >>= f) (.getOrDeclare name next) :=
  .act (fun s ↦ f (s.env.getOrDeclare name).1) (fun _ ↦ rfl) fun _ ↦ h _

end Realizes

/-! ## Bodies and loops -/

section Bodies

variable {n : Nat} {execute : Stmt → Machine Unit}
  (hexec : ∀ stmt, Performs n (execute stmt) (.stmt stmt))

include hexec

/-- Statements one after the other. -/
theorem realizes_execAll (body : List Stmt) {m : Machine Value} {next : Code}
    (h : Realizes (n + 1) m next) :
    Realizes (n + 1) (Machine.execAll execute body >>= fun _ ↦ m) (.exec body next) := by
  induction body with
  | nil =>
    intro stack s
    exact .mono (.of_step (h stack s)) (Nat.le_succ _)
  | cons stmt stmts ih =>
    intro stack s
    have first : Settles (n + 1) (.running (.exec (stmt :: stmts) next) stack s)
        (.resume (fun _ ↦ .exec stmts next) :: stack)
        ((do execute stmt; return .empty : Machine Value) s) :=
      .of_step (hexec stmt _ s)
    have both := first.resume fun _ ↦ ih
    simp only [bind_assoc, pure_bind] at both
    simp only [Machine.execAll, bind_assoc]
    exact both

/-- A round of a loop: it goes on unless an exit has left the body. -/
theorem performs_round {k : Nat} (hk : k ≤ n + 1) {c : Construct}
    (leave : ∀ s, c.leave s = (.empty, s)) (abandon : ∀ s, c.abandon s = s) {again : Machine Unit}
    (hagain : Performs k again c.next) :
    Performs (k + 1) (do if ← Machine.leaving c.target (Machine.execAll execute c.body) then again)
      (.inside c) := by
  intro stack s
  refine .of_step ?_
  have body := (realizes_execAll hexec c.body (.value .empty) (.active c :: stack) s).mono hk
  change Settles k _ _ (EStateM.bind (Machine.execAll execute c.body) _ s) at body
  change Settles k (.running (.exec c.body .done) (.active c :: stack) s) stack
    (EStateM.bind (EStateM.bind (Machine.leaving c.target _) _) _ s)
  unfold EStateM.bind Machine.leaving
  unfold EStateM.bind at body
  cases hb : Machine.execAll execute c.body s with
  | ok _ s' =>
    rw [hb] at body
    cases body with
    | value h => exact .of_reaches h.step (hagain stack s')
  | error i s' =>
    rw [hb] at body
    cases body with
    | @exit t _ h =>
      rw [unwind, leave] at h
      by_cases ht : c.target = t
      · rw [if_pos ht] at h
        dsimp only
        rw [if_pos ht.symm]
        exact .value h
      · rw [if_neg ht] at h
        dsimp only
        rw [if_neg (Ne.symm ht)]
        exact .exit h
    | fail h =>
      rw [abort, abandon] at h
      exact .fail h
    | lasts h => exact .lasts h

/-- The rest of a call whose parameters are bound. -/
theorem realizes_call (p : Procedure) (args : List Expr) (frame : Scope) :
    Realizes (n + 1)
      (Machine.inFrame frame (Machine.execAll execute p.body) >>= fun x ↦
        Machine.onEnv (Machine.copyBack x.1 p.params args) >>= fun _ ↦
          Machine.finishCall p x.1 (x.2.filter (· ≠ p.kind.exitTarget)))
      (.onEnv (·.push frame) (.inside (.call p args))) := by
  intro stack s
  have body := realizes_execAll hexec p.body (.value .empty) (.active (.call p args) :: stack)
    { s with env := s.env.push frame }
  change Settles _ _ _ (EStateM.bind (Machine.execAll execute p.body) _ _) at body
  refine .mono (.of_step (.of_step ?_)) (Nat.le_add_right _ 2)
  change Settles _ (.running (.exec p.body .done) (.active (.call p args) :: stack)
    { s with env := s.env.push frame }) stack
      (EStateM.bind (Machine.inFrame frame (Machine.execAll execute p.body)) _ s)
  unfold EStateM.bind Machine.inFrame
  unfold EStateM.bind at body
  cases hb : Machine.execAll execute p.body { s with env := s.env.push frame } with
  | ok _ s' =>
    rw [hb] at body
    cases body with
    | value h => exact .value h.step.step
  | error i s' =>
    rw [hb] at body
    cases body with
    | @exit t _ h =>
      change Reaches _ (if p.kind.exitTarget = t then _ else _) at h
      by_cases ht : p.kind.exitTarget = t
      · rw [if_pos ht] at h
        have answered : (some t).filter (· ≠ p.kind.exitTarget) = none := by simp [ht]
        dsimp only
        rw [answered]
        exact .value h
      · rw [if_neg ht] at h
        have unanswered : (some t).filter (· ≠ p.kind.exitTarget) = some t := by simp [Ne.symm ht]
        dsimp only
        rw [unanswered]
        exact .exit h
    | fail h => exact .fail h
    | lasts h => exact .lasts h

end Bodies

/-! ## Expressions -/

section Expressions

variable {n : Nat} {evaluate : Expr → Machine Value} {execute : Stmt → Machine Unit}
  (heval : ∀ e, Realizes n (evaluate e) (.expr e))
  (hexec : ∀ stmt, Performs n (execute stmt) (.stmt stmt))

theorem realizes_onHeap {k : Nat} (action : Heap.Action Value) :
    Realizes k (Machine.onHeap action) (.onHeap action .value) := by
  rw [← bind_pure (Machine.onHeap action)]
  exact .onHeap .value

theorem realizes_applyValue {k : Nat} (name : String) (target : Value) (args : List Value) :
    Realizes k (Machine.applyValue name target args) (.applyValue name target args) := by
  cases target with
  | native f => exact .look fun s ↦ realizes_onHeap _
  | _ => exact .look fun s ↦ realizes_onHeap _

theorem realizes_callMember {k : Nat} (object : Value) (member : String) (args : List Value) :
    Realizes k (Machine.callMember object member args) (.callMember object member args) := by
  unfold Machine.callMember Code.callMember
  cases object with
  | debug => exact .ite (.change (.value _)) (.fail _)
  | _ =>
    refine .onHeap fun result ↦ ?_
    cases result with
    | some result => exact .value result
    | none => exact .fail _

include heval

/-- An expression takes a step before it is evaluated one level below. -/
theorem realizes_eval_le {k : Nat} (hk : k ≤ n + 1) {f : Value → Machine Value}
    {next : Value → Code} (e : Expr) (h : ∀ v, Realizes k (f v) (next v)) :
    Realizes k (evaluate e >>= f) (.eval e next) := by
  intro stack s
  have evaluated : Settles (n + 1) (.running (.eval e next) stack s) (.resume next :: stack)
      (evaluate e s) :=
    .of_step (heval e _ s)
  exact (evaluated.mono hk).resume h

theorem realizes_eval {f : Value → Machine Value} {next : Value → Code} (e : Expr)
    (h : ∀ v, Realizes (n + 1) (f v) (next v)) :
    Realizes (n + 1) (evaluate e >>= f) (.eval e next) :=
  realizes_eval_le heval (Nat.le_refl _) e h

theorem realizes_evalAll (es : List Expr) {f : List Value → Machine Value}
    {next : List Value → Code} (h : ∀ vs, Realizes (n + 1) (f vs) (next vs)) :
    Realizes (n + 1) (Machine.evalAll evaluate es >>= f) (.evalAll es next) := by
  induction es generalizing f next with
  | nil => exact h []
  | cons e es ih =>
    simp only [Machine.evalAll, bind_assoc, pure_bind]
    exact realizes_eval heval e fun v ↦ ih fun vs ↦ h (v :: vs)

theorem realizes_bindParams (ps : List Param) (values : List Value) (frame : Scope)
    {f : Scope → Machine Value} {next : Scope → Code}
    (h : ∀ frame, Realizes (n + 1) (f frame) (next frame)) :
    Realizes (n + 1) (Machine.bindParams evaluate ps values frame >>= f)
      (.bindParams ps values frame next) := by
  induction ps generalizing values frame with
  | nil =>
    simp only [Machine.bindParams, Code.bindParams, pure_bind]
    exact h frame
  | cons p ps ih =>
    cases values with
    | cons v values => exact ih values _
    | nil =>
      simp only [Machine.bindParams, Code.bindParams]
      cases p.fallback with
      | some e =>
        simp only [bind_assoc]
        exact realizes_eval heval e fun v ↦ ih [] _
      | none =>
        simp only [pure_bind]
        exact ih [] _

include hexec

theorem realizes_enterCall (p : Procedure) (values : List Value) (args : List Expr) :
    Realizes (n + 1)
      (Machine.runProcedure evaluate execute p values >>= fun x ↦
        Machine.onEnv (Machine.copyBack x.1 p.params args) >>= fun _ ↦ Machine.finishCall p x.1 x.2)
      (.enterCall p values args) := by
  simp only [Machine.runProcedure, Machine.openFrame, bind_assoc, pure_bind]
  refine realizes_bindParams heval p.params values .empty fun frame ↦ ?_
  obtain ⟨kind, name, params, body⟩ := p
  cases kind with
  | function =>
    exact realizes_call hexec ⟨.function, name, params, body⟩ args (frame.set name .empty)
  | sub => exact realizes_call hexec ⟨.sub, name, params, body⟩ args frame

theorem realizes_invoke (p : Procedure) (args : List Expr) :
    Realizes (n + 1) (Machine.invoke evaluate execute p args) (.invoke p args) :=
  realizes_evalAll heval args fun values ↦ realizes_enterCall heval hexec p values args

theorem realizes_name (name : String) :
    Realizes (n + 1) (Machine.evalName evaluate execute name) (.name name) := by
  refine .look fun s ↦ ?_
  dsimp only
  cases s.env.get? name with
  | some v => exact .value v
  | none =>
    cases s.env.procedure? name with
    | some p => exact realizes_invoke heval hexec p []
    | none =>
      rw [← bind_pure (Machine.getOrDeclare name)]
      exact .getOrDeclare .value

theorem realizes_evalCall (callee : Expr) (args : List Expr) :
    Realizes (n + 1) (Machine.evalCall evaluate execute callee args) (.call callee args) := by
  unfold Machine.evalCall Code.call
  cases callee with
  | name name =>
    refine .look fun s ↦ ?_
    dsimp only
    cases s.env.procedure? name with
    | some p => exact realizes_invoke heval hexec p args
    | none =>
      cases s.env.get? name with
      | some target =>
        exact realizes_evalAll heval args fun values ↦ realizes_applyValue name target values
      | none => exact .fail _
  | member object property =>
    refine realizes_eval heval object fun object ↦ realizes_evalAll heval args fun values ↦ ?_
    exact realizes_callMember object property values
  | _ =>
    refine realizes_eval heval _ fun target ↦ realizes_evalAll heval args fun values ↦ ?_
    exact realizes_applyValue "expression" target values

theorem realizes_expr (e : Expr) :
    Realizes (n + 1) (Machine.evalExpr evaluate execute e) (.expr e) := by
  unfold Machine.evalExpr Code.expr
  cases e with
  | number x => exact .value _
  | text s => exact .value _
  | name name => exact realizes_name heval hexec name
  | unary op e => exact realizes_eval heval e fun v ↦ .value _
  | binary op l r =>
    refine realizes_eval heval l fun a ↦ realizes_eval heval r fun b ↦ .look fun s ↦ ?_
    exact realizes_onHeap _
  | call callee args => exact realizes_evalCall heval hexec callee args
  | member object property =>
    exact realizes_eval heval object fun object ↦ realizes_callMember object property []
  | new typeName => exact realizes_onHeap _

end Expressions

/-! ## Statements -/

theorem performs_done {n : Nat} : Performs n (pure ()) .done :=
  .value .empty

theorem performs_ite {n : Nat} {b : Prop} [Decidable b] {m m' : Machine Unit} {code code' : Code}
    (h : Performs n m code) (h' : Performs n m' code') :
    Performs n (if b then m else m') (if b then code else code') := by
  split
  · exact h
  · exact h'

theorem performs_eraseAll {n : Nat} (names : List String) :
    Performs n (Machine.eraseAll names) (.eraseAll names) := by
  induction names with
  | nil => exact performs_done
  | cons name names ih =>
    simp only [Performs, Machine.eraseAll, bind_assoc]
    exact .onHeap fun v ↦ .assign ih

section Statements

variable {n : Nat} {evaluate : Expr → Machine Value} {execute : Stmt → Machine Unit}
  (heval : ∀ e, Realizes n (evaluate e) (.expr e))
  (hexec : ∀ stmt, Performs n (execute stmt) (.stmt stmt))

section

include hexec

/-- A loop that is out of rounds has taken a step for each. -/
theorem performs_forRounds {rounds : Nat} (hn : rounds ≤ n) (counter : String) (limit step : Float)
    (body : List Stmt) :
    Performs (rounds + 1)
      (Machine.forRounds counter limit step (Machine.execAll execute body) rounds)
      (.forRound counter limit step body) := by
  induction rounds with
  | zero => exact fun stack s ↦ .lasts trivial
  | succ rounds ih =>
    have again := ih (Nat.le_of_succ_le hn)
    simp only [Performs, Machine.forRounds, bind_assoc]
    refine .getOrDeclare fun v ↦ performs_ite ?_ performs_done
    refine performs_round hexec (Nat.le_succ_of_le hn) (fun _ ↦ rfl) (fun _ ↦ rfl) ?_
    simp only [Performs, bind_assoc]
    exact .getOrDeclare fun v ↦ .assign again

include heval

theorem performs_whileRounds {rounds : Nat} (hn : rounds ≤ n) (condition : Expr)
    (body : List Stmt) :
    Performs (rounds + 1)
      (Machine.whileRounds (evaluate condition) (Machine.execAll execute body) rounds)
      (.whileRound condition body) := by
  induction rounds with
  | zero => exact fun stack s ↦ .lasts trivial
  | succ rounds ih =>
    have again := ih (Nat.le_of_succ_le hn)
    simp only [Performs, Machine.whileRounds, bind_assoc]
    refine realizes_eval_le heval (Nat.succ_le_succ hn) condition fun v ↦
      performs_ite ?_ performs_done
    exact performs_round hexec (Nat.le_succ_of_le hn) (fun _ ↦ rfl) (fun _ ↦ rfl) again

theorem performs_chooseBranch : (alternative : Alternative) →
    Performs (n + 1) (Machine.chooseBranch evaluate execute alternative) (.chooseBranch alternative)
  | .none => performs_done
  | .block body => realizes_execAll hexec body performs_done
  | .elseIf condition body alternative => by
    have otherwise := performs_chooseBranch alternative
    simp only [Performs, Machine.chooseBranch, Code.chooseBranch, bind_assoc]
    refine realizes_eval heval condition fun v ↦ performs_ite ?_ otherwise
    exact realizes_execAll hexec body performs_done

end

include heval

theorem realizes_evalStep (step : Option Expr) {f : Float → Machine Value} {next : Float → Code}
    (h : ∀ x, Realizes (n + 1) (f x) (next x)) :
    Realizes (n + 1) (Machine.evalStep evaluate step >>= f) (.evalStep step next) := by
  cases step with
  | none => exact h 1
  | some step =>
    simp only [Machine.evalStep, bind_assoc, pure_bind]
    exact realizes_eval heval step fun v ↦ h v.toNumber

theorem realizes_evalBound (bound : Expr) {f : Nat → Machine Value} {next : Nat → Code}
    (h : ∀ i, Realizes (n + 1) (f i) (next i)) :
    Realizes (n + 1) (Machine.evalBound evaluate bound >>= f) (.evalBound bound next) := by
  simp only [Machine.evalBound, bind_assoc]
  exact realizes_eval heval bound fun v ↦ .onHeap h

theorem realizes_evalBounds (bounds : List Expr) {f : List Nat → Machine Value}
    {next : List Nat → Code} (h : ∀ lengths, Realizes (n + 1) (f lengths) (next lengths)) :
    Realizes (n + 1) (Machine.evalBounds evaluate bounds >>= f) (.evalBounds bounds next) := by
  induction bounds generalizing f next with
  | nil => exact h []
  | cons bound bounds ih =>
    simp only [Machine.evalBounds, bind_assoc, pure_bind]
    exact realizes_evalBound heval bound fun i ↦ ih fun lengths ↦ h (i :: lengths)

theorem realizes_declaredValue (d : Declarator) {f : Value → Machine Value} {next : Value → Code}
    (h : ∀ v, Realizes (n + 1) (f v) (next v)) :
    Realizes (n + 1) (Machine.declaredValue evaluate d >>= f) (.declaredValue d next) := by
  unfold Machine.declaredValue Code.declaredValue
  cases d.bounds with
  | some bounds =>
    simp only [bind_assoc]
    exact realizes_evalBounds heval bounds fun lengths ↦ .onHeap h
  | none =>
    cases d.newObject with
    | some typeName => exact .onHeap h
    | none => exact h .empty

theorem performs_declareAll (ds : List Declarator) :
    Performs (n + 1) (Machine.declareAll evaluate ds) (.declareAll ds) := by
  induction ds with
  | nil => exact performs_done
  | cons d ds ih =>
    simp only [Performs, Machine.declareAll, bind_assoc]
    exact realizes_declaredValue heval d fun v ↦ .assign ih

theorem realizes_evalContainer (callee : Expr) {f : Value → Machine Value} {next : Value → Code}
    (h : ∀ v, Realizes (n + 1) (f v) (next v)) :
    Realizes (n + 1) (Machine.evalContainer evaluate callee >>= f)
      (.evalContainer callee next) := by
  cases callee with
  | name name => exact .getOrDeclare h
  | member object property =>
    simp only [Machine.evalContainer, Code.evalContainer]
    split
    · exact realizes_eval heval object h
    · exact realizes_eval heval _ h
  | _ => exact realizes_eval heval _ h

theorem performs_assignTo (target : Expr) (v : Value) :
    Performs (n + 1) (Machine.assignTo evaluate target v) (.assignTo target v) := by
  unfold Machine.assignTo Code.assignTo
  cases target with
  | name name => exact .assign performs_done
  | call callee args =>
    simp only [Performs, bind_assoc]
    refine realizes_evalContainer heval callee fun container ↦
      realizes_evalAll heval args fun indices ↦ ?_
    exact .onHeap fun _ ↦ performs_done
  | member object property =>
    simp only [Performs, bind_assoc]
    exact realizes_eval heval object fun object ↦ .fail _
  | _ => exact Realizes.fail _

include hexec

theorem performs_stmt (stmt : Stmt) :
    Performs (n + 1) (Machine.execStmt n evaluate execute stmt) (.stmt stmt) := by
  unfold Machine.execStmt Code.stmt
  cases stmt with
  | forLoop counter start stop step body closing =>
    simp only [Performs, bind_assoc]
    refine realizes_eval heval start fun start ↦ realizes_eval heval stop fun stop ↦ ?_
    refine realizes_evalStep heval step fun step ↦ .assign ?_
    exact performs_forRounds hexec (Nat.le_refl n) counter _ step body
  | ifThen condition body alternative =>
    exact performs_chooseBranch heval hexec (.elseIf condition body alternative)
  | doWhile condition body => exact performs_whileRounds heval hexec (Nat.le_refl n) condition body
  | procedure kind name params body => exact .onEnv performs_done
  | dim declarators => exact performs_declareAll heval declarators
  | const name e =>
    simp only [Performs, bind_assoc]
    exact realizes_eval heval e fun v ↦ .assign performs_done
  | set target e =>
    simp only [Performs, bind_assoc]
    exact realizes_eval heval e fun v ↦ performs_assignTo heval target v
  | assign target e =>
    simp only [Performs, bind_assoc]
    exact realizes_eval heval e fun v ↦ performs_assignTo heval target v
  | onError policy => exact .change performs_done
  | erase names => exact performs_eraseAll names
  | reDim name bounds preserve =>
    dsimp only
    cases bounds.getLast? with
    | some bound =>
      simp only [Performs, bind_assoc]
      exact realizes_evalBound heval bound fun length ↦ .onHeap fun v ↦ .assign performs_done
    | none =>
      simp only [Performs, bind_assoc, pure_bind]
      exact .onHeap fun v ↦ .assign performs_done
  | exit target => exact Realizes.exit target
  | label name => exact performs_done
  | option setting =>
    cases setting with
    | base i => exact .change performs_done
    | explicit => exact performs_done
    | compare mode => exact performs_done
  | call e =>
    change Performs _ (evaluate e >>= fun _ ↦ pure ()) _
    simp only [Performs, bind_assoc]
    exact realizes_eval heval e fun _ ↦ performs_done

end Statements

/-- The evaluator does what the machine does, with as many steps as its bound if that is used up. -/
theorem realizes_eval_exec (n : Nat) :
    (∀ e, Realizes n (Machine.eval n e) (.expr e)) ∧
      ∀ stmt, Performs n (Machine.exec n stmt) (.stmt stmt) := by
  induction n with
  | zero => exact ⟨fun e stack s ↦ .lasts trivial, fun stmt stack s ↦ .lasts trivial⟩
  | succ n ih =>
    obtain ⟨heval, hexec⟩ := ih
    exact ⟨realizes_expr heval hexec, performs_stmt heval hexec⟩

end MiniBasic.Control
