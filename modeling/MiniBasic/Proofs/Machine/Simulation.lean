import MiniBasic.Machine.Execute
import MiniBasic.Proofs.Spelling.Heap

/-!
# Simulation of runs

Two runs of programs that are alike, from states that are alike, go through the same steps. What
"alike" has to mean for states is left open here: `Simulation` lists what the rules of the machine
ask of the relation, and the lemmas after it go through the rules once. A relation may depend on a
world, which changes only when a call is entered; so it can speak about the frames of the callers.

Bodies of procedures are compared by a relation `B` of the user's choice. The rules for expressions
and for single statements do not depend on it.
-/

namespace MiniBasic

/-- Two procedures with the same parameters, up to spelling, and bodies related by `B`. -/
structure Procedure.Alike (f : String → String) (B : List Stmt → List Stmt → Prop)
    (p q : Procedure) : Prop where
  kind : p.kind = q.kind
  name : f p.name = f q.name
  params : p.params.map (·.respell f) = q.params.map (·.respell f)
  body : B p.body q.body

/-- What relates two optional things: both or neither are there. -/
inductive Option.Both {α : Type} (R : α → α → Prop) : Option α → Option α → Prop
  | none : Both R none none
  | some {a b : α} (h : R a b) : Both R (some a) (some b)

/-- The same way of being interrupted, up to the spelling of an error. -/
inductive Interrupt.Alike (f : String → String) : Interrupt → Interrupt → Prop
  | exit (target : ExitTarget) : Alike f (.exit target) (.exit target)
  | error {d e : RuntimeError} (h : d.respell f = e.respell f) : Alike f (.error d) (.error e)
  | outOfFuel : Alike f .outOfFuel .outOfFuel

/-- The state after a notice has been taken note of. -/
def State.noted (s : State) (n : Notice) : State :=
  if n ∈ s.notices then s else { s with notices := s.notices ++ [n] }

/-- What the rules of the machine ask of a relation between the states of two runs, in a world. -/
structure Simulation (f : String → String) (B : List Stmt → List Stmt → Prop) {W : Type}
    (I : W → State → State → Prop) : Prop where
  folding : Text.Folding f
  lookup {w : W} {s t : State} : I w s t → ∀ n, s.env.get? n = t.env.get? n
  procedure {w : W} {s t : State} : I w s t → ∀ n,
    Option.Both (Procedure.Alike f B) (s.env.procedure? n) (t.env.procedure? n)
  heap {w : W} {s t : State} : I w s t → s.heap = t.heap
  arrayBase {w : W} {s t : State} : I w s t → s.arrayBase = t.arrayBase
  assign {w : W} {s t : State} : I w s t → ∀ n v,
    I w { s with env := s.env.assign n v } { t with env := t.env.assign n v }
  declare {w : W} {s t : State} : I w s t → ∀ n v, s.env.get? n = none →
    I w { s with env := s.env.declare n v } { t with env := t.env.declare n v }
  define {w : W} {s t : State} {p q : Procedure} : I w s t → p.Alike f B q →
    I w { s with env := s.env.defineProcedure p } { t with env := t.env.defineProcedure q }
  setHeap {w : W} {s t : State} : I w s t → ∀ h, I w { s with heap := h } { t with heap := h }
  setBase {w : W} {s t : State} : I w s t → ∀ n,
    I w { s with arrayBase := n } { t with arrayBase := n }
  print {w : W} {s t : State} : I w s t → ∀ line,
    I w { s with output := s.output.push line } { t with output := t.output.push line }
  note {w : W} {s t : State} : I w s t → ∀ n, I w (s.noted n) (t.noted n)
  /-- A call is entered in a world of its own, from which the world of the caller is recovered. -/
  call {w : W} {s t : State} : I w s t → ∀ frame, ∃ v,
    I v { s with env := s.env.push frame } { t with env := t.env.push frame } ∧
    ∀ s' t', I v s' t' → s'.env.pop.1 = t'.env.pop.1 ∧
      I w { s' with env := s'.env.pop.2 } { t' with env := t'.env.pop.2 }

/-- Two runs give the same result, or are interrupted in the same way up to spelling, in every
world. -/
def Simulated (f : String → String) {W : Type} (I : W → State → State → Prop) {α : Type}
    (m m' : Machine α) : Prop :=
  ∀ w, Related (I w) (Interrupt.Alike f) Eq m m'

variable {f : String → String} {B : List Stmt → List Stmt → Prop} {W : Type}
  {I : W → State → State → Prop} {α β : Type}

namespace Simulated

theorem pure (a : α) : Simulated f I (Pure.pure a : Machine α) (Pure.pure a) :=
  fun _ ↦ Related.pure rfl

theorem throw {i j : Interrupt} (h : i.Alike f j) :
    Simulated f I (MonadExcept.throw i : Machine α) (MonadExcept.throw j) :=
  fun _ ↦ Related.throw h

theorem raise {d e : RuntimeError} (h : d.respell f = e.respell f) :
    Simulated f I (Machine.raise d : Machine α) (Machine.raise e) :=
  throw (.error h)

theorem bind {m m' : Machine α} {k k' : α → Machine β} (hm : Simulated f I m m')
    (hk : ∀ a, Simulated f I (k a) (k' a)) : Simulated f I (m >>= k) (m' >>= k') := by
  intro w
  refine Related.bind (hm w) ?_
  rintro a _ rfl
  exact hk a w

theorem ite {c : Prop} [Decidable c] {m m' l l' : Machine α} (hm : Simulated f I m m')
    (hl : Simulated f I l l') : Simulated f I (if c then m else l) (if c then m' else l') := by
  split
  · exact hm
  · exact hl

/-- A run that starts by looking at its state. -/
theorem get {k k' : State → Machine α}
    (h : ∀ w s t, I w s t → Simulated f I (k s) (k' t)) :
    Simulated f I (MonadState.get >>= k) (MonadState.get >>= k') :=
  fun w ↦ Related.get fun s t hs ↦ h w s t hs w s t hs

end Simulated

namespace Machine

open Heap (Action)

/-! ## Single steps -/

theorem simulated_leaving (target : ExitTarget) {m m' : Machine Unit} (h : Simulated f I m m') :
    Simulated f I (leaving target m) (leaving target m') := by
  intro w s t hs
  have run := h w s t hs
  unfold leaving
  generalize m s = x at run ⊢
  generalize m' t = y at run ⊢
  cases run with
  | ok result state => exact .ok rfl state
  | error error state =>
    cases error with
    | exit t =>
      dsimp only
      split
      · exact .ok rfl state
      · exact .error (.exit t) state
    | error h => exact .error (.error h) state
    | outOfFuel => exact .error .outOfFuel state

section Steps

variable (sim : Simulation f B I)
include sim

theorem simulated_onHeap {a a' : Action α} (h : Action.Alike f a a') :
    Simulated f I (onHeap a) (onHeap a') := by
  intro w s t hs
  have heap := sim.heap hs
  obtain ⟨env, heap₁, base, output, notices⟩ := s
  obtain ⟨env', heap₂, base', output', notices'⟩ := t
  obtain rfl : heap₁ = heap₂ := heap
  have run := h heap₁ heap₁ rfl
  unfold onHeap
  dsimp only
  generalize a heap₁ = x at run ⊢
  generalize a' heap₁ = y at run ⊢
  cases run with
  | ok result state =>
    subst result state
    exact .ok rfl (sim.setHeap hs _)
  | error error state =>
    subst state
    exact .error (.error error) (sim.setHeap hs _)

theorem simulated_assign {a b : String} (h : f a = f b) (value : Value) :
    Simulated f I (assign a value) (assign b value) := by
  intro w s t hs
  unfold assign
  rw [funext fun env ↦ Environment.assign_sameName (sim.folding.sameName h) env value]
  exact .ok rfl (sim.assign hs b value)

theorem simulated_getOrDeclare {a b : String} (h : f a = f b) :
    Simulated f I (getOrDeclare a) (getOrDeclare b) := by
  intro w s t hs
  have look := sim.lookup hs b
  change Ended _ _ _
    (.ok (s.env.getOrDeclare a).1 { s with env := (s.env.getOrDeclare a).2 })
    (.ok (t.env.getOrDeclare b).1 { t with env := (t.env.getOrDeclare b).2 })
  rw [Environment.getOrDeclare_sameName (sim.folding.sameName h) s.env]
  unfold Environment.getOrDeclare
  cases found : s.env.get? b with
  | some v =>
    rw [← look, found]
    exact .ok rfl hs
  | none =>
    rw [← look, found]
    exact .ok rfl (sim.declare hs b _ found)

theorem simulated_print (values : List Value) : Simulated f I (print values) (print values) := by
  intro w s t hs
  have texts : s.heap.text = t.heap.text := congrArg Heap.text (sim.heap hs)
  refine .ok rfl ?_
  dsimp only
  rw [texts]
  exact sim.print hs _

theorem simulated_note (n : Notice) : Simulated f I (note n) (note n) :=
  fun _ _ _ hs ↦ .ok rfl (sim.note hs n)

theorem simulated_define {p q : Procedure} (h : p.Alike f B q) :
    Simulated f I (onEnv (·.defineProcedure p)) (onEnv (·.defineProcedure q)) :=
  fun _ _ _ hs ↦ .ok rfl (sim.define hs h)

theorem simulated_applyValue {a b : String} (h : f a = f b) (target : Value) (args : List Value) :
    Simulated f I (applyValue a target args) (applyValue b target args) := by
  unfold applyValue
  cases target with
  | native g =>
    refine .get fun w s t hs ↦ ?_
    rw [sim.arrayBase hs]
    exact simulated_onHeap sim (Action.Alike.refl _)
  | _ =>
    refine .get fun w s t hs ↦ ?_
    rw [sim.heap hs]
    exact simulated_onHeap sim (.ofExcept (Action.sameExcept_read h _ _ _))

theorem simulated_callMember {a b : String} (h : f a = f b) (object : Value) (args : List Value) :
    Simulated f I (callMember object a args) (callMember object b args) := by
  have same := sim.folding.sameName h
  unfold callMember
  cases object with
  | debug =>
    simp only [Text.sameWord, same]
    refine .ite ?_ ?_
    · exact (simulated_print sim args).bind fun _ ↦ .pure _
    · exact .raise (by simp only [RuntimeError.respell, h])
  | _ =>
    simp only [Action.callMethod?_sameName same]
    refine (simulated_onHeap sim (Action.Alike.refl _)).bind fun result ↦ ?_
    cases result with
    | some value => exact .pure value
    | none => exact .raise (by simp only [RuntimeError.respell, h])

/-- Running a body in a frame of its own keeps the two runs together: the frame at the end is the
same, and behind the call the world of the caller is back. -/
theorem simulated_inFrame (frame : Scope) {m m' : Machine Unit} (h : Simulated f I m m') :
    Simulated f I (inFrame frame m) (inFrame frame m') := by
  intro w s t hs
  obtain ⟨v, entered, left⟩ := sim.call hs frame
  have run := h v _ _ entered
  unfold inFrame
  generalize m _ = x at run ⊢
  generalize m' _ = y at run ⊢
  cases run with
  | ok result state =>
    obtain ⟨frames, back⟩ := left _ _ state
    exact .ok (congrArg (·, none) frames) back
  | error error state =>
    obtain ⟨frames, back⟩ := left _ _ state
    cases error with
    | exit target => exact .ok (congrArg (·, some target) frames) back
    | error h => exact .error (.error h) back
    | outOfFuel => exact .error .outOfFuel back

end Steps

/-! ## Calls and expressions -/

section Rules

variable (sim : Simulation f B I)
variable {eval eval' : Expr → Machine Value} {exec exec' : Stmt → Machine Unit}
variable (heval : ∀ e e' : Expr, e.respell f = e'.respell f → Simulated f I (eval e) (eval' e'))
variable (hexec : ∀ body body', B body body' →
  Simulated f I (execAll exec body) (execAll exec' body'))

include heval in
theorem simulated_evalAll {es es' : List Expr}
    (h : es.map (·.respell f) = es'.map (·.respell f)) :
    Simulated f I (evalAll eval es) (evalAll eval' es') := by
  induction es generalizing es' with
  | nil =>
    obtain rfl : es' = [] := List.map_eq_nil_iff.mp h.symm
    exact .pure _
  | cons e es ih =>
    obtain ⟨e', es', rfl, he, hes⟩ := List.map_eq_cons_iff.mp h.symm
    exact (heval e e' he.symm).bind fun v ↦ (ih hes.symm).bind fun vs ↦ .pure _

include sim heval in
theorem simulated_bindParams {ps qs : List Param}
    (h : ps.map (·.respell f) = qs.map (·.respell f)) (args : List Value) (frame : Scope) :
    Simulated f I (bindParams eval ps args frame) (bindParams eval' qs args frame) := by
  induction ps generalizing qs args frame with
  | nil =>
    obtain rfl : qs = [] := List.map_eq_nil_iff.mp h.symm
    exact .pure _
  | cons p ps ih =>
    obtain ⟨q, qs, rfl, hq, hqs⟩ := List.map_eq_cons_iff.mp h.symm
    obtain ⟨name, -, fallback⟩ := Param.respell_eq hq
    have bound (v : Value) : frame.set p.name v = frame.set q.name v :=
      Scope.set_sameName (sim.folding.sameName name.symm) frame v
    cases args with
    | cons v vs =>
      simp only [bindParams, bound]
      exact ih hqs.symm vs _
    | nil =>
      simp only [bindParams, bound]
      cases hp : p.fallback with
      | none =>
        rw [hp] at fallback
        rw [Option.map_eq_none_iff.mp fallback]
        exact .bind (.pure _) fun v ↦ ih hqs.symm [] _
      | some e =>
        rw [hp] at fallback
        obtain ⟨e', he', same⟩ := Option.map_eq_some_iff.mp fallback
        rw [he']
        exact .bind (heval e e' same.symm) fun v ↦ ih hqs.symm [] _

include sim heval in
theorem simulated_openFrame {p q : Procedure} (h : p.Alike f B q) (args : List Value) :
    Simulated f I (openFrame eval p args) (openFrame eval' q args) := by
  refine (simulated_bindParams sim heval h.params args .empty).bind fun frame ↦ ?_
  rw [h.kind, Scope.set_sameName (sim.folding.sameName h.name)]
  cases q.kind <;> exact .pure _

include sim heval hexec in
theorem simulated_runProcedure {p q : Procedure} (h : p.Alike f B q) (args : List Value) :
    Simulated f I (runProcedure eval exec p args) (runProcedure eval' exec' q args) := by
  refine (simulated_openFrame sim heval h args).bind fun frame ↦ ?_
  refine (simulated_inFrame sim frame (hexec _ _ h.body)).bind fun ended ↦ ?_
  rw [h.kind]
  exact .pure _

theorem simulated_finishCall (hf : Text.Folding f) {p q : Procedure} (h : p.Alike f B q)
    (frame : Scope) (left : Option ExitTarget) :
    Simulated f I (finishCall p frame left) (finishCall q frame left) := by
  cases left with
  | some target => exact .throw (.exit target)
  | none =>
    have same : returnValue p frame = returnValue q frame := by
      rw [returnValue, returnValue, h.kind, Scope.get?_sameName (hf.sameName h.name)]
    rw [finishCall, finishCall, same]
    exact .pure _

/-- The two environments get the same values back, in variables that differ in spelling only. -/
theorem copyBackOne_sameName (hf : Text.Folding f) {p q : Param} (hp : p.respell f = q.respell f)
    {e e' : Expr} (he : e.respell f = e'.respell f) (frame : Scope) (env : Environment) :
    copyBackOne frame p e env = copyBackOne frame q e' env := by
  obtain ⟨name, byValue, -⟩ := Param.respell_eq hp
  unfold copyBackOne
  rw [byValue, Scope.get?_sameName (hf.sameName name)]
  cases q.byValue with
  | true => rfl
  | false =>
    cases e <;> cases e' <;> simp only [Expr.respell, reduceCtorEq, Expr.name.injEq] at he
    case name.name n n' =>
      have same := hf.sameName he
      have constant : isIntrinsicConstant n = isIntrinsicConstant n' := by
        rw [isIntrinsicConstant, isIntrinsicConstant, same]
      dsimp only
      rw [constant, Environment.get?_sameName same]
      simp only [Environment.assign_sameName same]
    all_goals rfl

include sim in
theorem simulated_copyBack {ps qs : List Param} (hps : ps.map (·.respell f) = qs.map (·.respell f))
    {es es' : List Expr} (hes : es.map (·.respell f) = es'.map (·.respell f)) (frame : Scope) :
    Simulated f I (onEnv (copyBack frame ps es)) (onEnv (copyBack frame qs es')) := by
  induction ps generalizing qs es es' with
  | nil =>
    obtain rfl : qs = [] := List.map_eq_nil_iff.mp hps.symm
    exact fun w s t hs ↦ .ok rfl (by simpa only [copyBack] using hs)
  | cons p ps ih =>
    obtain ⟨q, qs, rfl, hq, hqs⟩ := List.map_eq_cons_iff.mp hps.symm
    cases es with
    | nil =>
      obtain rfl : es' = [] := List.map_eq_nil_iff.mp hes.symm
      exact fun w s t hs ↦ .ok rfl (by simpa only [copyBack] using hs)
    | cons e es =>
      obtain ⟨e', es', rfl, he, hes⟩ := List.map_eq_cons_iff.mp hes.symm
      intro w s t hs
      have one : I w { s with env := copyBackOne frame p e s.env }
          { t with env := copyBackOne frame q e' t.env } := by
        rw [copyBackOne_sameName sim.folding hq.symm he.symm]
        unfold copyBackOne
        cases q.byValue with
        | true => exact hs
        | false =>
          cases e' with
          | name n =>
            dsimp only
            rw [sim.lookup hs n]
            cases isIntrinsicConstant n || (t.env.get? n).isNone with
            | true => exact hs
            | false =>
              cases frame.get? q.name with
              | some v => exact sim.assign hs n v
              | none => exact hs
          | _ => exact hs
      exact ih hqs.symm hes.symm w _ _ one

include sim heval hexec in
theorem simulated_invoke {p q : Procedure} (h : p.Alike f B q) {es es' : List Expr}
    (hes : es.map (·.respell f) = es'.map (·.respell f)) :
    Simulated f I (invoke eval exec p es) (invoke eval' exec' q es') := by
  refine (simulated_evalAll heval hes).bind fun values ↦ ?_
  refine (simulated_runProcedure sim heval hexec h values).bind fun ended ↦ ?_
  refine (simulated_copyBack sim h.params hes ended.1).bind fun _ ↦ ?_
  exact simulated_finishCall sim.folding h ended.1 ended.2

include sim heval hexec in
theorem simulated_evalName {a b : String} (h : f a = f b) :
    Simulated f I (evalName eval exec a) (evalName eval' exec' b) := by
  have same := sim.folding.sameName h
  refine .get fun w s t hs ↦ ?_
  dsimp only
  rw [Environment.get?_sameName same, Environment.procedure?_sameName same, sim.lookup hs b]
  cases t.env.get? b with
  | some v => exact .pure v
  | none =>
    have found := sim.procedure hs b
    generalize s.env.procedure? b = x at found ⊢
    generalize t.env.procedure? b = y at found ⊢
    cases found with
    | some alike => exact simulated_invoke sim heval hexec alike rfl
    | none => exact simulated_getOrDeclare sim h

include sim heval hexec in
/-- Call syntax on a name: a procedure, else the element of a variable. -/
theorem simulated_evalCall_name {a b : String} (h : f a = f b) {es es' : List Expr}
    (hes : es.map (·.respell f) = es'.map (·.respell f)) :
    Simulated f I (evalCall eval exec (.name a) es) (evalCall eval' exec' (.name b) es') := by
  have same := sim.folding.sameName h
  refine .get fun w s t hs ↦ ?_
  have found := sim.procedure hs b
  dsimp only
  rw [Environment.procedure?_sameName same, Environment.get?_sameName same, sim.lookup hs b]
  generalize s.env.procedure? b = x at found ⊢
  generalize t.env.procedure? b = y at found ⊢
  cases found with
  | some alike => exact simulated_invoke sim heval hexec alike hes
  | none =>
    cases t.env.get? b with
    | some target =>
      exact (simulated_evalAll heval hes).bind fun values ↦ simulated_applyValue sim h target values
    | none => exact .raise (by simp only [RuntimeError.respell, h])

include sim heval hexec in
theorem simulated_evalCall {callee callee' : Expr} (h : callee.respell f = callee'.respell f)
    {es es' : List Expr} (hes : es.map (·.respell f) = es'.map (·.respell f)) :
    Simulated f I (evalCall eval exec callee es) (evalCall eval' exec' callee' es') := by
  have onValue : Simulated f I
      (do
        let target ← eval callee; let values ← evalAll eval es; applyValue "expression"
            target values)
      (do let target ← eval' callee'; let values ← evalAll eval' es'
          applyValue "expression" target values) :=
    (heval _ _ h).bind fun target ↦ (simulated_evalAll heval hes).bind fun values ↦
      simulated_applyValue sim rfl target values
  cases callee <;> cases callee' <;>
    simp only [Expr.respell, reduceCtorEq, Expr.name.injEq, Expr.member.injEq] at h
  case name.name a b => exact simulated_evalCall_name sim heval hexec h hes
  case member.member object property object' property' =>
    refine (heval _ _ h.1).bind fun value ↦ ?_
    exact (simulated_evalAll heval hes).bind fun values ↦ simulated_callMember sim h.2 value values
  all_goals exact onValue

include sim heval hexec in
/-- Expressions that are alike have the same value. -/
theorem simulated_evalExpr {e e' : Expr} (h : e.respell f = e'.respell f) :
    Simulated f I (evalExpr eval exec e) (evalExpr eval' exec' e') := by
  cases e <;> cases e' <;> simp only [Expr.respell, reduceCtorEq, Expr.number.injEq,
    Expr.text.injEq, Expr.name.injEq, Expr.unary.injEq, Expr.binary.injEq, Expr.call.injEq,
    Expr.member.injEq, Expr.new.injEq] at h
  case number.number => rw [h]; exact .pure _
  case text.text => rw [h]; exact .pure _
  case name.name => exact simulated_evalName sim heval hexec h
  case unary.unary =>
    obtain ⟨rfl, operand⟩ := h
    exact (heval _ _ operand).bind fun v ↦ .pure _
  case binary.binary =>
    obtain ⟨rfl, left, right⟩ := h
    refine (heval _ _ left).bind fun a ↦ (heval _ _ right).bind fun b ↦ .get fun w s t hs ↦ ?_
    rw [sim.heap hs]
    exact simulated_onHeap sim (Action.Alike.refl _)
  case call.call => exact simulated_evalCall sim heval hexec h.1 h.2
  case member.member =>
    exact (heval _ _ h.1).bind fun object ↦ simulated_callMember sim h.2 object []
  case new.new => exact simulated_onHeap sim (.instantiate sim.folding h)

end Rules

end Machine

end MiniBasic
