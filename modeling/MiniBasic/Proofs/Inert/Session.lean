import MiniBasic.Proofs.Control.Unwinding
import MiniBasic.Proofs.Inert.Effective

/-!
# Sessions without what has no effect

A program and what is left of it without its inert parts cannot be told apart by a host: whatever is
asked afterwards has the same outcomes and leaves the same variables, objects and lines, and if
something does not end after the one, it does not end after the other.

The evaluator spends its bound on inert statements like on all others, so the two runs are out of
step where the bound ends. `Lenient` runs execute an inert statement even then. These are in step,
and they do what the machine with an explicit stack does, as the evaluator does.
-/

namespace MiniBasic

open Control

namespace Machine.Lenient

/-- What a bound that is used up is still enough for. -/
def execInert : Stmt → Machine Unit
  | .onError _ => note .onErrorIgnored
  | .label _ => return
  | .option .explicit => return
  | .option (.compare _) => return
  | _ => throw .outOfFuel

mutual

/-- The value of an expression within a bound that is not spent on inert statements at its end. -/
def eval : Nat → Expr → Machine Value
  | 0, _ => throw .outOfFuel
  | fuel + 1, e => evalExpr (eval fuel) (exec fuel) e

def exec : Nat → Stmt → Machine Unit
  | 0, stmt => execInert stmt
  | fuel + 1, stmt => execStmt fuel (eval fuel) (exec fuel) stmt

end

/-- An inert statement is executed within every bound, and at most it leaves a notice. -/
theorem exec_inert {stmt : Stmt} (h : stmt.effective = none) (fuel : Nat) (s : State) :
    ∃ notices, exec fuel stmt s = .ok () { s with notices } := by
  cases stmt with
  | onError policy =>
    refine ⟨(s.noted .onErrorIgnored).notices, ?_⟩
    have noted : exec fuel (.onError policy) s = .ok () (s.noted .onErrorIgnored) := by
      cases fuel with
      | zero => rfl
      | succ fuel => rfl
    rw [noted]
    unfold State.noted
    split
    · rfl
    · rfl
  | label name => cases fuel <;> exact ⟨s.notices, rfl⟩
  | option setting =>
    cases setting with
    | base n => cases h
    | explicit => cases fuel <;> exact ⟨s.notices, rfl⟩
    | compare mode => cases fuel <;> exact ⟨s.notices, rfl⟩
  | _ => cases h

/-! ## The machine with an explicit stack -/

theorem performs_execInert (stmt : Stmt) : Performs 0 (execInert stmt) (.stmt stmt) := by
  cases stmt with
  | onError policy => exact Realizes.change performs_done
  | label name => exact performs_done
  | option setting =>
    cases setting with
    | base n => exact fun stack s ↦ .lasts trivial
    | explicit => exact performs_done
    | compare mode => exact performs_done
  | _ => exact fun stack s ↦ .lasts trivial

theorem realizes (n : Nat) :
    (∀ e, Realizes n (eval n e) (.expr e)) ∧ ∀ stmt, Performs n (exec n stmt) (.stmt stmt) := by
  induction n with
  | zero => exact ⟨fun e stack s ↦ .lasts trivial, performs_execInert⟩
  | succ n ih =>
    obtain ⟨heval, hexec⟩ := ih
    exact ⟨realizes_expr heval hexec, performs_stmt heval hexec⟩

/-! ## Two runs in step -/

section Simulated

variable {before before' : Array String}

theorem simulated_execAll {exec : Stmt → Machine Unit}
    (hinert : ∀ stmt, stmt.effective = none → ∀ s, ∃ notices, exec stmt s = .ok ()
      { s with notices })
    (hexec : ∀ stmt stmt', stmt.Alike id Reduced stmt' →
      Simulated id (State.Paired id Reduced before before') (exec stmt) (exec stmt'))
    {stmts stmts' : List Stmt} (h : Skips stmts stmts') :
    Simulated id (State.Paired id Reduced before before') (execAll exec stmts)
      (execAll exec stmts') := by
  induction h with
  | nil => exact .pure _
  | @skip stmt stmts stmts' inert _ ih =>
    intro w s t hs
    obtain ⟨notices, run⟩ := hinert stmt inert s
    change Ended _ _ _ (EStateM.bind (exec stmt) (fun _ ↦ execAll exec stmts) s) _
    unfold EStateM.bind
    rw [run]
    exact ih w _ t { hs with }
  | keep alike _ ih => exact (hexec _ _ alike).bind fun _ ↦ ih

theorem simulated_execInert {stmt stmt' : Stmt} (h : stmt.Alike id Reduced stmt') :
    Simulated id (State.Paired id Reduced before before') (execInert stmt) (execInert stmt') := by
  cases h with
  | onError policy policy' => exact simulated_note (State.simulation_paired Text.folding_id _ _) _
  | label name name' => exact .pure _
  | explicit => exact .pure _
  | compare mode mode' => exact .pure _
  | _ => exact .throw .outOfFuel

variable (before before') in
theorem simulated (fuel : Nat) :
    (∀ e e' : Expr, e.respell id = e'.respell id →
      Simulated id (State.Paired id Reduced before before') (eval fuel e) (eval fuel e')) ∧
      ∀ stmt stmt', stmt.Alike id Reduced stmt' →
        Simulated id (State.Paired id Reduced before before') (exec fuel stmt)
          (exec fuel stmt') := by
  induction fuel with
  | zero => exact ⟨fun _ _ _ ↦ .throw .outOfFuel, fun _ _ h ↦ simulated_execInert h⟩
  | succ fuel ih =>
    obtain ⟨heval, hexec⟩ := ih
    have sim := State.simulation_paired (B := Reduced) Text.folding_id before before'
    have hbody (body body' : List Stmt) (h : Reduced body body') :=
      simulated_execAll (fun _ inert ↦ exec_inert inert fuel) hexec h.skips
    exact ⟨fun _ _ h ↦ simulated_evalExpr sim heval hbody h,
      fun _ _ h ↦ simulated_execStmt sim heval hbody h fuel⟩

theorem simulated_defineAll {program program' : Program} (h : Skips program program') :
    Simulated id (State.Paired id Reduced before before') (defineAll program)
      (defineAll program') := by
  intro w s t hs
  refine .ok rfl ?_
  dsimp only
  induction h generalizing s t with
  | nil => exact hs
  | @skip stmt _ _ inert _ ih =>
    cases stmt with
    | procedure kind name params body => cases inert
    | _ => exact ih s t hs
  | keep alike _ ih =>
    cases alike with
    | procedure alike => exact ih _ _ (hs.define alike (congrArg Text.foldCase alike.name))
    | _ => exact ih s t hs

end Simulated

end Machine.Lenient

namespace Operation

/-- The same operation, perhaps of a program without what has no effect. -/
inductive Reduced : Operation → Operation → Prop
  | run {program program' : Program} (h : MiniBasic.Reduced program program') :
    Reduced (.run program) (.run program')
  | call (name : String) (args : List Value) : Reduced (.call name args) (.call name args)
  | evaluate (text : String) : Reduced (.evaluate text) (.evaluate text)

/-- The operation, by a lenient run. -/
def lenient (fuel : Nat) (op : Operation) : Machine Value :=
  op.through (Machine.Lenient.eval fuel) (Machine.Lenient.exec fuel)

/-- The operation ends within some bound. -/
def Ends (op : Operation) (s : State) (outcome : Outcome Value) (s' : State) : Prop :=
  (∃ fuel, op.perform fuel s = (outcome, s')) ∧ outcome ≠ .unfinished

/-- Lenient runs end as the evaluator does, though perhaps within other bounds. -/
theorem ends_iff_lenient (op : Operation) (s : State) (outcome : Outcome Value) (s' : State) :
    op.Ends s outcome s' ↔ (∃ fuel, (op.lenient fuel).finish s = (outcome, s')) ∧
      outcome ≠ .unfinished := by
  refine (perform_iff_reaches op s outcome s').trans
    (finish_iff_reaches (fun fuel ↦ ?_) s outcome s').symm
  obtain ⟨heval, hexec⟩ := Machine.Lenient.realizes fuel
  exact realizes_through heval hexec op

theorem Reduced.refl (op : Operation) : op.Reduced op := by
  cases op with
  | run program => exact .run (.inl rfl)
  | call name args => exact .call name args
  | evaluate text => exact .evaluate text

theorem Reduced.simulated {before before' : Array String} {op op' : Operation} (h : op.Reduced op')
    (fuel : Nat) :
    Simulated id (State.Paired id MiniBasic.Reduced before before') (op.lenient fuel)
      (op'.lenient fuel) := by
  obtain ⟨heval, hexec⟩ := Machine.Lenient.simulated before before' fuel
  have sim := State.simulation_paired (B := MiniBasic.Reduced) Text.folding_id before before'
  have hbody {body body' : List Stmt} (h : Skips body body') :=
    Machine.Lenient.simulated_execAll (fun _ inert ↦ Machine.Lenient.exec_inert inert fuel) hexec h
  cases h with
  | run h =>
    refine (Machine.Lenient.simulated_defineAll h.skips).bind fun _ ↦ ?_
    exact (hbody h.skips).bind fun _ ↦ .pure _
  | call name args =>
    refine .get fun w s t hs ↦ ?_
    have found := sim.procedure hs name
    generalize s.env.procedure? name = x at found ⊢
    generalize t.env.procedure? name = y at found ⊢
    cases found with
    | none => exact .raise rfl
    | some alike =>
      refine (Machine.simulated_runProcedure sim heval (fun _ _ h ↦ hbody h.skips) alike args).bind
        fun ended ↦ ?_
      exact Machine.simulated_finishCall sim.folding alike ended.1 ended.2
  | evaluate text =>
    simp only [lenient, through]
    cases parseExpression (Token.tokenize text) with
    | ok e => exact heval e e rfl
    | error e => exact .raise rfl

end Operation

/-! ## Sessions -/

/-- What a host can see of a state: the variables, the objects, the array base and the lines
printed. -/
structure Visible where
  globals : Scope
  frames : List Scope
  heap : Heap
  arrayBase : Nat
  output : Array String

namespace State

def visible (s : State) : Visible :=
  ⟨s.env.globals, s.env.frames, s.heap, s.arrayBase, s.output⟩

/-- The same can be seen in both states, and their procedures are the same but for what has no
effect. -/
structure Matches (s t : State) : Prop where
  visible : s.visible = t.visible
  procedures (key : String) :
    Option.Both (Procedure.Alike id Reduced) s.env.procedures[key]? t.env.procedures[key]?

theorem Matches.refl (s : State) : s.Matches s where
  visible := rfl
  procedures key := by
    cases s.env.procedures[key]? with
    | none => exact .none
    | some p => exact .some ⟨rfl, rfl, rfl, .inl rfl⟩

theorem Matches.paired {s t : State} (h : s.Matches t) :
    Paired id Reduced #[] #[] (s.env.frames.tail, s.env.frames.tail) s t where
  globals := congrArg Visible.globals h.visible
  innermost := congrArg (·.frames.head?) h.visible
  callers_left := rfl
  callers_right := congrArg (·.frames.tail) h.visible.symm
  procedures := h.procedures
  heap := congrArg Visible.heap h.visible
  arrayBase := congrArg Visible.arrayBase h.visible
  output := ⟨s.output, Array.empty_append.symm,
    (congrArg Visible.output h.visible.symm).trans Array.empty_append.symm⟩

theorem Paired.matches {callers : List Scope} {s t : State}
    (h : Paired id Reduced #[] #[] (callers, callers) s t) :
    s.Matches t where
  visible := by
    obtain ⟨lines, hs, ht⟩ := h.output
    have output : s.output = t.output := hs.trans ht.symm
    unfold State.visible
    rw [h.globals, h.frames_eq, h.heap, h.arrayBase, output]
  procedures := h.procedures

end State

namespace Operation

/-- Within the same bound, lenient runs of the two operations have the same outcome. -/
theorem Reduced.finish {op op' : Operation} (h : op.Reduced op') {s t : State} (hst : s.Matches t)
    (fuel : Nat) :
    ((op.lenient fuel).finish s).1 = ((op'.lenient fuel).finish t).1 ∧
      ((op.lenient fuel).finish s).2.Matches ((op'.lenient fuel).finish t).2 := by
  have run := h.simulated fuel _ s t hst.paired
  unfold Machine.finish
  generalize op.lenient fuel s = x at run ⊢
  generalize op'.lenient fuel t = y at run ⊢
  cases run with
  | ok result state => exact ⟨congrArg Outcome.done result, state.matches⟩
  | error error state =>
    cases error with
    | exit target => exact ⟨rfl, state.matches⟩
    | error same =>
      rw [RuntimeError.respell_id, RuntimeError.respell_id] at same
      exact ⟨congrArg Outcome.failed same, state.matches⟩
    | outOfFuel => exact ⟨rfl, state.matches⟩

/-- The two operations end with the same outcomes, in states that match. -/
theorem Reduced.ends {op op' : Operation} (h : op.Reduced op') {s t : State} (hst : s.Matches t)
    (outcome : Outcome Value) :
    (∀ s', op.Ends s outcome s' → ∃ t', op'.Ends t outcome t' ∧ s'.Matches t') ∧
      ∀ t', op'.Ends t outcome t' → ∃ s', op.Ends s outcome s' ∧ s'.Matches t' := by
  simp only [ends_iff_lenient]
  constructor
  · rintro s' ⟨⟨fuel, run⟩, finished⟩
    obtain ⟨same, state⟩ := h.finish hst fuel
    rw [run] at same state
    exact ⟨((op'.lenient fuel).finish t).2, ⟨⟨fuel, Prod.ext same.symm rfl⟩, finished⟩, state⟩
  · rintro t' ⟨⟨fuel, run⟩, finished⟩
    obtain ⟨same, state⟩ := h.finish hst fuel
    rw [run] at same state
    exact ⟨((op.lenient fuel).finish s).2, ⟨⟨fuel, Prod.ext same rfl⟩, finished⟩, state⟩

/-- A host performs operations one after the other, and all of them end. -/
inductive Session : List Operation → State → List (Outcome Value) → State → Prop
  | nil (s : State) : Session [] s [] s
  | cons {op : Operation} {ops : List Operation} {s s' s'' : State} {outcome : Outcome Value}
    {outcomes : List (Outcome Value)} (first : op.Ends s outcome s')
    (rest : Session ops s' outcomes s'') :
    Session (op :: ops) s (outcome :: outcomes) s''

/-- Sessions of operations that are the same but for what has no effect. -/
theorem session_reduced {ops ops' : List Operation} (h : List.Forall₂ Reduced ops ops')
    {s t : State} (hst : s.Matches t) (outcomes : List (Outcome Value)) :
    (∀ s', Session ops s outcomes s' → ∃ t', Session ops' t outcomes t' ∧ s'.Matches t') ∧
      ∀ t', Session ops' t outcomes t' → ∃ s', Session ops s outcomes s' ∧ s'.Matches t' := by
  induction h generalizing s t outcomes with
  | nil =>
    constructor
    · rintro s' ⟨⟩
      exact ⟨t, .nil t, hst⟩
    · rintro t' ⟨⟩
      exact ⟨s, .nil s, hst⟩
  | cons head _ ih =>
    constructor
    · rintro s'' (⟨⟩ | ⟨first, rest⟩)
      obtain ⟨t', first', matched⟩ := (head.ends hst _).1 _ first
      obtain ⟨t'', rest', last⟩ := (ih matched _).1 _ rest
      exact ⟨t'', .cons first' rest', last⟩
    · rintro t'' (⟨⟩ | ⟨first, rest⟩)
      obtain ⟨s', first', matched⟩ := (head.ends hst _).2 _ first
      obtain ⟨s'', rest', last⟩ := (ih matched _).2 _ rest
      exact ⟨s'', .cons first' rest', last⟩

/-- What has no effect in a program has none on a session. A host that runs a program in any state,
and then does whatever it likes, gets the same outcomes and sees the same in the end as if all of
that were taken out of the program; and if an operation does not end in the one session, it does not
end in the other. -/
theorem session_effective (program : Program) (ops : List Operation) (s : State)
    (outcomes : List (Outcome Value)) (seen : Visible) :
    (∃ s', Session (.run program :: ops) s outcomes s' ∧ s'.visible = seen) ↔
      ∃ s', Session (.run (effectiveAll program) :: ops) s outcomes s' ∧ s'.visible = seen := by
  have reduced : List.Forall₂ Reduced (.run program :: ops) (.run (effectiveAll program) :: ops) :=
    .cons (.run (.inr rfl)) (List.forall₂_same.mpr fun op _ ↦ .refl op)
  obtain ⟨forth, back⟩ := session_reduced reduced (.refl s) outcomes
  constructor
  · rintro ⟨s', session, rfl⟩
    obtain ⟨t', session', matched⟩ := forth s' session
    exact ⟨t', session', matched.visible.symm⟩
  · rintro ⟨t', session, rfl⟩
    obtain ⟨s', session', matched⟩ := back t' session
    exact ⟨s', session', matched.visible⟩

end Operation

end MiniBasic
