import MiniBasic.Proofs.Machine.Frames

/-!
# Callees do not see their callers

Two states are paired if a run can tell them apart only by the frames of callers, which it never
looks at: the globals, the innermost frames, the heap and the array base are the same, and the
procedures are alike. A run takes paired states to paired states and prints the same lines.
-/

namespace MiniBasic

/-- The states of two runs side by side. In the world, the frames of the callers in both; `before`
and `before'` are the lines that had been printed at the start. -/
structure State.Paired (f : String → String) (B : List Stmt → List Stmt → Prop)
    (before before' : Array String) (callers : List Scope × List Scope) (s t : State) : Prop where
  globals : s.env.globals = t.env.globals
  innermost : s.env.frames.head? = t.env.frames.head?
  callers_left : s.env.frames.tail = callers.1
  callers_right : t.env.frames.tail = callers.2
  procedures (key : String) :
    Option.Both (Procedure.Alike f B) s.env.procedures[key]? t.env.procedures[key]?
  heap : s.heap = t.heap
  arrayBase : s.arrayBase = t.arrayBase
  output : ∃ lines, s.output = before ++ lines ∧ t.output = before' ++ lines

namespace Environment

/-- Binding a name needs the globals and the innermost frame only. -/
theorem declare_paired {env env' : Environment} (hg : env.globals = env'.globals)
    (hf : env.frames.head? = env'.frames.head?) (name : String) (value : Value) :
    (env.declare name value).globals = (env'.declare name value).globals ∧
      (env.declare name value).frames.head? = (env'.declare name value).frames.head? := by
  obtain ⟨globals, frames, procedures⟩ := env
  obtain ⟨globals', frames', procedures'⟩ := env'
  obtain rfl : globals = globals' := hg
  cases frames with
  | nil =>
    obtain rfl : frames' = [] := List.head?_eq_none_iff.mp hf.symm
    exact ⟨rfl, rfl⟩
  | cons frame frames =>
    obtain ⟨rest, rfl⟩ : ∃ rest, frames' = frame :: rest := List.head?_eq_some_iff.mp hf.symm
    exact ⟨rfl, rfl⟩

theorem assign_paired {env env' : Environment} (hg : env.globals = env'.globals)
    (hf : env.frames.head? = env'.frames.head?) (name : String) (value : Value) :
    (env.assign name value).globals = (env'.assign name value).globals ∧
      (env.assign name value).frames.head? = (env'.assign name value).frames.head? := by
  unfold assign
  rw [hg, hf]
  split
  · exact declare_paired hg hf name value
  · split
    · exact ⟨congrArg (·.set name value) hg, hf⟩
    · exact declare_paired hg hf name value

theorem declare_procedures (env : Environment) (name : String) (value : Value) :
    (env.declare name value).procedures = env.procedures := by
  unfold declare
  cases env.frames <;> rfl

theorem assign_procedures (env : Environment) (name : String) (value : Value) :
    (env.assign name value).procedures = env.procedures := by
  unfold assign
  split
  · exact env.declare_procedures name value
  · split
    · rfl
    · exact env.declare_procedures name value

theorem getOrDeclare_procedures (env : Environment) (name : String) :
    (env.getOrDeclare name).2.procedures = env.procedures := by
  unfold getOrDeclare
  split
  · rfl
  · exact env.declare_procedures name _

/-- What assignments keep is kept when parameters are copied back. -/
theorem copyBack_induction {P : Environment → Prop}
    (assigned : ∀ (env : Environment) (n : String) (v : Value), P env → P (env.assign n v))
    (frame : Scope) (params : List Param) (args : List Expr) {env : Environment} (h : P env) :
    P (Machine.copyBack frame params args env) := by
  induction params generalizing args env with
  | nil => exact h
  | cons p ps ih =>
    cases args with
    | nil => exact h
    | cons arg args =>
      apply ih
      unfold Machine.copyBackOne
      split
      · split
        · exact h
        · split
          · exact assigned env _ _ h
          · exact h
      · exact h

theorem copyBack_procedures (frame : Scope) (params : List Param) (args : List Expr)
    (env : Environment) :
    (Machine.copyBack frame params args env).procedures = env.procedures :=
  copyBack_induction (P := fun env' ↦ env'.procedures = env.procedures)
    (fun env' n v h ↦ (env'.assign_procedures n v).trans h) frame params args rfl

end Environment

namespace State

variable {f : String → String} {B : List Stmt → List Stmt → Prop} {before before' : Array String}
  {w : List Scope × List Scope} {s t : State}

/-- A change of the environment that keeps the procedures and the callers, and that does the same to
both sides. -/
theorem Paired.setEnv (h : Paired f B before before' w s t) {env env' : Environment}
    (hg : env.globals = env'.globals) (hi : env.frames.head? = env'.frames.head?)
    (hl : env.frames.tail = s.env.frames.tail) (hr : env'.frames.tail = t.env.frames.tail)
    (hp : env.procedures = s.env.procedures) (hq : env'.procedures = t.env.procedures) :
    Paired f B before before' w { s with env } { t with env := env' } where
  globals := hg
  innermost := hi
  callers_left := hl.trans h.callers_left
  callers_right := hr.trans h.callers_right
  procedures key := by
    dsimp only
    rw [hp, hq]
    exact h.procedures key
  heap := h.heap
  arrayBase := h.arrayBase
  output := h.output

theorem Paired.define (h : Paired f B before before' w s t) {p q : Procedure} (hpq : p.Alike f B q)
    (hname : Text.foldCase p.name = Text.foldCase q.name) :
    Paired f B before before' w { s with env := s.env.defineProcedure p }
      { t with env := t.env.defineProcedure q } where
  globals := h.globals
  innermost := h.innermost
  callers_left := h.callers_left
  callers_right := h.callers_right
  procedures key := by
    simp only [Environment.defineProcedure, Std.ExtTreeMap.getElem?_insert, hname]
    split
    · exact .some hpq
    · exact h.procedures key
  heap := h.heap
  arrayBase := h.arrayBase
  output := h.output

theorem Paired.noted (h : Paired f B before before' w s t) (n : Notice) :
    Paired f B before before' w (s.noted n) (t.noted n) := by
  have only (ms ns : List Notice) :
      Paired f B before before' w { s with notices := ms } { t with notices := ns } :=
    ⟨h.globals, h.innermost, h.callers_left, h.callers_right, h.procedures, h.heap, h.arrayBase,
      h.output⟩
  unfold State.noted
  split <;> split
  · exact h
  · exact only s.notices _
  · exact only _ t.notices
  · exact only _ _

/-- If the callers are the same on both sides, then all frames are. -/
theorem Paired.frames_eq {callers : List Scope}
    (h : Paired f B before before' (callers, callers) s t) :
    s.env.frames = t.env.frames := by
  have head := h.innermost
  have tail := h.callers_left.trans h.callers_right.symm
  generalize s.env.frames = frames at head tail ⊢
  generalize t.env.frames = frames' at head tail ⊢
  cases frames with
  | nil => exact (List.head?_eq_none_iff.mp head.symm).symm
  | cons frame frames =>
    obtain ⟨rest, rfl⟩ := List.head?_eq_some_iff.mp head.symm
    rw [List.tail_cons, List.tail_cons] at tail
    rw [tail]

theorem simulation_paired (hf : Text.Folding f) (before before' : Array String) :
    Simulation f B (Paired f B before before') where
  folding := hf
  lookup h n := by rw [Environment.get?, Environment.get?, h.globals, h.innermost]
  procedure h n := h.procedures _
  heap h := h.heap
  arrayBase h := h.arrayBase
  assign {w s t} h n v := by
    obtain ⟨hg, hi⟩ := Environment.assign_paired h.globals h.innermost n v
    exact h.setEnv hg hi (s.env.assign_frames n v).2 (t.env.assign_frames n v).2
      (s.env.assign_procedures n v) (t.env.assign_procedures n v)
  declare {w s t} h n v _ := by
    obtain ⟨hg, hi⟩ := Environment.declare_paired h.globals h.innermost n v
    exact h.setEnv hg hi (s.env.declare_frames n v).2 (t.env.declare_frames n v).2
      (s.env.declare_procedures n v) (t.env.declare_procedures n v)
  define h hpq := h.define hpq (hf.sameName hpq.name)
  setHeap h heap := { h with heap := rfl }
  setBase h n := { h with arrayBase := rfl }
  print h line := by
    obtain ⟨lines, hs, ht⟩ := h.output
    refine { h with output := ⟨lines.push line, ?_, ?_⟩ }
    · dsimp only
      rw [hs, Array.push_append]
    · dsimp only
      rw [ht, Array.push_append]
  note h n := h.noted n
  -- the world of the callee has the frames of the caller, all of them, behind its own
  call {w s t} h frame := by
    refine ⟨(s.env.frames, t.env.frames), ⟨h.globals, rfl, rfl, rfl, h.procedures, h.heap,
      h.arrayBase, h.output⟩, fun s' t' h' ↦ ⟨?_, ?_⟩⟩
    · simp only [Environment.pop, List.headD_eq_head?_getD, h'.innermost]
    · refine ⟨h'.globals, ?_, ?_, ?_, h'.procedures, h'.heap, h'.arrayBase, h'.output⟩
      · simp only [Environment.pop, h'.callers_left, h'.callers_right, h.innermost]
      · simp only [Environment.pop, h'.callers_left, h.callers_left]
      · simp only [Environment.pop, h'.callers_right, h.callers_right]

/-- Two states with the same globals, procedures, objects and array base. Their frames may
differ. -/
structure SameGlobally (s t : State) : Prop where
  globals : s.env.globals = t.env.globals
  procedures : s.env.procedures = t.env.procedures
  heap : s.heap = t.heap
  arrayBase : s.arrayBase = t.arrayBase

theorem sameGlobally_push (s : State) (frame : Scope) :
    s.SameGlobally { s with env := s.env.push frame } :=
  ⟨rfl, rfl, rfl, rfl⟩

/-- States with the same globals are paired once a call has put the same frame on both. -/
theorem SameGlobally.push (h : s.SameGlobally t) (frame : Scope) :
    Paired id Eq s.output t.output (s.env.frames, t.env.frames)
      { s with env := s.env.push frame } { t with env := t.env.push frame } where
  globals := h.globals
  innermost := rfl
  callers_left := rfl
  callers_right := rfl
  procedures key := by
    simp only [Environment.push, h.procedures]
    cases t.env.procedures[key]? with
    | none => exact .none
    | some p => exact .some (Procedure.Alike.refl p)
  heap := h.heap
  arrayBase := h.arrayBase
  output := ⟨#[], (Array.append_empty).symm, (Array.append_empty).symm⟩

theorem Paired.sameGlobally (h : Paired id Eq before before' w s t) : s.SameGlobally t where
  globals := h.globals
  procedures := by
    refine Std.ExtTreeMap.ext_getElem? fun {key} ↦ ?_
    have alike := h.procedures key
    generalize s.env.procedures[key]? = p at alike ⊢
    generalize t.env.procedures[key]? = q at alike ⊢
    cases alike with
    | none => rfl
    | some alike => rw [alike.eq]
  heap := h.heap
  arrayBase := h.arrayBase

end State

namespace Machine

open State

/-- The ends of two runs from `s` and `t`: the same globally, and with the same lines printed
since. -/
def Indistinct (s t s' t' : State) : Prop :=
  s'.SameGlobally t' ∧ ∃ lines, s'.output = s.output ++ lines ∧ t'.output = t.output ++ lines

/-- A body that runs alike in paired states cannot tell the callers of its frame apart. -/
theorem inFrame_indistinct {s t : State} (h : s.SameGlobally t) (frame : Scope)
    {body : Machine Unit} (hbody : Simulated id (Paired id Eq s.output t.output) body body) :
    Ended (Indistinct s t) Eq Eq (inFrame frame body s) (inFrame frame body t) := by
  have run := hbody _ _ _ (h.push frame)
  have popped {s' t' : State}
      (h' : Paired id Eq s.output t.output (s.env.frames, t.env.frames) s' t') :
      Indistinct s t { s' with env := s'.env.pop.2 } { t' with env := t'.env.pop.2 } :=
    ⟨⟨h'.globals, h'.sameGlobally.procedures, h'.heap, h'.arrayBase⟩, h'.output⟩
  have frames {s' t' : State}
      (h' : Paired id Eq s.output t.output (s.env.frames, t.env.frames) s' t') :
      s'.env.pop.1 = t'.env.pop.1 := by
    simp only [Environment.pop, List.headD_eq_head?_getD, h'.innermost]
  unfold inFrame
  generalize body _ = x at run ⊢
  generalize body _ = y at run ⊢
  cases run with
  | ok result state => exact .ok (congrArg (·, none) (frames state)) (popped state)
  | error error state =>
    cases error with
    | exit target => exact .ok (congrArg (·, some target) (frames state)) (popped state)
    | error h =>
      rw [RuntimeError.respell_id, RuntimeError.respell_id] at h
      exact .error (congrArg _ h) (popped state)
    | outOfFuel => exact .error rfl (popped state)

/-- With an argument for every parameter that has a fallback, the parameters are bound without
evaluating anything. -/
theorem bindParams_eq_pure (eval : Expr → Machine Value) (params : List Param) (args : List Value)
    (h : ∀ p ∈ params.drop args.length, p.fallback = none) (frame : Scope) :
    ∃ frame', bindParams eval params args frame = pure frame' := by
  induction params generalizing args frame with
  | nil => exact ⟨frame, rfl⟩
  | cons p params ih =>
    cases args with
    | cons v vs => exact ih vs h _
    | nil =>
      have none : p.fallback = none := h p (List.mem_cons_self)
      simp only [bindParams, none, pure_bind]
      exact ih [] (fun q hq ↦ h q (List.mem_cons_of_mem p hq)) _

theorem openFrame_eq_pure (eval : Expr → Machine Value) (p : Procedure) (args : List Value)
    (h : ∀ q ∈ p.params.drop args.length, q.fallback = none) :
    ∃ frame, openFrame eval p args = pure frame := by
  obtain ⟨frame, bound⟩ := bindParams_eq_pure eval p.params args h .empty
  unfold openFrame
  rw [bound, pure_bind]
  cases p.kind with
  | function => exact ⟨_, rfl⟩
  | sub => exact ⟨_, rfl⟩

/-- A call does not see the frames of its callers: with an argument for every parameter that has a
fallback, a procedure run in two states that differ in their frames only has the same end in both,
with the same final frame and exit or the same error; it prints the same lines and leaves the same
globals, procedures, objects and array base. -/
theorem runProcedure_isolated (fuel : Nat) (p : Procedure) (args : List Value)
    (supplied : ∀ q ∈ p.params.drop args.length, q.fallback = none) (s t : State)
    (h : s.SameGlobally t) :
    Ended (Indistinct s t) Eq Eq (runProcedure (eval fuel) (exec fuel) p args s)
      (runProcedure (eval fuel) (exec fuel) p args t) := by
  obtain ⟨frame, opened⟩ := openFrame_eq_pure (eval fuel) p args supplied
  have sim := simulation_paired (B := Eq) Text.folding_id s.output t.output
  have run : Simulated id _ (execAll (exec fuel) p.body) (execAll (exec fuel) p.body) :=
    simulated_execAll sim bodywise_eq rfl fuel
  have body := inFrame_indistinct h frame run
  unfold runProcedure
  rw [opened, pure_bind]
  change Ended _ _ _ (EStateM.bind _ _ s) (EStateM.bind _ _ t)
  unfold EStateM.bind
  generalize inFrame _ _ s = x at body ⊢
  generalize inFrame _ _ t = y at body ⊢
  cases body with
  | ok result state =>
    subst result
    exact .ok rfl state
  | error error state => exact .error error state

/-- A function that reads a variable of its caller does not get it. -/
theorem runProcedure_isolated_peek :
    let peek : Procedure := ⟨.function, "peek", [⟨"n", true, some (.text "1")⟩],
      [.assign (.name "peek") (.name "secret")]⟩
    let caller := { State.initial with
      env := State.initial.env.push (Scope.empty.set "secret" (.text "s")) }
    State.initial.SameGlobally caller ∧
      Ended (Indistinct .initial caller) Eq Eq
        (runProcedure (eval 3) (exec 3) peek [.text "2"] .initial)
        (runProcedure (eval 3) (exec 3) peek [.text "2"] caller) := by
  intro peek caller
  have same : State.initial.SameGlobally caller := State.initial.sameGlobally_push _
  refine ⟨same, runProcedure_isolated 3 peek [.text "2"] ?_ _ _ same⟩
  simp [peek]

end Machine

end MiniBasic
