import MiniBasic.Proofs.Control.CopyBack
import MiniBasic.Proofs.Control.Hoisting

/-!
# Fallbacks of parameters

The fallback of a parameter that gets no argument is evaluated while the frame of the caller is
still the innermost one. So a callee sees variables of its caller in its fallbacks, and may even
make some there. How much it sees is bounded by the names that are written in fallbacks: those of
the missing parameters, and those of the procedures that these call by name. In two calls that agree
on the needed names the parameters get the same values, and in the frame of the caller nothing but
these names is written.
-/

namespace MiniBasic

/-! ## Needed names -/

mutual

/-- The names that an expression reads or calls. -/
def Expr.names : Expr → List String
  | .number _ => []
  | .text _ => []
  | .name n => [n]
  | .unary _ e => e.names
  | .binary _ l r => l.names ++ r.names
  | .call callee args => callee.names ++ namesAll args
  | .member object _ => object.names
  | .new _ => []

def namesAll : List Expr → List String
  | [] => []
  | e :: es => e.names ++ namesAll es

end

/-- All names in the expression are in `V`, up to the case of letters. -/
def Expr.NamesIn (V : String → Prop) (e : Expr) : Prop :=
  ∀ n ∈ e.names, V (Text.foldCase n)

/-- The fallback of the parameter, if there is one, has its names in `V`. -/
def Param.FallbackIn (V : String → Prop) (q : Param) : Prop :=
  ∀ e, q.fallback = some e → e.NamesIn V

/-- The procedures that may be found under a name, now or later: those in the table, and those that
are declared in their bodies, which come into the table when the bodies run. -/
inductive InReach (table : Std.ExtTreeMap String Procedure) : String → Procedure → Prop
  | listed {key : String} {p : Procedure} (h : table[key]? = some p) : InReach table key p
  | declared {key : String} {p q : Procedure} (h : InReach table key p)
    (hq : q ∈ declaredAll p.body) :
    InReach table (Text.foldCase q.name) q

/-- The names, with their case folded, that may come up in the scope of the caller while the missing
parameters get their fallbacks. -/
inductive Needed (table : Std.ExtTreeMap String Procedure) (missing : List Param) : String → Prop
  | fallback {q : Param} {e : Expr} {n : String} (hq : q ∈ missing) (he : q.fallback = some e)
    (hn : n ∈ e.names) :
    Needed table missing (Text.foldCase n)
  | callee {key : String} {p : Procedure} {q : Param} {e : Expr} {n : String}
    (h : Needed table missing key) (hp : InReach table key p) (hq : q ∈ p.params)
    (he : q.fallback = some e) (hn : n ∈ e.names) :
    Needed table missing (Text.foldCase n)

/-- A procedure that goes by a name in `V` has its fallbacks in `V`. -/
def Closed (table : Std.ExtTreeMap String Procedure) (V : String → Prop) : Prop :=
  ∀ key p, V key → InReach table key p → ∀ q ∈ p.params, q.FallbackIn V

theorem closed_needed (table : Std.ExtTreeMap String Procedure) (missing : List Param) :
    Closed table (Needed table missing) :=
  fun _ _ h hp _ hq _ he _ hn ↦ .callee h hp hq he hn

theorem fallbackIn_needed (table : Std.ExtTreeMap String Procedure) {missing : List Param}
    {q : Param} (hq : q ∈ missing) : q.FallbackIn (Needed table missing) :=
  fun _ he _ hn ↦ .fallback hq he hn

section NamesIn

variable {V : String → Prop}

theorem Expr.namesIn_name {n : String} : (Expr.name n).NamesIn V ↔ V (Text.foldCase n) :=
  List.forall_mem_singleton

theorem Expr.namesIn_binary {op : BinaryOp} {l r : Expr} :
    (Expr.binary op l r).NamesIn V ↔ l.NamesIn V ∧ r.NamesIn V :=
  List.forall_mem_append

theorem namesAll_forall {es : List Expr} :
    (∀ n ∈ namesAll es, V (Text.foldCase n)) ↔ ∀ e ∈ es, e.NamesIn V := by
  induction es with
  | nil => exact ⟨fun _ _ h ↦ absurd h List.not_mem_nil, fun _ _ h ↦ absurd h List.not_mem_nil⟩
  | cons e es ih =>
    rw [List.forall_mem_cons, ← ih]
    exact List.forall_mem_append

theorem Expr.namesIn_call {callee : Expr} {args : List Expr} :
    (Expr.call callee args).NamesIn V ↔ callee.NamesIn V ∧ ∀ e ∈ args, e.NamesIn V :=
  List.forall_mem_append.trans (and_congr_right fun _ ↦ namesAll_forall)

end NamesIn

/-! ## The table -/

/-- Every procedure in the table is in reach of an earlier table. -/
def State.TableInReach (table : Std.ExtTreeMap String Procedure) (s : State) : Prop :=
  ∀ key p, s.env.procedures[key]? = some p → InReach table key p

namespace State.TableInReach

variable {table : Std.ExtTreeMap String Procedure} {s s' : State}

theorem of_procedures (h : s.TableInReach table) (same : s'.env.procedures = s.env.procedures) :
    s'.TableInReach table := by
  intro key p hp
  rw [same] at hp
  exact h key p hp

theorem known (h : s.TableInReach table) : s.Known fun q ↦ InReach table (Text.foldCase q.name) q :=
  fun key p hp _ hq ↦ .declared (h key p hp) hq

open Control in
/-- A body that comes to its end, or that an exit leaves, has declared nothing that was not in
reach. -/
theorem body (h : s.TableInReach table) {key : String} {p : Procedure} (hp : InReach table key p)
    {fuel : Nat} {left : Option ExitTarget}
    (run : Machine.Finishes (Machine.execAll (Machine.exec fuel) p.body) s left s') :
    s'.TableInReach table := by
  have declares : Declares (fun q ↦ InReach table (Text.foldCase q.name) q) p.body :=
    fun _ hq ↦ .declared hp hq
  have start : ((Execution.block p.body).moment s 0).Within fun q ↦
      InReach table (Text.foldCase q.name) q :=
    ⟨⟨declares, trivial⟩, trivial, h.known⟩
  have reached {d : Control.Config} (hd : ((Execution.block p.body).moment s 0).Reaches d) :
      d.state.TableInReach table :=
    (start.reaches (fun _ _ changed ↦ changed.forall_procedures fun _ hq _ ↦ hq)
      (fun _ kept ↦ kept) hd h).2
  have settles := (Execution.block p.body).settles fuel s
  rw [Execution.machine] at settles
  cases run with
  | normally ended =>
    rw [bind_ok ended] at settles
    cases settles with
    | value run => exact reached run
  | left ended =>
    rw [bind_error ended] at settles
    cases settles with
    | exit run => exact reached run

theorem inFrame (h : s.TableInReach table) {key : String} {p : Procedure} (hp : InReach table key p)
    {fuel : Nat} {frame : Scope} {r : Scope × Option ExitTarget}
    (ended : Machine.inFrame frame (Machine.execAll (Machine.exec fuel) p.body) s = .ok r s') :
    s'.TableInReach table := by
  have pushed : TableInReach table { s with env := s.env.push frame } := h
  unfold Machine.inFrame at ended
  cases run : Machine.execAll (Machine.exec fuel) p.body { s with env := s.env.push frame } with
  | ok _ s₁ =>
    rw [run] at ended
    cases ended
    exact (pushed.body hp (.normally run)).of_procedures rfl
  | error i s₁ =>
    rw [run] at ended
    cases i with
    | exit target =>
      cases ended
      exact (pushed.body hp (.left run)).of_procedures rfl
    | error e => cases ended
    | outOfFuel => cases ended

end State.TableInReach

/-! ## Two callers side by side -/

namespace Environment

variable {env : Environment}

theorem local?_declare {frame : Scope} {frames : List Scope} (h : env.frames = frame :: frames)
    (n m : String) (v : Value) :
    (env.declare n v).local? m = if Text.foldCase n = Text.foldCase m then some v
      else env.local? m := by
  rw [local?, local?, declare, h]
  exact Scope.get?_set frame n m v

theorem globals_declare {frame : Scope} {frames : List Scope} (h : env.frames = frame :: frames)
    (n : String) (v : Value) : (env.declare n v).globals = env.globals := by
  rw [declare, h]

theorem exists_frames_declare {frames : List Scope} (h : ∃ frame, env.frames = frame :: frames)
    (n : String) (v : Value) : ∃ frame, (env.declare n v).frames = frame :: frames := by
  obtain ⟨frame, h⟩ := h
  rw [declare, h]
  exact ⟨_, rfl⟩

/-- The names in `V` that may be written in the innermost frame: those that are bound there, and
those that mean nothing yet. -/
def Exposed (V : String → Prop) (env : Environment) (n : String) : Prop :=
  V (Text.foldCase n) ∧
    ((env.local? n).isSome ∨ env.globals.get? n = none ∧ env.procedure? n = none)

end Environment

namespace State

variable {V : String → Prop} {s₀ t₀ s t : State}

/-- The states of two runs that have begun in `s₀` and `t₀`, in the innermost frames of which the
names in `V` have the same values. -/
structure Alongside (V : String → Prop) (s₀ t₀ s t : State) : Prop where
  indistinct : Machine.Indistinct s₀ t₀ s t
  callers_left : ∃ frame, s.env.frames = frame :: s₀.env.frames.tail
  callers_right : ∃ frame, t.env.frames = frame :: t₀.env.frames.tail
  agree (n : String) : V (Text.foldCase n) → s.env.local? n = t.env.local? n
  /-- What is not exposed at the start is not written. -/
  spared (n : String) : s.env.local? n = s₀.env.local? n ∨ s₀.env.Exposed V n
  globals (n : String) : s₀.env.globals.contains n → s.env.globals.contains n
  procedures (n : String) : (s₀.env.procedure? n).isSome → (s.env.procedure? n).isSome

namespace Alongside

theorem lookup (h : Alongside V s₀ t₀ s t) {n : String} (hn : V (Text.foldCase n)) :
    s.env.get? n = t.env.get? n := by
  change (s.env.local? n).or _ = (t.env.local? n).or _
  rw [h.agree n hn, h.indistinct.1.globals]

theorem procedure (h : Alongside V s₀ t₀ s t) (n : String) :
    s.env.procedure? n = t.env.procedure? n := by
  rw [Environment.procedure?, Environment.procedure?, h.indistinct.1.procedures]

/-- A change of both environments in the same way, in which no procedure is defined. -/
theorem setEnv (h : Alongside V s₀ t₀ s t) {env env' : Environment}
    (hg : env.globals = env'.globals) (hp : env.procedures = s.env.procedures)
    (hq : env'.procedures = t.env.procedures)
    (hl : ∃ frame, env.frames = frame :: s₀.env.frames.tail)
    (hr : ∃ frame, env'.frames = frame :: t₀.env.frames.tail)
    (agree : ∀ n, V (Text.foldCase n) → env.local? n = env'.local? n)
    (spared : ∀ n, env.local? n = s₀.env.local? n ∨ s₀.env.Exposed V n)
    (globals : ∀ n, s.env.globals.contains n → env.globals.contains n) :
    Alongside V s₀ t₀ { s with env } { t with env := env' } where
  indistinct := ⟨⟨hg, hp.trans (h.indistinct.1.procedures.trans hq.symm), h.indistinct.1.heap,
    h.indistinct.1.arrayBase⟩, h.indistinct.2⟩
  callers_left := hl
  callers_right := hr
  agree := agree
  spared := spared
  globals n hn := globals n (h.globals n hn)
  procedures n hn := by
    dsimp only
    rw [Environment.procedure?, hp]
    exact h.procedures n hn

/-- A name in `V` is bound in both innermost frames, if it is exposed. -/
theorem declare (h : Alongside V s₀ t₀ s t) {n : String} (exposed : s₀.env.Exposed V n)
    (v : Value) :
    Alongside V s₀ t₀ { s with env := s.env.declare n v } { t with env := t.env.declare n v } := by
  obtain ⟨frame, hs⟩ := h.callers_left
  obtain ⟨frame', ht⟩ := h.callers_right
  refine h.setEnv ?_ (s.env.declare_procedures n v) (t.env.declare_procedures n v)
    (Environment.exists_frames_declare ⟨frame, hs⟩ n v)
    (Environment.exists_frames_declare ⟨frame', ht⟩ n v) ?_ ?_ ?_
  · rw [Environment.globals_declare hs, Environment.globals_declare ht]
    exact h.indistinct.1.globals
  · intro m hm
    rw [Environment.local?_declare hs, Environment.local?_declare ht, h.agree m hm]
  · intro m
    rw [Environment.local?_declare hs]
    split
    next same =>
      right
      rw [Environment.Exposed, ← same, ← Environment.local?_sameName _ same,
        ← Scope.get?_sameName same, ← Environment.procedure?_sameName same]
      exact exposed
    next => exact h.spared m
  · intro m hm
    rwa [Environment.globals_declare hs]

theorem defineGlobal (h : Alongside V s₀ t₀ s t) (n : String) (v : Value) :
    Alongside V s₀ t₀ { s with env := s.env.defineGlobal n v }
      { t with env := t.env.defineGlobal n v } :=
  h.setEnv (congrArg (·.set n v) h.indistinct.1.globals)
    rfl rfl h.callers_left h.callers_right h.agree h.spared fun _ hm ↦
      Scope.contains_set_of_contains hm n v

/-- A variable in `V` that is bound is assigned in both runs in the same place. -/
theorem assign (h : Alongside V s₀ t₀ s t) {n : String} (hn : V (Text.foldCase n))
    (bound : (s.env.get? n).isSome) (v : Value) :
    Alongside V s₀ t₀ { s with env := s.env.assign n v } { t with env := t.env.assign n v } := by
  have bound' : (t.env.get? n).isSome := by rwa [← h.lookup hn]
  have agree := h.agree n hn
  -- the name is bound in both innermost frames or in neither
  rcases Environment.assign_cases bound v with ⟨isLocal, hs⟩ | ⟨unbound, hs⟩
  · rcases Environment.assign_cases bound' v with ⟨-, ht⟩ | ⟨unbound, -⟩
    · rw [hs, ht]
      refine h.declare ?_ v
      rcases h.spared n with same | exposed
      · exact ⟨hn, .inl (same ▸ isLocal)⟩
      · exact exposed
    · rw [agree, unbound] at isLocal
      cases isLocal
  · rcases Environment.assign_cases bound' v with ⟨isLocal, -⟩ | ⟨-, ht⟩
    · rw [← agree, unbound] at isLocal
      cases isLocal
    · rw [hs, ht]
      exact h.defineGlobal n v

/-- A name in `V` that means nothing is declared. It meant nothing at the start either. -/
theorem declare_unbound (h : Alongside V s₀ t₀ s t) {n : String} (hn : V (Text.foldCase n))
    (unbound : s.env.get? n = none) (unknown : s.env.procedure? n = none) (v : Value) :
    Alongside V s₀ t₀ { s with env := s.env.declare n v } { t with env := t.env.declare n v } := by
  refine h.declare ⟨hn, .inr ⟨?_, ?_⟩⟩ v
  · have none : s.env.globals.get? n = none := (Option.or_eq_none_iff.mp unbound).2
    have kept := h.globals n
    rw [Scope.contains_eq_isSome, Scope.contains_eq_isSome, none] at kept
    exact Option.not_isSome_iff_eq_none.mp fun bound ↦ Bool.false_ne_true (kept bound)
  · have kept := h.procedures n
    rw [unknown] at kept
    exact Option.not_isSome_iff_eq_none.mp fun known ↦ Bool.false_ne_true (kept known)

theorem setHeap (h : Alongside V s₀ t₀ s t) (heap : Heap) :
    Alongside V s₀ t₀ { s with heap } { t with heap } :=
  { h with indistinct := ⟨{ h.indistinct.1 with heap := rfl }, h.indistinct.2⟩ }

theorem print (h : Alongside V s₀ t₀ s t) (line : String) :
    Alongside V s₀ t₀ { s with output := s.output.push line }
      { t with output := t.output.push line } := by
  obtain ⟨same, lines, hs, ht⟩ := h.indistinct
  refine { h with indistinct := ⟨{ same with }, lines.push line, ?_, ?_⟩ }
  · dsimp only
    rw [hs, Array.push_append]
  · dsimp only
    rw [ht, Array.push_append]

end Alongside

end State

namespace Machine

open State
open Heap (Action)

variable {α β : Type} {V : String → Prop} {s₀ t₀ : State}

/-- Two runs end in the same way. Unless they are interrupted, the procedures in the table are still
in reach. -/
inductive Abreast (V : String → Prop) (s₀ t₀ : State) :
    EStateM.Result Interrupt State α → EStateM.Result Interrupt State α → Prop
  | ok {a : α} {s t : State} (state : Alongside V s₀ t₀ s t)
    (table : s.TableInReach s₀.env.procedures) :
    Abreast V s₀ t₀ (.ok a s) (.ok a t)
  | error {i : Interrupt} {s t : State} (state : Alongside V s₀ t₀ s t) :
    Abreast V s₀ t₀ (.error i s) (.error i t)

/-- A run that does the same side by side. -/
def Steady (V : String → Prop) (s₀ t₀ : State) (m : Machine α) : Prop :=
  ∀ s t, Alongside V s₀ t₀ s t → s.TableInReach s₀.env.procedures → Abreast V s₀ t₀ (m s) (m t)

namespace Steady

theorem pure (a : α) : Steady V s₀ t₀ (Pure.pure a : Machine α) :=
  fun _ _ h table ↦ .ok h table

theorem throw (i : Interrupt) : Steady V s₀ t₀ (MonadExcept.throw i : Machine α) :=
  fun _ _ h _ ↦ .error h

theorem bind {m : Machine α} {k : α → Machine β} (hm : Steady V s₀ t₀ m)
    (hk : ∀ a, Steady V s₀ t₀ (k a)) :
    Steady V s₀ t₀ (m >>= k) := by
  intro s t h table
  change Abreast V s₀ t₀ (EStateM.bind m k s) (EStateM.bind m k t)
  unfold EStateM.bind
  have run := hm s t h table
  generalize m s = x at run ⊢
  generalize m t = y at run ⊢
  cases run with
  | ok state table => exact hk _ _ _ state table
  | error state => exact .error state

theorem get {k : State → Machine α}
    (hk : ∀ s t, Alongside V s₀ t₀ s t → s.TableInReach s₀.env.procedures →
    Abreast V s₀ t₀ (k s s) (k t t)) : Steady V s₀ t₀ (MonadState.get >>= k) :=
  hk

end Steady

/-! ### Single steps -/

theorem steady_onHeap (action : Action α) : Steady V s₀ t₀ (onHeap action) := by
  intro s t h table
  have heap := h.indistinct.1.heap
  obtain ⟨env, heap₁, base, output, notices⟩ := s
  obtain ⟨env', heap₂, base', output', notices'⟩ := t
  obtain rfl : heap₁ = heap₂ := heap
  unfold onHeap
  dsimp only
  cases action heap₁ with
  | ok a heap => exact .ok (h.setHeap heap) table
  | error e heap => exact .error (h.setHeap heap)

theorem steady_print (values : List Value) : Steady V s₀ t₀ (print values) := by
  intro s t h table
  have texts : s.heap.text = t.heap.text := congrArg Heap.text h.indistinct.1.heap
  change Abreast V s₀ t₀
    (.ok () { s with output := s.output.push (" ".intercalate (values.map s.heap.text)) })
    (.ok () { t with output := t.output.push (" ".intercalate (values.map t.heap.text)) })
  rw [texts]
  exact .ok (h.print _) table

theorem steady_applyValue (name : String) (target : Value) (args : List Value) :
    Steady V s₀ t₀ (applyValue name target args) := by
  unfold applyValue
  split
  · refine .get fun s t h table ↦ ?_
    rw [h.indistinct.1.arrayBase]
    exact steady_onHeap _ s t h table
  · refine .get fun s t h table ↦ ?_
    rw [h.indistinct.1.heap]
    exact steady_onHeap _ s t h table

theorem steady_callMember (object : Value) (member : String) (args : List Value) :
    Steady V s₀ t₀ (callMember object member args) := by
  unfold callMember
  split
  · split
    · exact (steady_print args).bind fun _ ↦ .pure _
    · exact .throw _
  · refine (steady_onHeap _).bind fun result ↦ ?_
    cases result with
    | some value => exact .pure value
    | none => exact .throw _

theorem inFrame_final (frame : Scope) (body : Machine Unit) (s : State) :
    (inFrame frame body).final s =
      { body.final { s with env := s.env.push frame } with
        env := (body.final { s with env := s.env.push frame }).env.pop.2 } := by
  unfold final inFrame
  cases body { s with env := s.env.push frame } with
  | ok _ s' => rfl
  | error i s' => cases i <;> rfl

/-- A body leaves the frames of its callers alone, and nothing becomes unbound. -/
theorem inFrame_kept (fuel : Nat) (frame : Scope) (body : List Stmt) (s : State) :
    let s' := (inFrame frame (execAll (exec fuel) body)).final s
    s'.env.frames = s.env.frames ∧ (∀ n, s.env.globals.contains n → s'.env.globals.contains n) ∧
      ∀ n, (s.env.procedure? n).isSome → (s'.env.procedure? n).isSome := by
  intro s'
  have ended : s' = _ := inFrame_final frame _ s
  have callers :=
    (guarantee_keepsFrames.execAll fuel body { s with env := s.env.push frame }).callers
  have names := (guarantee_keepsAllBindings.execAll fuel body { s with env := s.env.push frame }).2
  rw [ended]
  exact ⟨callers, names.globals, names.procedures⟩

/-- Behind a body, which is the same to both callers, they are where they were. -/
theorem alongside_behind {s t s' t' : State} (h : Alongside V s₀ t₀ s t)
    (same : Indistinct s t s' t') (hs : s'.env.frames = s.env.frames)
    (ht : t'.env.frames = t.env.frames)
    (globals : ∀ n, s.env.globals.contains n → s'.env.globals.contains n)
    (procedures : ∀ n, (s.env.procedure? n).isSome → (s'.env.procedure? n).isSome) :
    Alongside V s₀ t₀ s' t' where
  indistinct := by
    obtain ⟨-, before, hs, ht⟩ := h.indistinct
    obtain ⟨globally, since, hs', ht'⟩ := same
    refine ⟨globally, before ++ since, ?_, ?_⟩
    · rw [hs', hs, Array.append_assoc]
    · rw [ht', ht, Array.append_assoc]
  callers_left := hs ▸ h.callers_left
  callers_right := ht ▸ h.callers_right
  agree n hn := by
    rw [Environment.local?, Environment.local?, hs, ht]
    exact h.agree n hn
  spared n := by
    rw [Environment.local?, hs]
    exact h.spared n
  globals n hn := globals n (h.globals n hn)
  procedures n hn := procedures n (h.procedures n hn)

theorem steady_inFrame {key : String} {p : Procedure} (hp : InReach s₀.env.procedures key p)
    (fuel : Nat) (frame : Scope) : Steady V s₀ t₀ (inFrame frame (execAll (exec fuel) p.body)) := by
  intro s t h table
  -- the frame is the same above both callers, which the body does not see
  have sim := simulation_paired (B := Eq) Text.folding_id s.output t.output
  have body : Simulated id _ (execAll (exec fuel) p.body) (execAll (exec fuel) p.body) :=
    simulated_execAll sim bodywise_eq rfl fuel
  have same := inFrame_indistinct h.indistinct.1 frame body
  obtain ⟨hs, globals, procedures⟩ := inFrame_kept fuel frame p.body s
  obtain ⟨ht, -⟩ := inFrame_kept fuel frame p.body t
  have reach {r : Scope × Option ExitTarget} {s' : State}
      (ended : inFrame frame (execAll (exec fuel) p.body) s = .ok r s') :
      s'.TableInReach s₀.env.procedures :=
    table.inFrame hp ended
  unfold final at hs ht globals procedures
  generalize inFrame frame _ s = x at *
  generalize inFrame frame _ t = y at *
  cases same with
  | ok result state =>
    subst result
    exact .ok (alongside_behind h state hs ht globals procedures) (reach rfl)
  | error error state =>
    subst error
    exact .error (alongside_behind h state hs ht globals procedures)

/-! ### Calls and expressions -/

section Rules

variable {eval : Expr → Machine Value} {exec : Stmt → Machine Unit}
  (closed : Closed s₀.env.procedures V)
variable (heval : ∀ e : Expr, e.NamesIn V → Steady V s₀ t₀ (eval e))
variable (hbody : ∀ key p, InReach s₀.env.procedures key p → ∀ frame,
  Steady V s₀ t₀ (inFrame frame (execAll exec p.body)))

include heval in
theorem steady_evalAll {es : List Expr} (hes : ∀ e ∈ es, e.NamesIn V) :
    Steady V s₀ t₀ (evalAll eval es) := by
  induction es with
  | nil => exact .pure _
  | cons e es ih =>
    obtain ⟨first, rest⟩ := List.forall_mem_cons.mp hes
    exact (heval e first).bind fun v ↦ (ih rest).bind fun vs ↦ .pure _

include heval in
theorem steady_bindParams {params : List Param} (args : List Value)
    (h : ∀ q ∈ params.drop args.length, q.FallbackIn V) (frame : Scope) :
    Steady V s₀ t₀ (bindParams eval params args frame) := by
  induction params generalizing args frame with
  | nil => exact .pure _
  | cons p params ih =>
    cases args with
    | cons v vs => exact ih vs h _
    | nil =>
      obtain ⟨first, rest⟩ := List.forall_mem_cons.mp h
      rw [bindParams]
      split
      next e he => exact (heval e (first e he)).bind fun v ↦ ih [] rest _
      next => exact .bind (.pure _) fun v ↦ ih [] rest _

include heval in
theorem steady_openFrame {p : Procedure} {args : List Value}
    (h : ∀ q ∈ p.params.drop args.length, q.FallbackIn V) :
    Steady V s₀ t₀ (openFrame eval p args) := by
  refine (steady_bindParams heval args h .empty).bind fun frame ↦ ?_
  cases p.kind <;> exact .pure _

/-- Values are copied back into variables in `V` only. -/
theorem steady_copyBack (frame : Scope) (params : List Param) {args : List Expr}
    (hargs : ∀ e ∈ args, e.NamesIn V) :
    Steady V s₀ t₀ (onEnv (copyBack frame params args)) := by
  induction params generalizing args with
  | nil =>
    exact fun s t h table ↦ .ok (by simpa only [copyBack] using h)
      (by simpa only [copyBack] using table)
  | cons p params ih =>
    cases args with
    | nil =>
      exact fun s t h table ↦ .ok (by simpa only [copyBack] using h)
        (by simpa only [copyBack] using table)
    | cons arg args =>
      obtain ⟨first, rest⟩ := List.forall_mem_cons.mp hargs
      intro s t h table
      have one : Alongside V s₀ t₀ { s with env := copyBackOne frame p arg s.env }
          { t with env := copyBackOne frame p arg t.env } := by
        unfold copyBackOne
        cases p.byValue with
        | true => exact h
        | false =>
          cases arg with
          | name n =>
            have hn := Expr.namesIn_name.mp first
            dsimp only
            rw [← h.lookup hn]
            split
            · exact h
            next free =>
              rw [Bool.or_eq_true, not_or, Option.isNone_iff_eq_none, ← ne_eq _ none,
                Option.ne_none_iff_isSome] at free
              cases frame.get? p.name with
              | some v => exact h.assign hn free.2 v
              | none => exact h
          | _ => exact h
      exact ih rest _ _ one
        (table.of_procedures (Environment.copyBack_procedures frame [p] [arg] s.env))

include closed heval hbody in
theorem steady_invoke {key : String} (hkey : V key) {p : Procedure}
    (hp : InReach s₀.env.procedures key p) {args : List Expr} (hargs : ∀ e ∈ args, e.NamesIn V) :
    Steady V s₀ t₀ (invoke eval exec p args) := by
  refine (steady_evalAll heval hargs).bind fun values ↦ .bind ?_ fun ended ↦ ?_
  · have fallbacks (q : Param) (hq : q ∈ p.params.drop values.length) : q.FallbackIn V :=
      closed key p hkey hp q (List.mem_of_mem_drop hq)
    exact (steady_openFrame heval fallbacks).bind fun frame ↦
      (hbody key p hp frame).bind fun ended ↦ .pure _
  · refine (steady_copyBack ended.1 p.params hargs).bind fun _ ↦ ?_
    cases ended.2 with
    | some target => exact .throw _
    | none => exact .pure _

include closed heval hbody in
theorem steady_evalName {n : String} (hn : V (Text.foldCase n)) :
    Steady V s₀ t₀ (evalName eval exec n) := by
  refine .get fun s t h table ↦ ?_
  rw [← h.lookup hn, ← h.procedure n]
  cases found : s.env.get? n with
  | some v => exact .ok h table
  | none =>
    cases known : s.env.procedure? n with
    | some p =>
      exact steady_invoke closed heval hbody hn (table _ p known)
        (List.forall_mem_nil _) s t h table
    | none =>
      -- a name that means nothing is made in the frame of the caller, in both runs
      have found' : t.env.get? n = none := (h.lookup hn).symm.trans found
      change Abreast V s₀ t₀
        (.ok (s.env.getOrDeclare n).1 { s with env := (s.env.getOrDeclare n).2 })
        (.ok (t.env.getOrDeclare n).1 { t with env := (t.env.getOrDeclare n).2 })
      unfold Environment.getOrDeclare
      rw [found, found']
      exact .ok (h.declare_unbound hn found known _)
        (table.of_procedures (s.env.declare_procedures n _))

include closed heval hbody in
theorem steady_evalCall {callee : Expr} (hcallee : callee.NamesIn V) {args : List Expr}
    (hargs : ∀ e ∈ args, e.NamesIn V) : Steady V s₀ t₀ (evalCall eval exec callee args) := by
  unfold evalCall
  split
  next n =>
    have hn := Expr.namesIn_name.mp hcallee
    refine .get fun s t h table ↦ ?_
    rw [← h.lookup hn, ← h.procedure n]
    cases known : s.env.procedure? n with
    | some p => exact steady_invoke closed heval hbody hn (table _ p known) hargs s t h table
    | none =>
      cases s.env.get? n with
      | some target =>
        exact ((steady_evalAll heval hargs).bind fun values ↦ steady_applyValue n target values)
          s t h table
      | none => exact .error h
  next object property =>
    refine (heval object hcallee).bind fun object ↦
      (steady_evalAll heval hargs).bind fun values ↦ ?_
    exact steady_callMember object property values
  next =>
    refine (heval callee hcallee).bind fun target ↦
      (steady_evalAll heval hargs).bind fun values ↦ ?_
    exact steady_applyValue "expression" target values

include closed heval hbody in
theorem steady_evalExpr {e : Expr} (he : e.NamesIn V) : Steady V s₀ t₀ (evalExpr eval exec e) := by
  cases e with
  | number x => exact .pure _
  | text s => exact .pure _
  | name n => exact steady_evalName closed heval hbody (Expr.namesIn_name.mp he)
  | unary op e => exact (heval e he).bind fun v ↦ .pure _
  | binary op l r =>
    obtain ⟨hl, hr⟩ := Expr.namesIn_binary.mp he
    refine (heval l hl).bind fun a ↦ (heval r hr).bind fun b ↦ .get fun s t h table ↦ ?_
    rw [h.indistinct.1.heap]
    exact steady_onHeap _ s t h table
  | call callee args =>
    obtain ⟨hcallee, hargs⟩ := Expr.namesIn_call.mp he
    exact steady_evalCall closed heval hbody hcallee hargs
  | member object property =>
    exact (heval object he).bind fun object ↦ steady_callMember object property []
  | new typeName => exact steady_onHeap _

end Rules

/-- An expression with names in `V` is evaluated side by side. The induction is on the bound; bodies
are not part of it, since they see neither caller. -/
theorem steady_eval (closed : Closed s₀.env.procedures V) (fuel : Nat) {e : Expr}
    (he : e.NamesIn V) :
    Steady V s₀ t₀ (eval fuel e) := by
  induction fuel generalizing e with
  | zero => exact .throw _
  | succ fuel ih =>
    exact steady_evalExpr closed (fun e ↦ ih) (fun key p hp ↦ steady_inFrame hp fuel) he

/-! ## The caller's frame -/

/-- Fallbacks see the frame of the caller, but only through the names that they need, and they write
no others there. Let a procedure be called, with some arguments missing, from two frames that agree
on the needed names. Then the callee starts in the same frame, or the same interruption occurs, with
the same lines printed and the same globals, procedures, objects and array base; and a variable of
the caller changes, or is made, only if its name is needed and is bound in the frame of the caller
or is neither a global nor a procedure. -/
theorem openFrame_determined (fuel : Nat) (p : Procedure) (args : List Value) (s : State)
    (caller caller' : Scope)
    (agree : ∀ n, Needed s.env.procedures (p.params.drop args.length) (Text.foldCase n) →
      caller.get? n = caller'.get? n) :
    let here := { s with env := s.env.push caller }
    let there := { s with env := s.env.push caller' }
    Ended (Indistinct here there) Eq Eq (openFrame (eval fuel) p args here)
      (openFrame (eval fuel) p args there) ∧
      ∃ after, ((openFrame (eval fuel) p args).final here).env.frames = after :: s.env.frames ∧
        ∀ n, after.get? n = caller.get? n ∨
          Needed s.env.procedures (p.params.drop args.length) (Text.foldCase n) ∧
            (caller.contains n ∨ s.env.globals.get? n = none ∧ s.env.procedure? n = none) := by
  intro here there
  have start :
      Alongside (Needed s.env.procedures (p.params.drop args.length)) here there here there :=
    ⟨⟨⟨rfl, rfl, rfl, rfl⟩, #[], Array.append_empty.symm, Array.append_empty.symm⟩, ⟨caller, rfl⟩,
      ⟨caller', rfl⟩, agree, fun _ ↦ .inl rfl, fun _ ↦ id, fun _ ↦ id⟩
  have closed : Closed here.env.procedures (Needed s.env.procedures (p.params.drop args.length)) :=
    closed_needed _ _
  have run := steady_openFrame (fun e ↦ steady_eval closed fuel)
    (fun q hq ↦ fallbackIn_needed _ hq) here there start fun key q hq ↦ .listed hq
  have spared {s' t' : State}
      (h : Alongside (Needed s.env.procedures (p.params.drop args.length)) here there s' t') :
      ∃ after, s'.env.frames = after :: s.env.frames ∧ ∀ n, after.get? n = caller.get? n ∨
        Needed s.env.procedures (p.params.drop args.length) (Text.foldCase n) ∧
          (caller.contains n ∨ s.env.globals.get? n = none ∧ s.env.procedure? n = none) := by
    obtain ⟨after, frames⟩ := h.callers_left
    refine ⟨after, frames, fun n ↦ ?_⟩
    have spared := h.spared n
    rw [Environment.Exposed, Environment.local?, frames] at spared
    rw [Scope.contains_eq_isSome]
    exact spared
  unfold final
  generalize openFrame (eval fuel) p args here = x at run ⊢
  generalize openFrame (eval fuel) p args there = y at run ⊢
  cases run with
  | ok state table => exact ⟨.ok rfl state.indistinct, spared state⟩
  | error state => exact ⟨.error rfl state.indistinct, spared state⟩

/-- The fallback of `D` calls `E`, which has a fallback of its own. A variable of the caller that
neither needs may have any value. -/
theorem openFrame_determined_nested :
    let e : Procedure :=
      ⟨.function, "E", [⟨"w", false, some (.name "z")⟩], [.assign (.name "E") (.name "w")]⟩
    let d : Procedure := ⟨.function, "D", [⟨"a", true, none⟩,
      ⟨"v", true, some (.binary .concat (.name "Y") (.call (.name "e") []))⟩], []⟩
    let s := { State.initial with env := State.initial.env.defineProcedure e }
    let caller (x : String) := (Scope.empty.set "y" (.text "1")).set "x" (.text x)
    let here := { s with env := s.env.push (caller "2") }
    let there := { s with env := s.env.push (caller "3") }
    Needed s.env.procedures (d.params.drop 1) "z" ∧
      (∀ n, Needed s.env.procedures (d.params.drop 1) (Text.foldCase n) →
        (caller "2").get? n = (caller "3").get? n) ∧
      Ended (Indistinct here there) Eq Eq (openFrame (eval 9) d [.text "0"] here)
        (openFrame (eval 9) d [.text "0"] there) := by
  intro e d s caller here there
  have found : s.env.procedures["e"]? = some e :=
    (State.initial.env.getElem?_defineProcedure e "e").trans (if_pos (by decide))
  have e_needed : Needed s.env.procedures (d.params.drop 1) "e" :=
    .fallback (n := "e") (List.mem_singleton_self _) rfl (by decide)
  have z_needed : Needed s.env.procedures (d.params.drop 1) "z" :=
    .callee (n := "z") e_needed (.listed found) (List.mem_singleton_self _) rfl (by decide)
  have only : ∀ key p, InReach s.env.procedures key p → p = e := by
    intro key p hp
    induction hp with
    | listed h =>
      rw [State.initial.env.getElem?_defineProcedure e] at h
      split at h
      · exact (Option.some.inj h).symm
      · cases h
    | declared h hq ih =>
      subst ih
      cases hq
  have needed : ∀ key, Needed s.env.procedures (d.params.drop 1) key → key ∈ ["y", "e", "z"] := by
    intro key h
    cases h with
    | fallback hq he hn =>
      obtain rfl := List.mem_singleton.mp hq
      cases he
      have folded : ∀ n ∈ ["Y", "e"], Text.foldCase n ∈ ["y", "e", "z"] := by decide
      exact folded _ hn
    | callee h hp hq he hn =>
      obtain rfl := only _ _ hp
      obtain rfl := List.mem_singleton.mp hq
      cases he
      have folded : ∀ n ∈ ["z"], Text.foldCase n ∈ ["y", "e", "z"] := by decide
      exact folded _ hn
  have agree : ∀ n, Needed s.env.procedures (d.params.drop 1) (Text.foldCase n) →
      (caller "2").get? n = (caller "3").get? n := by
    intro n hn
    have other : Text.foldCase "x" ≠ Text.foldCase n := by
      intro same
      have mem := needed _ hn
      rw [← same] at mem
      revert mem
      decide
    have unseen (x : String) : (caller x).get? n = (Scope.empty.set "y" (.text "1")).get? n :=
      (Scope.get?_set _ "x" n _).trans (if_neg other)
    rw [unseen, unseen]
  exact ⟨z_needed, agree, (openFrame_determined 9 d [.text "0"] s _ _ agree).1⟩

/-- Two callers with different variables of the name in a fallback give the parameter different
values, and a caller without such a variable gets one. -/
theorem openFrame_sees_caller :
    let d : Procedure := ⟨.function, "D", [⟨"v", true, some (.name "y")⟩], []⟩
    let calledFrom (caller : Scope) : State :=
      { State.initial with env := State.initial.env.push caller }
    (∃ frame frame' s s',
        openFrame (eval 1) d [] (calledFrom (Scope.empty.set "y" (.text "1"))) = .ok frame s ∧
        openFrame (eval 1) d [] (calledFrom (Scope.empty.set "y" (.text "2"))) = .ok frame' s' ∧
        frame.get? "v" = some (.text "1") ∧ frame'.get? "v" = some (.text "2")) ∧
      ∃ frame s, openFrame (eval 1) d [] (calledFrom .empty) = .ok frame s ∧
        s.env.boundIn 0 "y" := by
  intro d calledFrom
  refine ⟨⟨_, _, _, _, rfl, rfl, ?_, ?_⟩, _, _, rfl, ?_⟩
  · decide +kernel
  · decide +kernel
  · decide +kernel

end Machine

end MiniBasic
