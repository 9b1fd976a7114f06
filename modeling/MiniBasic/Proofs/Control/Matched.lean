import MiniBasic.Proofs.Control.Ordinary
import MiniBasic.Proofs.Control.Unwinding
import MiniBasic.Proofs.Machine.Isolation

/-!
# Exits that are matched

If each `Exit` stands inside a construct that it leaves, in the same procedure, then no exit gets
any further than that: no call is left by an exit of another kind, and no operation of a host fails
for an exit. The proof is an invariant of the machine with an explicit stack. Exits that may be
executed are allowed by the constructs on the stack down to the innermost call, and every step keeps
it that way.
-/

namespace MiniBasic

/-! ## Matched programs -/

mutual

/-- Each `Exit` in a statement is inside a construct of its kind, or is among those that the
constructs around the statement allow. A declaration starts anew. -/
def Stmt.matched (allowed : List ExitTarget) : Stmt → Bool
  | .forLoop _ _ _ _ body _ => matchedAll (.forLoop :: allowed) body
  | .ifThen _ body alternative => matchedAll allowed body && alternative.matched allowed
  | .doWhile _ body => matchedAll (.doLoop :: allowed) body
  | .procedure kind _ _ body => matchedAll [kind.exitTarget] body
  | .exit target => allowed.contains target
  | _ => true

def Alternative.matched (allowed : List ExitTarget) : Alternative → Bool
  | .none => true
  | .block body => matchedAll allowed body
  | .elseIf _ body alternative => matchedAll allowed body && alternative.matched allowed

def matchedAll (allowed : List ExitTarget) : List Stmt → Bool
  | [] => true
  | stmt :: stmts => stmt.matched allowed && matchedAll allowed stmts

end

theorem matched_of_mem_matchedAll {allowed : List ExitTarget} {stmts : List Stmt}
    (h : matchedAll allowed stmts) {stmt : Stmt} (mem : stmt ∈ stmts) : stmt.matched allowed := by
  induction stmts with
  | nil => cases mem
  | cons first stmts ih =>
    obtain ⟨hfirst, hrest⟩ := Bool.and_eq_true_iff.mp h
    cases mem with
    | head => exact hfirst
    | tail _ mem => exact ih hrest mem

namespace Procedure

def Matched (p : Procedure) : Prop :=
  matchedAll [p.kind.exitTarget] p.body

theorem matched_of_ofStmt? {allowed : List ExitTarget} {stmt : Stmt} (h : stmt.matched allowed)
    {p : Procedure} (hp : ofStmt? stmt = some p) : p.Matched := by
  unfold ofStmt? at hp
  split at hp
  · cases hp
    exact h
  · cases hp

theorem matched_of_mem {allowed : List ExitTarget} {program : Program}
    (h : matchedAll allowed program) :
    ∀ p ∈ program.filterMap ofStmt?, p.Matched := by
  intro p hp
  obtain ⟨stmt, mem, hstmt⟩ := List.mem_filterMap.mp hp
  exact matched_of_ofStmt? (matched_of_mem_matchedAll h mem) hstmt

end Procedure

namespace Environment

/-- The procedures in the table are matched. -/
def Matched (env : Environment) : Prop :=
  ∀ name p, env.procedure? name = some p → p.Matched

variable {env env' : Environment}

theorem Matched.of_procedures (h : env.Matched) (same : env'.procedures = env.procedures) :
    env'.Matched := by
  intro name p hp
  rw [procedure?, same] at hp
  exact h name p hp

theorem Matched.defineProcedure (h : env.Matched) {p : Procedure} (hp : p.Matched) :
    (env.defineProcedure p).Matched := by
  intro name q hq
  rw [procedure?, Environment.defineProcedure, Std.ExtTreeMap.getElem?_insert] at hq
  split at hq
  · cases hq
    exact hp
  · exact h name q hq

theorem Matched.defineAll (h : env.Matched) {procedures : List Procedure}
    (hp : ∀ p ∈ procedures, p.Matched) :
    (procedures.foldl Environment.defineProcedure env).Matched := by
  induction procedures generalizing env with
  | nil => exact h
  | cons p procedures ih =>
    obtain ⟨first, rest⟩ := List.forall_mem_cons.mp hp
    exact ih (h.defineProcedure first) rest

end Environment

namespace State

def Matched (s : State) : Prop :=
  s.env.Matched

end State

namespace Operation

/-- A program is matched if no exit is left over at its top level. -/
def Matched : Operation → Prop
  | run program => matchedAll [] program
  | call _ _ => True
  | evaluate _ => True

instance : (op : Operation) → Decidable op.Matched
  | run program => inferInstanceAs (Decidable (matchedAll [] program = true))
  | call _ _ => .isTrue trivial
  | evaluate _ => .isTrue trivial

end Operation

namespace Control

variable {allowed : List ExitTarget}

/-! ## What may be executed -/

namespace Construct

/-- The exits that the body may hold. A call does not let those of its surroundings in. -/
def allows (allowed : List ExitTarget) : Construct → List ExitTarget
  | forLoop .. => .forLoop :: allowed
  | doLoop .. => .doLoop :: allowed
  | call p _ => [p.kind.exitTarget]

def Matched (allowed : List ExitTarget) (c : Construct) : Prop :=
  matchedAll (c.allows allowed) c.body

end Construct

namespace Code

/-- Where the exits in `allowed` may be executed, the code executes no others, and its errors are
ordinary. -/
def Matched (allowed : List ExitTarget) : Code → Prop
  | value _ => True
  | fail e => e.Ordinary
  | exit t => t ∈ allowed
  | act next change => ∀ s : State, s.Matched → (change s).Matched ∧ (next s).Matched allowed
  | eval _ next => ∀ v, (next v).Matched allowed
  | exec body next => matchedAll allowed body ∧ next.Matched allowed
  | inside c => c.Matched allowed

theorem matched_look {next : State → Code} (h : ∀ s : State, s.Matched → (next s).Matched allowed) :
    (look next).Matched allowed :=
  fun s hs ↦ ⟨hs, h s hs⟩

theorem matched_onEnv {f : Environment → Environment}
    (hf : ∀ env : Environment, env.Matched → (f env).Matched) {next : Code}
    (h : next.Matched allowed) : (onEnv f next).Matched allowed :=
  fun s hs ↦ ⟨hf s.env hs, h⟩

theorem matched_onHeap {α : Type} {action : Heap.Action α} (ordinary : action.Ordinary)
    {next : α → Code} (h : ∀ a, (next a).Matched allowed) :
    (onHeap action next).Matched allowed := by
  intro s hs
  dsimp only
  cases hr : action s.heap with
  | ok a heap => exact ⟨hs, h a⟩
  | error e heap => exact ⟨hs, ordinary hr⟩

theorem matched_assign (name : String) (v : Value) {next : Code} (h : next.Matched allowed) :
    (assign name v next).Matched allowed :=
  matched_onEnv (fun env henv ↦ henv.of_procedures (env.assign_procedures name v)) h

theorem matched_getOrDeclare (name : String) {next : Value → Code}
    (h : ∀ v, (next v).Matched allowed) :
    (getOrDeclare name next).Matched allowed :=
  fun s hs ↦ ⟨Environment.Matched.of_procedures hs (s.env.getOrDeclare_procedures name), h _⟩

theorem matched_value (v : Value) : (value v).Matched allowed :=
  trivial

/-! ## Expressions -/

theorem matched_applyValue (name : String) (target : Value) (args : List Value) :
    (applyValue name target args).Matched allowed := by
  unfold applyValue
  split
  · exact matched_look fun s _ ↦ matched_onHeap (Heap.Action.ordinary_callNative _ _ args)
      matched_value
  · refine matched_look fun s _ ↦ matched_onHeap ?_ matched_value
    exact .ofExcept (s.heap.ordinary_read name _ args)

theorem matched_callMember (object : Value) (member : String) (args : List Value) :
    (callMember object member args).Matched allowed := by
  unfold callMember
  split
  · split
    · exact fun s hs ↦ ⟨hs, trivial⟩
    · exact nofun
  · refine matched_onHeap (Heap.Action.ordinary_callMethod? _ member args) fun result ↦ ?_
    cases result with
    | some result => exact trivial
    | none => exact nofun

theorem matched_evalAll (es : List Expr) {next : List Value → Code}
    (h : ∀ vs, (next vs).Matched allowed) :
    (evalAll es next).Matched allowed := by
  induction es generalizing next with
  | nil => exact h []
  | cons e es ih => exact fun v ↦ ih fun vs ↦ h (v :: vs)

theorem matched_bindParams (ps : List Param) (values : List Value) (frame : Scope)
    {next : Scope → Code} (h : ∀ frame, (next frame).Matched allowed) :
    (bindParams ps values frame next).Matched allowed := by
  induction ps generalizing values frame with
  | nil => exact h frame
  | cons p ps ih =>
    cases values with
    | cons v values => exact ih values _
    | nil =>
      unfold bindParams
      split
      · exact fun v ↦ ih [] _
      · exact ih [] _

theorem matched_enterCall {p : Procedure} (hp : p.Matched) (values : List Value)
    (args : List Expr) :
    (enterCall p values args).Matched allowed :=
  matched_bindParams p.params values .empty fun _ ↦ matched_onEnv (fun _ henv ↦ henv) hp

theorem matched_invoke {p : Procedure} (hp : p.Matched) (args : List Expr) :
    (invoke p args).Matched allowed :=
  matched_evalAll args fun values ↦ matched_enterCall hp values args

theorem matched_name (n : String) : (name n).Matched allowed := by
  refine matched_look fun s hs ↦ ?_
  split
  · exact trivial
  · split
    next p hp => exact matched_invoke (hs n p hp) []
    next => exact matched_getOrDeclare n matched_value

theorem matched_call (callee : Expr) (args : List Expr) : (call callee args).Matched allowed := by
  unfold call
  split
  next n =>
    refine matched_look fun s hs ↦ ?_
    split
    next p hp => exact matched_invoke (hs n p hp) args
    next =>
      split
      · exact matched_evalAll args fun values ↦ matched_applyValue n _ values
      · exact nofun
  next object property =>
    exact fun object ↦ matched_evalAll args fun values ↦ matched_callMember object property values
  next => exact fun target ↦ matched_evalAll args fun values ↦
    matched_applyValue "expression" target values

theorem matched_expr (e : Expr) : (expr e).Matched allowed := by
  cases e with
  | number x => exact trivial
  | text s => exact trivial
  | name n => exact matched_name n
  | unary op e => exact fun v ↦ trivial
  | binary op l r =>
    refine fun a b ↦ matched_look fun s _ ↦ matched_onHeap ?_ matched_value
    exact .ofExcept (s.heap.ordinary_applyBinary op a b)
  | call callee args => exact matched_call callee args
  | member object property => exact fun object ↦ matched_callMember object property []
  | new typeName => exact matched_onHeap (Heap.Action.ordinary_instantiate typeName) matched_value

/-! ## Statements -/

theorem matched_evalStep (step : Option Expr) {next : Float → Code}
    (h : ∀ x, (next x).Matched allowed) :
    (evalStep step next).Matched allowed := by
  cases step with
  | some step => exact fun v ↦ h v.toNumber
  | none => exact h 1

theorem matched_forRound {counter : String} {limit step : Float} {body : List Stmt}
    (h : matchedAll (.forLoop :: allowed) body) :
    (forRound counter limit step body).Matched allowed := by
  refine matched_getOrDeclare counter fun v ↦ ?_
  split
  · exact h
  · exact trivial

theorem matched_whileRound {condition : Expr} {body : List Stmt}
    (h : matchedAll (.doLoop :: allowed) body) :
    (whileRound condition body).Matched allowed := by
  intro v
  dsimp only
  split
  · exact h
  · exact trivial

theorem matched_evalBound (bound : Expr) {next : Nat → Code} (h : ∀ n, (next n).Matched allowed) :
    (evalBound bound next).Matched allowed :=
  fun v ↦ matched_onHeap (.ofExcept (Machine.ordinary_boundLength v.toNumber)) h

theorem matched_evalBounds (bounds : List Expr) {next : List Nat → Code}
    (h : ∀ lengths, (next lengths).Matched allowed) : (evalBounds bounds next).Matched allowed := by
  induction bounds generalizing next with
  | nil => exact h []
  | cons bound bounds ih => exact matched_evalBound bound fun n ↦ ih fun lengths ↦ h (n :: lengths)

theorem matched_declareAll (ds : List Declarator) : (declareAll ds).Matched allowed := by
  induction ds with
  | nil => exact trivial
  | cons d ds ih =>
    have rest (v : Value) : (assign d.name v (declareAll ds)).Matched allowed :=
      matched_assign d.name v ih
    unfold declareAll declaredValue
    split
    · exact matched_evalBounds _ fun lengths ↦
        matched_onHeap (Machine.ordinary_allocate lengths) rest
    · split
      · exact matched_onHeap (Heap.Action.ordinary_instantiate _) rest
      · exact rest .empty

theorem matched_evalContainer (callee : Expr) {next : Value → Code}
    (h : ∀ v, (next v).Matched allowed) :
    (evalContainer callee next).Matched allowed := by
  unfold evalContainer
  split
  · exact matched_getOrDeclare _ h
  · split
    · exact h
    · exact h
  · exact h

theorem matched_assignTo (target : Expr) (v : Value) : (assignTo target v).Matched allowed := by
  unfold assignTo
  split
  · exact matched_assign _ v trivial
  · refine matched_evalContainer _ fun container ↦ matched_evalAll _ fun indices ↦ ?_
    exact matched_onHeap (Heap.Action.ordinary_write _ container indices v) fun _ ↦ trivial
  · exact fun object ↦ nofun
  · exact nofun

theorem matched_eraseAll (names : List String) : (eraseAll names).Matched allowed := by
  induction names with
  | nil => exact trivial
  | cons name names ih =>
    exact matched_onHeap (Heap.Action.ordinary_newArray _) fun v ↦ matched_assign name v ih

theorem matched_reDim (name : String) (length : Nat) : (reDim name length).Matched allowed :=
  matched_onHeap (Heap.Action.ordinary_newArray _) fun v ↦ matched_assign name v trivial

theorem matched_chooseBranch : {alternative : Alternative} → alternative.matched allowed →
    (chooseBranch alternative).Matched allowed
  | .none, _ => trivial
  | .block body, h => ⟨h, trivial⟩
  | .elseIf condition body alternative, h => by
    obtain ⟨first, rest⟩ := Bool.and_eq_true_iff.mp h
    intro v
    dsimp only
    split
    · exact ⟨first, trivial⟩
    · exact matched_chooseBranch rest

theorem matched_stmt {s : Stmt} (h : s.matched allowed) : (stmt s).Matched allowed := by
  cases s with
  | forLoop counter start stop step body closing =>
    refine fun start stop ↦ matched_evalStep step fun step ↦ matched_assign counter _ ?_
    exact matched_forRound h
  | ifThen condition body alternative =>
    have branches : (Alternative.elseIf condition body alternative).matched allowed := h
    exact matched_chooseBranch branches
  | doWhile condition body => exact matched_whileRound h
  | procedure kind name params body =>
    have hp : Procedure.Matched ⟨kind, name, params, body⟩ := h
    exact matched_onEnv (fun env henv ↦ henv.defineProcedure hp) trivial
  | dim declarators => exact matched_declareAll declarators
  | const name e => exact fun v ↦ matched_assign name v trivial
  | set target e => exact fun v ↦ matched_assignTo target v
  | assign target e => exact fun v ↦ matched_assignTo target v
  | onError policy =>
    intro s hs
    refine ⟨?_, trivial⟩
    dsimp only
    split
    · exact hs
    · exact hs
  | erase names => exact matched_eraseAll names
  | reDim name bounds preserve =>
    unfold stmt
    dsimp only
    split
    · exact matched_evalBound _ fun length ↦ matched_reDim name length
    · exact matched_reDim name 0
  | exit target => exact List.contains_iff_mem.mp h
  | label name => exact trivial
  | option setting =>
    cases setting with
    | base n => exact fun s hs ↦ ⟨hs, trivial⟩
    | explicit => exact trivial
    | compare mode => exact trivial
  | call e => exact fun _ ↦ trivial

end Code

/-! ## Constructs -/

theorem Construct.matched_next {c : Construct} (h : c.Matched allowed) :
    c.next.Matched allowed := by
  cases c with
  | forLoop counter limit step body =>
    have round : (Code.forRound counter limit step body).Matched allowed := Code.matched_forRound h
    exact Code.matched_getOrDeclare counter fun v ↦
      Code.matched_assign counter (.number (v.toNumber + step)) round
  | doLoop condition body => exact Code.matched_whileRound h
  | call p args =>
    exact fun s hs ↦ ⟨Environment.Matched.of_procedures hs (Environment.copyBack_procedures ..),
      trivial⟩

end Control

namespace State

variable {s : State}

theorem Matched.leave (h : s.Matched) (c : Control.Construct) : (c.leave s).2.Matched := by
  cases c with
  | call p args => exact Environment.Matched.of_procedures h (Environment.copyBack_procedures ..)
  | forLoop counter limit step body => exact h
  | doLoop condition body => exact h

theorem Matched.abandon (h : s.Matched) (c : Control.Construct) : (c.abandon s).Matched := by
  cases c with
  | call p args => exact h
  | forLoop counter limit step body => exact h
  | doLoop condition body => exact h

end State

namespace Control

/-! ## The invariant -/

/-- The exits that may be executed on a stack: those for a construct that is above the innermost
call, and those for that call. -/
def allowedBy : Stack → List ExitTarget
  | [] => []
  | .resume _ :: stack => allowedBy stack
  | .active c :: stack => c.allows (allowedBy stack)

/-- Whatever waits on the stack may go on when what is above is gone. -/
def Stack.Matched : Stack → Prop
  | [] => True
  | .resume next :: stack => (∀ v, (next v).Matched (allowedBy stack)) ∧ Stack.Matched stack
  | .active c :: stack => c.Matched (allowedBy stack) ∧ Stack.Matched stack

namespace Config

def Matched : Config → Prop
  | running code stack s => code.Matched (allowedBy stack) ∧ Stack.Matched stack ∧ s.Matched
  | halted outcome s => (∀ t, outcome ≠ .failed (.unmatchedExit t)) ∧ s.Matched

end Config

theorem matched_abort {e : RuntimeError} (he : e.Ordinary) (stack : Stack) {s : State}
    (hs : s.Matched) :
    (abort e stack s).Matched := by
  induction stack generalizing s with
  | nil =>
    refine ⟨fun t failed ↦ ?_, hs⟩
    cases failed
    exact he t rfl
  | cons waiting stack ih =>
    cases waiting with
    | resume next => exact ih hs
    | active c => exact ih (hs.abandon c)

theorem Construct.mem_of_mem_allows {c : Construct} {t : ExitTarget} (h : t ∈ c.allows allowed)
    (hc : c.target ≠ t) : t ∈ allowed ∧ ∀ p args, c ≠ .call p args := by
  cases c with
  | call p args => exact absurd (List.mem_singleton.mp h).symm hc
  | forLoop counter limit step body =>
    cases h with
    | head => exact absurd rfl hc
    | tail _ h => exact ⟨h, nofun⟩
  | doLoop condition body =>
    cases h with
    | head => exact absurd rfl hc
    | tail _ h => exact ⟨h, nofun⟩

theorem matched_unwind {t : ExitTarget} {stack : Stack} (ht : t ∈ allowedBy stack)
    (hstack : Stack.Matched stack) {s : State} (hs : s.Matched) : (unwind t stack s).Matched := by
  induction stack generalizing s with
  | nil => cases ht
  | cons waiting stack ih =>
    cases waiting with
    | resume next => exact ih ht hstack.2 hs
    | active c =>
      unfold unwind
      split
      next => exact ⟨trivial, hstack.2, hs.leave c⟩
      next hc => exact ih (Construct.mem_of_mem_allows ht hc).1 hstack.2 (hs.leave c)

/-- An exit that may be executed is for an active construct, and no call is to be left on the way
there. -/
theorem exists_active {t : ExitTarget} {stack : Stack} (ht : t ∈ allowedBy stack) :
    ∃ above c below, stack = above ++ .active c :: below ∧ c.target = t ∧
      ∀ d, .active d ∈ above → d.target ≠ t ∧ ∀ p args, d ≠ .call p args := by
  induction stack with
  | nil => cases ht
  | cons waiting stack ih =>
    cases waiting with
    | resume next =>
      obtain ⟨above, c, below, rfl, hc, habove⟩ := ih ht
      refine ⟨.resume next :: above, c, below, rfl, hc, fun d hd ↦ ?_⟩
      cases hd with
      | tail _ hd => exact habove d hd
    | active c =>
      by_cases hc : c.target = t
      · exact ⟨[], c, stack, rfl, hc, nofun⟩
      · obtain ⟨ht, noCall⟩ := Construct.mem_of_mem_allows ht hc
        obtain ⟨above, d, below, rfl, hd, habove⟩ := ih ht
        refine ⟨.active c :: above, d, below, rfl, hd, fun e he ↦ ?_⟩
        cases he with
        | head => exact ⟨hc, noCall⟩
        | tail _ he => exact habove e he

namespace Config

variable {c d : Config}

theorem Matched.step (h : c.Matched) : c.step.Matched := by
  cases c with
  | halted outcome s => exact h
  | running code stack s =>
    obtain ⟨hcode, hstack, hs⟩ := h
    cases code with
    | value v =>
      cases stack with
      | nil => exact ⟨nofun, hs⟩
      | cons waiting stack =>
        cases waiting with
        | resume next => exact ⟨hstack.1 v, hstack.2, hs⟩
        | active c => exact ⟨Construct.matched_next hstack.1, hstack.2, hs⟩
    | fail e => exact matched_abort hcode stack hs
    | exit t => exact matched_unwind hcode hstack hs
    | act next change => exact ⟨(hcode s hs).2, hstack, (hcode s hs).1⟩
    | eval e next => exact ⟨Code.matched_expr e, ⟨hcode, hstack⟩, hs⟩
    | exec body next =>
      cases body with
      | nil => exact ⟨hcode.2, hstack, hs⟩
      | cons stmt stmts =>
        obtain ⟨first, rest⟩ := Bool.and_eq_true_iff.mp hcode.1
        exact ⟨Code.matched_stmt first, ⟨fun _ ↦ ⟨rest, hcode.2⟩, hstack⟩, hs⟩
    | inside c => exact ⟨⟨hcode, trivial⟩, ⟨hcode, hstack⟩, hs⟩

theorem Matched.reaches (h : c.Matched) (run : c.Reaches d) : d.Matched := by
  obtain ⟨n, rfl⟩ := run
  induction n with
  | zero => exact h
  | succ n ih =>
    rw [Function.iterate_succ_apply']
    exact ih.step

end Config

/-! ## Operations of a host -/

/-- A call in a state with a matched table is left by no exit, however deep the calls in it are. -/
theorem invoke_ne_exit {p : Procedure} (hp : p.Matched) {s : State} (hs : s.Matched) (fuel : Nat)
    (args : List Expr) (t : ExitTarget) (s' : State) :
    Machine.invoke (Machine.eval fuel) (Machine.exec fuel) p args s ≠ .error (.exit t) s' := by
  intro left
  obtain ⟨heval, hexec⟩ := realizes_eval_exec fuel
  have settles := realizes_invoke heval hexec p args [] s
  rw [left] at settles
  cases settles with
  | exit run =>
    have start : (Config.running (.invoke p args) [] s).Matched :=
      ⟨Code.matched_invoke hp args, trivial, hs⟩
    exact (start.reaches run).1 t rfl

theorem matched_start {op : Operation} (hop : op.Matched) {s : State} (hs : s.Matched) :
    (op.start s).Matched := by
  refine ⟨?_, trivial, hs⟩
  cases op with
  | run program =>
    exact Code.matched_onEnv (fun env henv ↦ henv.defineAll (Procedure.matched_of_mem hop))
      ⟨hop, trivial⟩
  | call name args =>
    refine Code.matched_look fun s hs ↦ ?_
    split
    next p hp => exact Code.matched_enterCall (hs name p hp) args []
    next => exact fun t h ↦ by cases h
  | evaluate text =>
    simp only [Operation.code]
    split
    · exact fun v ↦ trivial
    · exact fun t h ↦ by cases h

/-- Matched exits stay where they are. If a program and the procedures known before are matched,
then no operation of a host fails for an exit, and the procedures known afterwards are matched
again. Whenever an `Exit` is executed in the run, it is for an active construct that is reached
without leaving any call, and from any state of the run a call of any known procedure is left by no
exit. -/
theorem ne_unmatchedExit_of_matched {op : Operation} (hop : op.Matched) {s : State}
    (hs : s.Matched) :
    (∀ fuel outcome s', op.perform fuel s = (outcome, s') →
        (∀ t, outcome ≠ .failed (.unmatchedExit t)) ∧ (outcome ≠ .unfinished → s'.Matched)) ∧
      (∀ t stack s₁, (op.start s).Reaches (.running (.exit t) stack s₁) →
        ∃ above c below, stack = above ++ .active c :: below ∧ c.target = t ∧
          ∀ d, .active d ∈ above → d.target ≠ t ∧ ∀ p args, d ≠ .call p args) ∧
      ∀ code stack s₁, (op.start s).Reaches (.running code stack s₁) →
        ∀ name p, s₁.env.procedure? name = some p → ∀ fuel args t s₂,
          Machine.invoke (Machine.eval fuel) (Machine.exec fuel) p args s₁ ≠
            .error (.exit t) s₂ := by
  have start : (op.start s).Matched := matched_start hop hs
  refine ⟨fun fuel outcome s' performed ↦ ?_, fun t stack s₁ run ↦
    exists_active (start.reaches run).1,
    fun code stack s₁ run name p hp fuel args ↦ ?_⟩
  · rcases halts_or_lasts fuel op s with ⟨-, halts⟩ | ⟨unfinished, -⟩
    · rw [performed] at halts
      exact ⟨(start.reaches halts).1, fun _ ↦ (start.reaches halts).2⟩
    · rw [performed] at unfinished
      subst unfinished
      exact ⟨nofun, absurd rfl⟩
  · have known : s₁.Matched := (start.reaches run).2.2
    exact invoke_ne_exit (known name p hp) known fuel args

/-- A loop that calls a procedure, which is left from within a loop of its own. -/
theorem ne_unmatchedExit_nested :
    let op : Operation := .run [.procedure .sub "S" [] [.doWhile (.name "True") [.exit .sub]],
      .doWhile (.name "True") [.call (.call (.name "S") []), .exit .doLoop]]
    op.Matched ∧ State.initial.Matched ∧
      (∀ fuel t, (op.perform fuel .initial).1 ≠ .failed (.unmatchedExit t)) ∧
      ∃ stack s₁ p, (op.start .initial).Reaches (.running (.exit .sub) stack s₁) ∧
        (∃ above c below, stack = above ++ .active c :: below ∧ c.target = .sub ∧
          ∀ d, .active d ∈ above → d.target ≠ .sub ∧ ∀ p args, d ≠ .call p args) ∧
        s₁.env.procedure? "S" = some p ∧ ∀ fuel args t s₂,
          Machine.invoke (Machine.eval fuel) (Machine.exec fuel) p args s₁ ≠
            .error (.exit t) s₂ := by
  intro op
  have hop : op.Matched := by decide
  have hs : State.initial.Matched := fun _ _ hp ↦ by cases hp
  have reached : ∃ stack s₁ p, (op.start .initial).Reaches (.running (.exit .sub) stack s₁) ∧
      s₁.env.procedure? "S" = some p := ⟨_, _, _, ⟨20, rfl⟩, rfl⟩
  obtain ⟨stack, s₁, p, reached, known⟩ := reached
  obtain ⟨outcomes, exits, calls⟩ := ne_unmatchedExit_of_matched hop hs
  exact ⟨hop, hs, fun fuel ↦ (outcomes fuel _ _ rfl).1, stack, s₁, p, reached,
    exits .sub stack s₁ reached, known, calls _ stack s₁ reached "S" p known⟩

end Control

end MiniBasic
