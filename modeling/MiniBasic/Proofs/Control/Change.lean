import MiniBasic.Proofs.Control.Unwinding
import MiniBasic.Proofs.Heap.Guarantee
import MiniBasic.Proofs.Machine.Isolation

/-!
# What a step changes

The machine with an explicit stack changes its state in few ways, and `State.Change` lists them: a
variable is assigned or declared, procedures are defined, an action is taken on the heap, a frame is
pushed, and so on. When a construct is left, frames are popped and parameters are copied back.
Whatever all of this keeps, every run keeps, from each of its moments to each later one:
`Execution.moment` is the machine after some steps.

The procedures that a run defines are declared somewhere in its program or in a procedure that it
calls. `Within D` says of code, of stacks and of configurations that all of these are in `D`.
-/

namespace MiniBasic

/-! ## Declarations -/

mutual

/-- The procedures that a statement declares, at every depth. -/
def Stmt.declared : Stmt → List Procedure
  | .forLoop _ _ _ _ body _ => declaredAll body
  | .ifThen _ body alternative => declaredAll body ++ alternative.declared
  | .doWhile _ body => declaredAll body
  | .procedure kind name params body => ⟨kind, name, params, body⟩ :: declaredAll body
  | _ => []

def Alternative.declared : Alternative → List Procedure
  | .none => []
  | .block body => declaredAll body
  | .elseIf _ body alternative => declaredAll body ++ alternative.declared

def declaredAll : List Stmt → List Procedure
  | [] => []
  | stmt :: stmts => stmt.declared ++ declaredAll stmts

end

theorem mem_declaredAll {p : Procedure} {stmts : List Stmt} :
    p ∈ declaredAll stmts ↔ ∃ stmt ∈ stmts, p ∈ stmt.declared := by
  induction stmts with
  | nil => simp [declaredAll]
  | cons stmt stmts ih => simp only [declaredAll, List.mem_append, ih, List.exists_mem_cons_iff]

/-- Every procedure that is declared in a body is in `D`. -/
def Declares (D : Procedure → Prop) (body : List Stmt) : Prop :=
  ∀ p ∈ declaredAll body, D p

variable {D : Procedure → Prop}

theorem Declares.cons {stmt : Stmt} {stmts : List Stmt} (h : Declares D (stmt :: stmts)) :
    (∀ p ∈ stmt.declared, D p) ∧ Declares D stmts :=
  List.forall_mem_append.mp h

/-! ## Changes -/

namespace State

/-- What one step may do to the state, as long as no construct is left. -/
inductive Change (D : Procedure → Prop) (s : State) : State → Prop
  | none : Change D s s
  | assign (n : String) (v : Value) : Change D s { s with env := s.env.assign n v }
  | declare (n : String) (v : Value) (unbound : s.env.get? n = none) :
    Change D s { s with env := s.env.declare n v }
  | define (ps : List Procedure) (h : ∀ p ∈ ps, D p ∧ Declares D p.body) :
    Change D s { s with env := ps.foldl Environment.defineProcedure s.env }
  | heap {α : Type} {action : Heap.Action α} (taken : action.Taken) :
    Change D s { s with heap := action.after s.heap }
  | base (n : Nat) : Change D s { s with arrayBase := n }
  | print (line : String) : Change D s { s with output := s.output.push line }
  | note (n : Notice) : Change D s (s.noted n)
  | push (frame : Scope) : Change D s { s with env := s.env.push frame }

/-- What becomes of the state when constructs are left: frames are popped, and variables are
assigned. -/
inductive Unwound (s : State) : State → Prop
  | refl : Unwound s s
  | pop {s' : State} (h : Unwound s s') : Unwound s { s' with env := s'.env.pop.2 }
  | assign {s' : State} (h : Unwound s s') (n : String) (v : Value) :
    Unwound s { s' with env := s'.env.assign n v }

theorem Unwound.copyBack {s s' : State} (h : Unwound s s') (frame : Scope) (params : List Param)
    (args : List Expr) : Unwound s { s' with env := Machine.copyBack frame params args s'.env } :=
  Environment.copyBack_induction (P := fun env ↦ Unwound s { s' with env })
    (fun _ n v h ↦ h.assign n v) frame params args h

/-- The procedures in the table declare procedures in `D` only. -/
def Known (D : Procedure → Prop) (s : State) : Prop :=
  ∀ (key : String) (p : Procedure), s.env.procedures[key]? = some p → Declares D p.body

variable {s s' : State}

theorem Known.of_procedures (h : s.Known D) (same : s'.env.procedures = s.env.procedures) :
    s'.Known D := by
  intro key p hp
  rw [same] at hp
  exact h key p hp

/-- What holds of the procedures in the table and of those that are defined holds of the procedures
in the table after that. -/
theorem forall_procedures_defineAll {P : String → Procedure → Prop} {env : Environment}
    (h : ∀ key p, env.procedures[key]? = some p → P key p) {ps : List Procedure}
    (hps : ∀ p ∈ ps, P (Text.foldCase p.name) p) :
    ∀ key p, (ps.foldl Environment.defineProcedure env).procedures[key]? = some p → P key p := by
  induction ps generalizing env with
  | nil => exact h
  | cons p ps ih =>
    obtain ⟨first, rest⟩ := List.forall_mem_cons.mp hps
    refine ih (fun key q hq ↦ ?_) rest
    rw [Environment.defineProcedure, Std.ExtTreeMap.getElem?_insert] at hq
    split at hq
    next same =>
      obtain rfl := Option.some.inj hq
      rw [← Std.LawfulEqCmp.eq_of_compare same]
      exact first
    next => exact h key q hq

theorem Change.forall_procedures {P : String → Procedure → Prop} (h : s.Change D s')
    (defined : ∀ p, D p → Declares D p.body → P (Text.foldCase p.name) p)
    (hs : ∀ key p, s.env.procedures[key]? = some p → P key p) :
    ∀ key p, s'.env.procedures[key]? = some p → P key p := by
  cases h with
  | assign n v =>
    rw [s.env.assign_procedures n v]
    exact hs
  | declare n v unbound =>
    rw [s.env.declare_procedures n v]
    exact hs
  | define ps hps =>
    exact forall_procedures_defineAll hs fun p hp ↦ defined p (hps p hp).1 (hps p hp).2
  | note n =>
    rw [s.noted_env n]
    exact hs
  | _ => exact hs

theorem Change.known (h : s.Change D s') (hs : s.Known D) : s'.Known D :=
  h.forall_procedures (fun _ _ declares ↦ declares) hs

theorem Unwound.procedures (h : s.Unwound s') : s'.env.procedures = s.env.procedures := by
  induction h with
  | refl => rfl
  | pop _ ih => exact ih
  | @assign s' _ n v ih => exact (s'.env.assign_procedures n v).trans ih

end State

namespace Control

/-! ## Code -/

namespace Code

/-- The code of one step that looks at the state or changes it. What it defines is in `D`. -/
inductive Single (D : Procedure → Prop) : Code → Prop
  | look (next : State → Code) : Single D (look next)
  | assign (n : String) (v : Value) (next : Code) : Single D (assign n v next)
  | getOrDeclare (n : String) (next : Value → Code) : Single D (getOrDeclare n next)
  | define (ps : List Procedure) (h : ∀ p ∈ ps, D p ∧ Declares D p.body) (next : Code) :
    Single D (onEnv (fun env ↦ ps.foldl Environment.defineProcedure env) next)
  | heap {α : Type} {action : Heap.Action α} (h : action.Modest) (next : α → Code) :
    Single D (onHeap action next)
  | native (arrayBase : Nat) (f : Native) (args : List Value) :
    Single D (onHeap (Heap.Action.callNative arrayBase f args) value)
  | method (object : Value) (member : String) (args : List Value) (next : Option Value → Code) :
    Single D (onHeap (Heap.Action.callMethod? object member args) next)
  | base (n : Nat) (next : Code) : Single D (change (fun s ↦ { s with arrayBase := n }) next)
  | print (values : List Value) (next : Code) : Single D (print values next)
  | note (n : Notice) (next : Code) : Single D (note n next)
  | push (frame : Scope) (next : Code) : Single D (onEnv (·.push frame) next)
  | leave (p : Procedure) (args : List Expr) : Single D (Construct.call p args).next

/-- The code looks at the state and changes it in the listed steps only, and it executes and calls
bodies that declare procedures in `D` only. -/
def Within (D : Procedure → Prop) : Code → Prop
  | value _ => True
  | fail _ => True
  | exit _ => True
  | act next change => Single D (act next change) ∧ ∀ s : State, s.Known D → (next s).Within D
  | eval _ next => ∀ v, (next v).Within D
  | exec body next => Declares D body ∧ next.Within D
  | inside c => Declares D c.body

theorem within_value (v : Value) : (value v).Within D :=
  trivial

theorem within_change {f : State → State} {next : Code} (single : Single D (change f next))
    (h : next.Within D) :
    (change f next).Within D :=
  ⟨single, fun _ _ ↦ h⟩

theorem within_look {next : State → Code} (h : ∀ s : State, s.Known D → (next s).Within D) :
    (look next).Within D :=
  ⟨.look next, h⟩

theorem within_onHeap {α : Type} {action : Heap.Action α} {next : α → Code}
    (single : Single D (onHeap action next))
    (h : ∀ a heap heap', action heap = .ok a heap' → (next a).Within D) :
    (onHeap action next).Within D := by
  refine ⟨single, fun s _ ↦ ?_⟩
  dsimp only
  cases hr : action s.heap with
  | ok a heap => exact h a s.heap heap hr
  | error e heap => exact trivial

theorem within_assign (name : String) (v : Value) {next : Code} (h : next.Within D) :
    (assign name v next).Within D :=
  within_change (.assign name v next) h

theorem within_getOrDeclare (name : String) {next : Value → Code} (h : ∀ v, (next v).Within D) :
    (getOrDeclare name next).Within D :=
  ⟨.getOrDeclare name next, fun _ _ ↦ h _⟩

/-! ### Expressions -/

theorem within_applyValue (name : String) (target : Value) (args : List Value) :
    (applyValue name target args).Within D := by
  unfold applyValue
  split
  · exact within_look fun s _ ↦ within_onHeap (.native _ _ args) fun v _ _ _ ↦ within_value v
  · exact within_look fun s _ ↦ within_onHeap (.heap (.outcome _) _) fun v _ _ _ ↦ within_value v

theorem within_callMember (object : Value) (member : String) (args : List Value) :
    (callMember object member args).Within D := by
  unfold callMember
  split
  · split
    · exact within_change (.print args _) trivial
    · exact trivial
  · refine within_onHeap (.method _ member args _) fun result _ _ _ ↦ ?_
    cases result with
    | some result => exact trivial
    | none => exact trivial

theorem within_evalAll (es : List Expr) {next : List Value → Code} (h : ∀ vs, (next vs).Within D) :
    (evalAll es next).Within D := by
  induction es generalizing next with
  | nil => exact h []
  | cons e es ih => exact fun v ↦ ih fun vs ↦ h (v :: vs)

theorem within_bindParams (ps : List Param) (values : List Value) (frame : Scope)
    {next : Scope → Code} (h : ∀ frame, (next frame).Within D) :
    (bindParams ps values frame next).Within D := by
  induction ps generalizing values frame with
  | nil => exact h frame
  | cons p ps ih =>
    cases values with
    | cons v values => exact ih values _
    | nil =>
      unfold bindParams
      split
      · exact fun v ↦ ih [] _
      · exact ih [] _

theorem within_enterCall {p : Procedure} (hp : Declares D p.body) (values : List Value)
    (args : List Expr) :
    (enterCall p values args).Within D :=
  within_bindParams p.params values .empty fun _ ↦ within_change (.push _ _) hp

theorem within_invoke {p : Procedure} (hp : Declares D p.body) (args : List Expr) :
    (invoke p args).Within D :=
  within_evalAll args fun values ↦ within_enterCall hp values args

theorem within_name (n : String) : (name n).Within D := by
  refine within_look fun s hs ↦ ?_
  split
  · exact trivial
  · split
    next p hp => exact within_invoke (hs _ p hp) []
    next => exact within_getOrDeclare n within_value

theorem within_call (callee : Expr) (args : List Expr) : (call callee args).Within D := by
  unfold call
  split
  next n =>
    refine within_look fun s hs ↦ ?_
    split
    next p hp => exact within_invoke (hs _ p hp) args
    next =>
      split
      · exact within_evalAll args fun values ↦ within_applyValue n _ values
      · exact trivial
  next object property =>
    exact fun object ↦ within_evalAll args fun values ↦ within_callMember object property values
  next => exact fun target ↦ within_evalAll args fun values ↦
    within_applyValue "expression" target values

theorem within_expr (e : Expr) : (expr e).Within D := by
  cases e with
  | number x => exact trivial
  | text s => exact trivial
  | name n => exact within_name n
  | unary op e => exact fun v ↦ trivial
  | binary op l r =>
    exact fun a b ↦ within_look fun s _ ↦ within_onHeap (.heap (.outcome _) _) fun v _ _ _ ↦
      within_value v
  | call callee args => exact within_call callee args
  | member object property => exact fun object ↦ within_callMember object property []
  | new typeName => exact within_onHeap (.heap (.new typeName) _) fun v _ _ _ ↦ within_value v

/-! ### Statements -/

theorem within_evalStep (step : Option Expr) {next : Float → Code} (h : ∀ x, (next x).Within D) :
    (evalStep step next).Within D := by
  cases step with
  | some step => exact fun v ↦ h v.toNumber
  | none => exact h 1

theorem within_forRound {counter : String} {limit step : Float} {body : List Stmt}
    (h : Declares D body) :
    (forRound counter limit step body).Within D := by
  refine within_getOrDeclare counter fun v ↦ ?_
  split
  · exact h
  · exact trivial

theorem within_whileRound {condition : Expr} {body : List Stmt} (h : Declares D body) :
    (whileRound condition body).Within D := by
  intro v
  dsimp only
  split
  · exact h
  · exact trivial

/-- A bound asks for no more elements than an array may have. -/
theorem within_evalBound (bound : Expr) {next : Nat → Code}
    (h : ∀ n ≤ maxArrayLength, (next n).Within D) :
    (evalBound bound next).Within D := by
  refine fun v ↦ within_onHeap (.heap (.outcome _) _) fun n heap heap' hn ↦ h n ?_
  unfold Machine.boundLength at hn
  split at hn
  · split at hn
    next lt =>
      cases hn
      exact lt
    next => cases hn
  · cases hn
    exact Nat.zero_le _

theorem within_evalBounds (bounds : List Expr) {next : List Nat → Code}
    (h : ∀ lengths : List Nat, (∀ n ∈ lengths, n ≤ maxArrayLength) → (next lengths).Within D) :
    (evalBounds bounds next).Within D := by
  induction bounds generalizing next with
  | nil => exact h [] (List.forall_mem_nil _)
  | cons bound bounds ih =>
    exact within_evalBound bound fun n le ↦ ih fun lengths les ↦
      h (n :: lengths) (List.forall_mem_cons.mpr ⟨le, les⟩)

theorem within_declareAll (ds : List Declarator) : (declareAll ds).Within D := by
  induction ds with
  | nil => exact trivial
  | cons d ds ih =>
    have rest (v : Value) : (assign d.name v (declareAll ds)).Within D := within_assign d.name v ih
    unfold declareAll declaredValue
    split
    · exact within_evalBounds _ fun lengths les ↦
        within_onHeap (.heap (.allocate lengths les) _) fun v _ _ _ ↦ rest v
    · split
      · exact within_onHeap (.heap (.new _) _) fun v _ _ _ ↦ rest v
      · exact rest .empty

theorem within_evalContainer (callee : Expr) {next : Value → Code} (h : ∀ v, (next v).Within D) :
    (evalContainer callee next).Within D := by
  unfold evalContainer
  split
  · exact within_getOrDeclare _ h
  · split
    · exact h
    · exact h
  · exact h

theorem within_assignTo (target : Expr) (v : Value) : (assignTo target v).Within D := by
  unfold assignTo
  split
  · exact within_assign _ v trivial
  · refine within_evalContainer _ fun container ↦ within_evalAll _ fun indices ↦ ?_
    exact within_onHeap (.heap (.write _ container indices v) _) fun _ _ _ _ ↦ trivial
  · exact fun object ↦ trivial
  · exact trivial

/-- A new array is stored in a variable. -/
theorem within_reDim (name : String) {length : Nat} (h : length ≤ maxArrayLength) {next : Code}
    (hnext : next.Within D) :
    (onHeap (Heap.Action.newArray (Array.replicate length .empty)) fun v ↦
      assign name v next).Within D :=
  within_onHeap (.heap (.fill length h) _) fun v _ _ _ ↦ within_assign name v hnext

theorem within_eraseAll (names : List String) : (eraseAll names).Within D := by
  induction names with
  | nil => exact trivial
  | cons name names ih => exact within_reDim name (Nat.zero_le _) ih

theorem within_chooseBranch : {alternative : Alternative} → (∀ p ∈ alternative.declared, D p) →
    (chooseBranch alternative).Within D
  | .none, _ => trivial
  | .block body, h => ⟨h, trivial⟩
  | .elseIf condition body alternative, h => by
    obtain ⟨first, rest⟩ := List.forall_mem_append.mp h
    intro v
    dsimp only
    split
    · exact ⟨first, trivial⟩
    · exact within_chooseBranch rest

theorem within_stmt {stmt : Stmt} (h : ∀ p ∈ stmt.declared, D p) : (Code.stmt stmt).Within D := by
  cases stmt with
  | forLoop counter start stop step body closing =>
    refine fun start stop ↦ within_evalStep step fun step ↦ within_assign counter _ ?_
    exact within_forRound h
  | ifThen condition body alternative =>
    have branches : ∀ p ∈ (Alternative.elseIf condition body alternative).declared, D p := h
    exact within_chooseBranch branches
  | doWhile condition body => exact within_whileRound h
  | procedure kind name params body =>
    obtain ⟨first, rest⟩ := List.forall_mem_cons.mp h
    refine within_change (.define [⟨kind, name, params, body⟩] (fun p hp ↦ ?_) _) trivial
    obtain rfl := List.mem_singleton.mp hp
    exact ⟨first, rest⟩
  | dim declarators => exact within_declareAll declarators
  | const name e => exact fun v ↦ within_assign name v trivial
  | set target e => exact fun v ↦ within_assignTo target v
  | assign target e => exact fun v ↦ within_assignTo target v
  | onError policy => exact within_change (.note .onErrorIgnored _) trivial
  | erase names => exact within_eraseAll names
  | reDim name bounds preserve =>
    unfold Code.stmt
    dsimp only
    split
    · exact within_evalBound _ fun length le ↦ within_reDim name le trivial
    · exact within_reDim name (Nat.zero_le _) trivial
  | exit target => exact trivial
  | label name => exact trivial
  | option setting =>
    cases setting with
    | base n => exact within_change (.base n _) trivial
    | explicit => exact trivial
    | compare mode => exact trivial
  | call e => exact fun _ ↦ trivial

end Code

/-! ## Configurations -/

theorem Construct.unwound_leave (c : Construct) {s s' : State} (h : s.Unwound s') :
    s.Unwound (c.leave s').2 := by
  cases c with
  | call p args => exact h.pop.copyBack _ p.params args
  | forLoop counter limit step body => exact h
  | doLoop condition body => exact h

theorem Construct.unwound_abandon (c : Construct) {s s' : State} (h : s.Unwound s') :
    s.Unwound (c.abandon s') := by
  cases c with
  | call p args => exact h.pop
  | forLoop counter limit step body => exact h
  | doLoop condition body => exact h

theorem Construct.within_next {c : Construct} (h : Declares D c.body) : c.next.Within D := by
  cases c with
  | forLoop counter limit step body =>
    have round : (Code.forRound counter limit step body).Within D := Code.within_forRound h
    exact Code.within_getOrDeclare counter fun v ↦
      Code.within_assign counter (.number (v.toNumber + step)) round
  | doLoop condition body => exact Code.within_whileRound h
  | call p args => exact ⟨.leave p args, fun _ _ ↦ trivial⟩

/-- What waits on the stack is within `D`. -/
def Stack.Within (D : Procedure → Prop) : Stack → Prop
  | [] => True
  | .resume next :: stack => (∀ v, (next v).Within D) ∧ Stack.Within D stack
  | .active c :: stack => Declares D c.body ∧ Stack.Within D stack

namespace Config

def state : Config → State
  | running _ _ s => s
  | halted _ s => s

def Within (D : Procedure → Prop) : Config → Prop
  | running code stack s => code.Within D ∧ Stack.Within D stack ∧ s.Known D
  | halted _ s => s.Known D

/-- What one step does to the state. -/
def Moves (D : Procedure → Prop) (s s' : State) : Prop :=
  s.Change D s' ∨ s.Unwound s'

theorem Moves.known {s s' : State} (h : Moves D s s') (hs : s.Known D) : s'.Known D := by
  rcases h with changed | unwound
  · exact changed.known hs
  · exact hs.of_procedures unwound.procedures

end Config

theorem Code.onHeap_change {α : Type} {action : Heap.Action α} (next : α → Code)
    {after : State → Code} {change : State → State} (same : onHeap action next = act after change)
    (s : State) :
    change s = { s with heap := action.after s.heap } := by
  cases same
  unfold Heap.Action.after
  dsimp only
  cases action s.heap with
  | ok a heap => rfl
  | error e heap => rfl

/-- What a single step does to the state. -/
theorem Code.Single.moves {next : State → Code} {change : State → State}
    (h : Single D (act next change)) (s : State) : Config.Moves D s (change s) := by
  have onHeap {α : Type} {action : Heap.Action α} (taken : action.Taken) (next : α → Code)
      {after : State → Code} {change : State → State}
      (same : Code.onHeap action next = act after change) :
      Config.Moves D s (change s) := by
    rw [onHeap_change next same]
    exact .inl (.heap taken)
  cases h with
  | look => exact .inl .none
  | assign n v next => exact .inl (.assign n v)
  | getOrDeclare n next =>
    dsimp only
    unfold Environment.getOrDeclare
    cases unbound : s.env.get? n with
    | some v => exact .inl .none
    | none => exact .inl (.declare n _ unbound)
  | define ps hps next => exact .inl (.define ps hps)
  | heap modest next => exact onHeap (.modest modest) next rfl
  | native arrayBase f args => exact onHeap (.native arrayBase f args) value rfl
  | method object member args next => exact onHeap (.method object member args) next rfl
  | base n next => exact .inl (.base n)
  | print values next => exact .inl (.print _)
  | note n next => exact .inl (.note n)
  | push frame next => exact .inl (.push frame)
  | leave p args => exact .inr ((Construct.call p args).unwound_leave .refl)

theorem abort_unwound (e : RuntimeError) (stack : Stack) {s s' : State} (h : s.Unwound s') :
    ∃ s'', abort e stack s' = .halted (.failed e) s'' ∧ s.Unwound s'' := by
  induction stack generalizing s' with
  | nil => exact ⟨s', rfl, h⟩
  | cons waiting stack ih =>
    cases waiting with
    | resume next => exact ih h
    | active c => exact ih (c.unwound_abandon h)

/-- An exit unwinds the stack, and what it goes on with waits on the stack. -/
theorem unwind_within (t : ExitTarget) {stack : Stack} (hstack : Stack.Within D stack)
    {s s' : State} (hs : s.Known D) (h : s.Unwound s') :
    (unwind t stack s').Within D ∧ s.Unwound (unwind t stack s').state := by
  induction stack generalizing s' with
  | nil => exact ⟨hs.of_procedures h.procedures, h⟩
  | cons waiting stack ih =>
    cases waiting with
    | resume next => exact ih hstack.2 h
    | active c =>
      have left := c.unwound_leave h
      unfold unwind
      split
      · exact ⟨⟨trivial, hstack.2, hs.of_procedures left.procedures⟩, left⟩
      · exact ih hstack.2 left

namespace Config

variable {c d : Config}

/-- A step stays within `D`, and it changes the state in the listed ways only. -/
theorem Within.step (h : c.Within D) : c.step.Within D ∧ Moves D c.state c.step.state := by
  cases c with
  | halted outcome s => exact ⟨h, .inl .none⟩
  | running code stack s =>
    obtain ⟨hcode, hstack, hs⟩ := h
    cases code with
    | value v =>
      cases stack with
      | nil => exact ⟨hs, .inl .none⟩
      | cons waiting stack =>
        cases waiting with
        | resume next => exact ⟨⟨hstack.1 v, hstack.2, hs⟩, .inl .none⟩
        | active c => exact ⟨⟨Construct.within_next hstack.1, hstack.2, hs⟩, .inl .none⟩
    | fail e =>
      obtain ⟨s', halted, unwound⟩ := abort_unwound e stack (.refl (s := s))
      rw [Config.step, halted]
      exact ⟨hs.of_procedures unwound.procedures, .inr unwound⟩
    | exit t =>
      obtain ⟨within, unwound⟩ := unwind_within t hstack hs .refl
      exact ⟨within, .inr unwound⟩
    | act next change =>
      have moved := hcode.1.moves s
      exact ⟨⟨hcode.2 s hs, hstack, Moves.known moved hs⟩, moved⟩
    | eval e next => exact ⟨⟨Code.within_expr e, ⟨hcode, hstack⟩, hs⟩, .inl .none⟩
    | exec body next =>
      cases body with
      | nil => exact ⟨⟨hcode.2, hstack, hs⟩, .inl .none⟩
      | cons stmt stmts =>
        obtain ⟨first, rest⟩ := hcode.1.cons
        exact ⟨⟨Code.within_stmt first, ⟨fun _ ↦ ⟨rest, hcode.2⟩, hstack⟩, hs⟩, .inl .none⟩
    | inside c => exact ⟨⟨⟨hcode, trivial⟩, ⟨hcode, hstack⟩, hs⟩, .inl .none⟩

theorem Within.iterate {c : Config} (h : c.Within D) (n : Nat) : (Config.step^[n] c).Within D := by
  induction n with
  | zero => exact h
  | succ n ih =>
    rw [Function.iterate_succ_apply']
    exact ih.step.1

/-- What every change, every pop and every assignment keeps, a run keeps. -/
theorem Within.reaches {P : State → Prop} (change : ∀ s s', s.Change D s' → P s → P s')
    (pop : ∀ s : State, P s → P { s with env := s.env.pop.2 }) (h : c.Within D) (run : c.Reaches d)
    (hc : P c.state) : d.Within D ∧ P d.state := by
  have unwound (s s' : State) (hs : s.Unwound s') (hP : P s) : P s' := by
    induction hs with
    | refl => exact hP
    | pop _ ih => exact pop _ ih
    | assign _ n v ih => exact change _ _ (.assign n v) ih
  obtain ⟨n, rfl⟩ := run
  induction n with
  | zero => exact ⟨h, hc⟩
  | succ n ih =>
    obtain ⟨within, hP⟩ := ih
    rw [Function.iterate_succ_apply']
    obtain ⟨next, changed | left⟩ := within.step
    · exact ⟨next, change _ _ changed hP⟩
    · exact ⟨next, unwound _ _ left hP⟩

end Config

/-- An operation of a host starts within `D`, if its program and the procedures in the table are. -/
theorem within_start {op : Operation} (hop : ∀ program, op = .run program → Declares D program)
    {s : State} (hs : s.Known D) : (op.start s).Within D := by
  refine ⟨?_, trivial, hs⟩
  cases op with
  | run program =>
    have declares := hop program rfl
    refine Code.within_change (.define _ (fun p hp ↦ ?_) _) ⟨declares, trivial⟩
    obtain ⟨stmt, mem, declared⟩ := List.mem_filterMap.mp hp
    cases stmt with
    | procedure kind name params body =>
      cases declared
      have inside (q : Procedure) (hq : q ∈ (Stmt.procedure kind name params body).declared) :
          D q :=
        declares q (mem_declaredAll.mpr ⟨_, mem, hq⟩)
      exact List.forall_mem_cons.mp inside
    | _ => cases declared
  | call name args =>
    refine Code.within_look fun s hs ↦ ?_
    split
    next p hp => exact Code.within_enterCall (hs _ p hp) args []
    next => exact trivial
  | evaluate text =>
    simp only [Operation.code]
    split
    · exact fun v ↦ trivial
    · exact trivial

/-! ## Executions -/

/-- What can be executed: a statement, a block, an expression, or what a host asks for. -/
inductive Execution where
  | statement (stmt : Stmt)
  | block (body : List Stmt)
  | expression (e : Expr)
  | operation (op : Operation)

namespace Execution

/-- The execution within a bound. Where there is no value, it is empty. -/
def machine (fuel : Nat) : Execution → Machine Value
  | statement stmt => do
    Machine.exec fuel stmt
    return .empty
  | block body => do
    Machine.execAll (Machine.exec fuel) body
    return .empty
  | expression e => Machine.eval fuel e
  | operation op => op.machine fuel

def code : Execution → Code
  | statement stmt => .stmt stmt
  | block body => .exec body .done
  | expression e => .expr e
  | operation op => op.code

/-- The machine at a moment of the execution: after `n` steps. -/
def moment (x : Execution) (s : State) (n : Nat) : Config :=
  Config.step^[n] (.running x.code [] s)

theorem settles (x : Execution) (fuel : Nat) (s : State) :
    Settles fuel (x.moment s 0) [] (x.machine fuel s) := by
  obtain ⟨heval, hexec⟩ := realizes_eval_exec fuel
  cases x with
  | statement stmt => exact hexec stmt [] s
  | block body => exact (realizes_execAll hexec body performs_done [] s).mono (Nat.le_succ fuel)
  | expression e => exact heval e [] s
  | operation op => exact (realizes_operation fuel op [] s).mono (Nat.le_succ fuel)

theorem within (x : Execution) (s : State) : (x.moment s 0).Within fun _ ↦ True := by
  have known : s.Known fun _ ↦ True := fun _ _ _ _ _ ↦ trivial
  cases x with
  | statement stmt => exact ⟨Code.within_stmt fun _ _ ↦ trivial, trivial, known⟩
  | block body => exact ⟨⟨fun _ _ ↦ trivial, trivial⟩, trivial, known⟩
  | expression e => exact ⟨Code.within_expr e, trivial, known⟩
  | operation op => exact within_start (fun _ _ _ _ ↦ trivial) known

/-- What every change and every pop keeps, holds at every moment. -/
theorem keeps {P : State → Prop} (change : ∀ s s', s.Change (fun _ ↦ True) s' → P s → P s')
    (pop : ∀ s : State, P s → P { s with env := s.env.pop.2 }) (x : Execution) {s : State}
    (hs : P s) (n : Nat) :
    P (x.moment s n).state :=
  (Config.Within.reaches change pop (x.within s) ⟨n, rfl⟩ hs).2

end Execution

end Control

end MiniBasic
