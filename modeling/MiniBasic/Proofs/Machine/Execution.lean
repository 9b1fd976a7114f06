import MiniBasic.Proofs.Machine.Simulation
import MiniBasic.Session
import Mathlib.Data.List.Forall2

/-!
# Simulation of statements and whole runs

`Stmt.Alike f B` compares two statements as far as their execution can tell them apart: names up to
spelling, expressions up to spelling, bodies by `B`. The name after `Next`, labels, error policies
and all bounds of a `ReDim` but the last are not compared, since nothing reads them.
-/

namespace MiniBasic

/-- Two ways on from an `If` that choose alike. -/
inductive Alternative.Alike (f : String → String) (B : List Stmt → List Stmt → Prop) :
    Alternative → Alternative → Prop
  | none : Alike f B .none .none
  | block {body body' : List Stmt} (hbody : B body body') : Alike f B (.block body) (.block body')
  | elseIf {c c' : Expr} {body body' : List Stmt} {a a' : Alternative}
      (hc : c.respell f = c'.respell f) (hbody : B body body') (ha : Alike f B a a') :
    Alike f B (.elseIf c body a) (.elseIf c' body' a')

/-- Two statements that are executed alike. -/
inductive Stmt.Alike (f : String → String) (B : List Stmt → List Stmt → Prop) : Stmt → Stmt → Prop
  | forLoop {n n' : String} {start start' stop stop' : Expr} {step step' : Option Expr}
      {body body' : List Stmt} {closing closing' : Option String} (hn : f n = f n')
      (hstart : start.respell f = start'.respell f) (hstop : stop.respell f = stop'.respell f)
      (hstep : step.map (·.respell f) = step'.map (·.respell f)) (hbody : B body body') :
    Alike f B (.forLoop n start stop step body closing)
      (.forLoop n' start' stop' step' body' closing')
  | ifThen {c c' : Expr} {body body' : List Stmt} {a a' : Alternative}
      (h : Alternative.Alike f B (.elseIf c body a) (.elseIf c' body' a')) :
    Alike f B (.ifThen c body a) (.ifThen c' body' a')
  | doWhile {c c' : Expr} {body body' : List Stmt} (hc : c.respell f = c'.respell f)
      (hbody : B body body') : Alike f B (.doWhile c body) (.doWhile c' body')
  | procedure {p q : Procedure} (h : p.Alike f B q) :
    Alike f B (.procedure p.kind p.name p.params p.body) (.procedure q.kind q.name q.params q.body)
  | dim {ds ds' : List Declarator} (h : ds.map (·.respell f) = ds'.map (·.respell f)) :
    Alike f B (.dim ds) (.dim ds')
  | const {n n' : String} {e e' : Expr} (hn : f n = f n') (he : e.respell f = e'.respell f) :
    Alike f B (.const n e) (.const n' e')
  | set {x x' e e' : Expr} (hx : x.respell f = x'.respell f) (he : e.respell f = e'.respell f) :
    Alike f B (.set x e) (.set x' e')
  | assign {x x' e e' : Expr} (hx : x.respell f = x'.respell f) (he : e.respell f = e'.respell f) :
    Alike f B (.assign x e) (.assign x' e')
  | onError (policy policy' : ErrorPolicy) : Alike f B (.onError policy) (.onError policy')
  | erase {ns ns' : List String} (h : ns.map f = ns'.map f) : Alike f B (.erase ns) (.erase ns')
  | reDim {n n' : String} {bounds bounds' : List Expr} {keep keep' : Bool} (hn : f n = f n')
      (hlast : bounds.getLast?.map (·.respell f) = bounds'.getLast?.map (·.respell f)) :
    Alike f B (.reDim n bounds keep) (.reDim n' bounds' keep')
  | exit (target : ExitTarget) : Alike f B (.exit target) (.exit target)
  | label (n n' : String) : Alike f B (.label n) (.label n')
  | base (n : Nat) : Alike f B (.option (.base n)) (.option (.base n))
  | explicit : Alike f B (.option .explicit) (.option .explicit)
  | compare (mode mode' : String) : Alike f B (.option (.compare mode)) (.option (.compare mode'))
  | call {e e' : Expr} (h : e.respell f = e'.respell f) : Alike f B (.call e) (.call e')

variable {f : String → String} {B : List Stmt → List Stmt → Prop} {W : Type}
  {I : W → State → State → Prop} {α β : Type}

theorem Alternative.Alike.refl (hB : ∀ body, B body body) : ∀ a : Alternative, a.Alike f B a
  | .none => .none
  | .block body => .block (hB body)
  | .elseIf _ body a => .elseIf rfl (hB body) (refl hB a)

theorem Stmt.Alike.refl (hB : ∀ body, B body body) (stmt : Stmt) : stmt.Alike f B stmt := by
  cases stmt with
  | forLoop counter start stop step body closing => exact .forLoop rfl rfl rfl rfl (hB body)
  | ifThen condition body alternative =>
    exact .ifThen (.elseIf rfl (hB body) (Alternative.Alike.refl hB alternative))
  | doWhile condition body => exact .doWhile rfl (hB body)
  | procedure kind name params body =>
    exact .procedure (p := ⟨kind, name, params, body⟩) ⟨rfl, rfl, rfl, hB body⟩
  | dim declarators => exact .dim rfl
  | const name value => exact .const rfl rfl
  | set target value => exact .set rfl rfl
  | assign target value => exact .assign rfl rfl
  | onError policy => exact .onError policy policy
  | erase names => exact .erase rfl
  | reDim name bounds preserve => exact .reDim rfl rfl
  | exit target => exact .exit target
  | label name => exact .label name name
  | option setting =>
    cases setting with
    | explicit => exact .explicit
    | base n => exact .base n
    | compare mode => exact .compare mode mode
  | call e => exact .call rfl

namespace Machine

open Heap (Action)

section Rules

variable (sim : Simulation f B I)
variable {eval eval' : Expr → Machine Value} {exec exec' : Stmt → Machine Unit}
variable (heval : ∀ e e' : Expr, e.respell f = e'.respell f → Simulated f I (eval e) (eval' e'))
variable (hexec : ∀ body body', B body body' →
  Simulated f I (execAll exec body) (execAll exec' body'))

include sim in
theorem simulated_forRounds {a b : String} (h : f a = f b) (limit step : Float)
    {body body' : Machine Unit} (hbody : Simulated f I body body') (fuel : Nat) :
    Simulated f I (forRounds a limit step body fuel) (forRounds b limit step body' fuel) := by
  induction fuel with
  | zero => exact .throw .outOfFuel
  | succ fuel ih =>
    refine (simulated_getOrDeclare sim h).bind fun current ↦ .ite ?_ (.pure _)
    refine (simulated_leaving .forLoop hbody).bind fun goesOn ↦ .ite ?_ (.pure _)
    refine (simulated_getOrDeclare sim h).bind fun current ↦ ?_
    exact (simulated_assign sim h _).bind fun _ ↦ ih

theorem simulated_whileRounds {condition condition' : Machine Value}
    (hc : Simulated f I condition condition') {body body' : Machine Unit}
    (hbody : Simulated f I body body') (fuel : Nat) :
    Simulated f I (whileRounds condition body fuel) (whileRounds condition' body' fuel) := by
  induction fuel with
  | zero => exact .throw .outOfFuel
  | succ fuel ih =>
    refine hc.bind fun holds ↦ .ite ?_ (.pure _)
    exact (simulated_leaving .doLoop hbody).bind fun goesOn ↦ .ite ih (.pure _)

include sim heval in
theorem simulated_evalBound {e e' : Expr} (h : e.respell f = e'.respell f) :
    Simulated f I (evalBound eval e) (evalBound eval' e') :=
  (heval e e' h).bind fun _ ↦ simulated_onHeap sim (Action.Alike.refl _)

include sim heval in
theorem simulated_evalBounds {es es' : List Expr}
    (h : es.map (·.respell f) = es'.map (·.respell f)) :
    Simulated f I (evalBounds eval es) (evalBounds eval' es') := by
  induction es generalizing es' with
  | nil =>
    obtain rfl : es' = [] := List.map_eq_nil_iff.mp h.symm
    exact .pure _
  | cons e es ih =>
    obtain ⟨e', es', rfl, he, hes⟩ := List.map_eq_cons_iff.mp h.symm
    exact (simulated_evalBound sim heval he.symm).bind fun n ↦ (ih hes.symm).bind fun ns ↦ .pure _

include sim heval in
theorem simulated_declaredValue {d d' : Declarator} (h : d.respell f = d'.respell f) :
    Simulated f I (declaredValue eval d) (declaredValue eval' d') := by
  obtain ⟨n, bounds, object⟩ := d
  obtain ⟨n', bounds', object'⟩ := d'
  simp only [Declarator.respell, Declarator.mk.injEq] at h
  obtain ⟨-, hbounds, hobject⟩ := h
  unfold declaredValue
  cases bounds with
  | some bounds =>
    obtain ⟨bounds', rfl, same⟩ := Option.map_eq_some_iff.mp hbounds.symm
    refine (simulated_evalBounds sim heval same.symm).bind fun lengths ↦ ?_
    exact simulated_onHeap sim (Action.Alike.refl _)
  | none =>
    obtain rfl : bounds' = none := Option.map_eq_none_iff.mp hbounds.symm
    cases object with
    | some typeName =>
      obtain ⟨typeName', rfl, same⟩ := Option.map_eq_some_iff.mp hobject.symm
      exact simulated_onHeap sim (.instantiate sim.folding same.symm)
    | none =>
      obtain rfl : object' = none := Option.map_eq_none_iff.mp hobject.symm
      exact .pure _

include sim heval in
theorem simulated_declareAll {ds ds' : List Declarator}
    (h : ds.map (·.respell f) = ds'.map (·.respell f)) :
    Simulated f I (declareAll eval ds) (declareAll eval' ds') := by
  induction ds generalizing ds' with
  | nil =>
    obtain rfl : ds' = [] := List.map_eq_nil_iff.mp h.symm
    exact .pure _
  | cons d ds ih =>
    obtain ⟨d', ds', rfl, hd, hds⟩ := List.map_eq_cons_iff.mp h.symm
    have name : f d.name = f d'.name := (congrArg Declarator.name hd).symm
    refine (simulated_declaredValue sim heval hd.symm).bind fun value ↦ ?_
    exact (simulated_assign sim name value).bind fun _ ↦ ih hds.symm

include sim heval in
theorem simulated_evalContainer {e e' : Expr} (h : e.respell f = e'.respell f) :
    Simulated f I (evalContainer eval e) (evalContainer eval' e') := by
  have whole := heval e e' h
  cases e <;> cases e' <;>
    simp only [Expr.respell, reduceCtorEq, Expr.name.injEq, Expr.member.injEq] at h
  case name.name => exact simulated_getOrDeclare sim h
  case member.member =>
    simp only [evalContainer, Text.sameWord, sim.folding.sameName h.2]
    exact .ite (heval _ _ h.1) whole
  all_goals exact whole

theorem calleeName_respell {e e' : Expr} (h : e.respell f = e'.respell f) :
    f (calleeName e) = f (calleeName e') := by
  cases e <;> cases e' <;>
    simp only [Expr.respell, reduceCtorEq, Expr.name.injEq, Expr.member.injEq] at h
  case name.name => exact h
  case member.member => exact h.2
  all_goals rfl

include sim heval in
theorem simulated_assignTo {x x' : Expr} (h : x.respell f = x'.respell f) (value : Value) :
    Simulated f I (assignTo eval x value) (assignTo eval' x' value) := by
  cases x <;> cases x' <;>
    simp only [Expr.respell, reduceCtorEq, Expr.name.injEq, Expr.call.injEq, Expr.member.injEq] at h
  case name.name => exact simulated_assign sim h value
  case call.call =>
    refine (simulated_evalContainer sim heval h.1).bind fun container ↦ ?_
    refine (simulated_evalAll heval h.2).bind fun indices ↦ ?_
    exact simulated_onHeap sim (.write (calleeName_respell h.1) container indices value)
  case member.member =>
    refine (heval _ _ h.1).bind fun object ↦ .raise ?_
    simp only [RuntimeError.respell, AssignmentFault.respell, h.2]
  all_goals exact .raise rfl

include sim in
theorem simulated_eraseAll {ns ns' : List String} (h : ns.map f = ns'.map f) :
    Simulated f I (eraseAll ns) (eraseAll ns') := by
  induction ns generalizing ns' with
  | nil =>
    obtain rfl : ns' = [] := List.map_eq_nil_iff.mp h.symm
    exact .pure _
  | cons n ns ih =>
    obtain ⟨n', ns', rfl, hn, hns⟩ := List.map_eq_cons_iff.mp h.symm
    refine (simulated_onHeap sim (Action.Alike.refl _)).bind fun value ↦ ?_
    exact (simulated_assign sim hn.symm value).bind fun _ ↦ ih hns.symm

include heval hexec in
theorem simulated_chooseBranch {a a' : Alternative} (h : a.Alike f B a') :
    Simulated f I (chooseBranch eval exec a) (chooseBranch eval' exec' a') := by
  induction h with
  | none => exact .pure _
  | block hbody => exact hexec _ _ hbody
  | elseIf hc hbody _ ih =>
    unfold chooseBranch
    exact (heval _ _ hc).bind fun holds ↦ .ite (hexec _ _ hbody) ih

include heval in
theorem simulated_evalStep {step step' : Option Expr}
    (h : step.map (·.respell f) = step'.map (·.respell f)) :
    Simulated f I (evalStep eval step) (evalStep eval' step') := by
  cases step with
  | some e =>
    obtain ⟨e', rfl, same⟩ := Option.map_eq_some_iff.mp h.symm
    exact (heval e e' same.symm).bind fun v ↦ .pure _
  | none =>
    obtain rfl : step' = none := Option.map_eq_none_iff.mp h.symm
    exact .pure _

include sim heval in
theorem simulated_reDim {a b : String} (h : f a = f b) {es es' : List Expr}
    (hlast : es.getLast?.map (·.respell f) = es'.getLast?.map (·.respell f)) (keep keep' : Bool)
    (fuel : Nat) :
    Simulated f I (execStmt fuel eval exec (.reDim a es keep))
      (execStmt fuel eval' exec' (.reDim b es' keep')) := by
  have store (length : Nat) : Simulated f I
      (do assign a (← onHeap (Action.newArray (Array.replicate length .empty))))
      (do assign b (← onHeap (Action.newArray (Array.replicate length .empty)))) :=
    (simulated_onHeap sim (Action.Alike.refl _)).bind fun value ↦ simulated_assign sim h value
  simp only [execStmt]
  cases last : es.getLast? with
  | some e =>
    rw [last] at hlast
    obtain ⟨e', he', same⟩ := Option.map_eq_some_iff.mp hlast.symm
    rw [he']
    exact (simulated_evalBound sim heval same.symm).bind store
  | none =>
    rw [last] at hlast
    rw [Option.map_eq_none_iff.mp hlast.symm]
    exact (Simulated.pure _).bind store

include sim heval hexec in
/-- Statements that are alike are executed alike. -/
theorem simulated_execStmt {stmt stmt' : Stmt} (h : stmt.Alike f B stmt') (fuel : Nat) :
    Simulated f I (execStmt fuel eval exec stmt) (execStmt fuel eval' exec' stmt') := by
  cases h with
  | forLoop hn hstart hstop hstep hbody =>
    refine (heval _ _ hstart).bind fun start ↦ (heval _ _ hstop).bind fun stop ↦ ?_
    refine (simulated_evalStep heval hstep).bind fun step ↦ ?_
    refine (simulated_assign sim hn _).bind fun _ ↦ ?_
    exact simulated_forRounds sim hn _ _ (hexec _ _ hbody) fuel
  | ifThen h => exact simulated_chooseBranch heval hexec h
  | doWhile hc hbody => exact simulated_whileRounds (heval _ _ hc) (hexec _ _ hbody) fuel
  | procedure h => exact simulated_define sim h
  | dim h => exact simulated_declareAll sim heval h
  | const hn he => exact (heval _ _ he).bind fun value ↦ simulated_assign sim hn value
  | set hx he => exact (heval _ _ he).bind fun value ↦ simulated_assignTo sim heval hx value
  | assign hx he => exact (heval _ _ he).bind fun value ↦ simulated_assignTo sim heval hx value
  | onError policy policy' => exact simulated_note sim .onErrorIgnored
  | erase h => exact simulated_eraseAll sim h
  | reDim hn hlast => exact simulated_reDim sim heval hn hlast _ _ fuel
  | exit target => exact .throw (.exit target)
  | label n n' => exact .pure _
  | base n => exact fun w s t hs ↦ .ok rfl (sim.setBase hs n)
  | explicit => exact .pure _
  | compare mode mode' => exact .pure _
  | call h => exact (heval _ _ h).bind fun _ ↦ .pure _

end Rules

/-! ## Whole runs -/

/-- Bodies related by `B` are executed alike as soon as statements that are alike are. -/
def Bodywise (f : String → String) (B : List Stmt → List Stmt → Prop) {W : Type}
    (I : W → State → State → Prop) : Prop :=
  ∀ exec exec' : Stmt → Machine Unit,
    (∀ stmt stmt', stmt.Alike f B stmt' → Simulated f I (exec stmt) (exec' stmt')) →
    ∀ body body', B body body' → Simulated f I (execAll exec body) (execAll exec' body')

theorem simulated_execAll_of_forall₂ {exec exec' : Stmt → Machine Unit}
    (hexec : ∀ stmt stmt', stmt.Alike f B stmt' → Simulated f I (exec stmt) (exec' stmt'))
    {body body' : List Stmt} (h : List.Forall₂ (Stmt.Alike f B) body body') :
    Simulated f I (execAll exec body) (execAll exec' body') := by
  induction h with
  | nil => exact .pure _
  | cons head _ ih => exact (hexec _ _ head).bind fun _ ↦ ih

/-- It is enough that `B` relates bodies statement by statement. -/
theorem bodywise_of_forall₂ (h : ∀ body body', B body body' →
    List.Forall₂ (Stmt.Alike f B) body body') : Bodywise f B I :=
  fun _ _ hexec body body' hbody ↦ simulated_execAll_of_forall₂ hexec (h body body' hbody)

section Runs

variable (sim : Simulation f B I) (hB : Bodywise f B I)
include sim hB

/-- Within every bound, expressions and statements that are alike run alike. -/
theorem simulated_eval_exec (fuel : Nat) :
    (∀ e e' : Expr, e.respell f = e'.respell f → Simulated f I (eval fuel e) (eval fuel e')) ∧
      ∀ stmt stmt', stmt.Alike f B stmt' → Simulated f I (exec fuel stmt) (exec fuel stmt') := by
  induction fuel with
  | zero =>
    simp only [eval, exec]
    exact ⟨fun _ _ _ ↦ .throw .outOfFuel, fun _ _ _ ↦ .throw .outOfFuel⟩
  | succ fuel ih =>
    obtain ⟨heval, hexec⟩ := ih
    have hbody := hB _ _ hexec
    simp only [eval, exec]
    exact ⟨fun _ _ h ↦ simulated_evalExpr sim heval hbody h,
      fun _ _ h ↦ simulated_execStmt sim heval hbody h fuel⟩

theorem simulated_eval {e e' : Expr} (h : e.respell f = e'.respell f) (fuel : Nat) :
    Simulated f I (eval fuel e) (eval fuel e') :=
  (simulated_eval_exec sim hB fuel).1 e e' h

theorem simulated_exec {stmt stmt' : Stmt} (h : stmt.Alike f B stmt') (fuel : Nat) :
    Simulated f I (exec fuel stmt) (exec fuel stmt') :=
  (simulated_eval_exec sim hB fuel).2 stmt stmt' h

theorem simulated_execAll {body body' : List Stmt} (h : B body body') (fuel : Nat) :
    Simulated f I (execAll (exec fuel) body) (execAll (exec fuel) body') :=
  hB _ _ (simulated_eval_exec sim hB fuel).2 body body' h

theorem simulated_callProcedure (fuel : Nat) (name : String) (args : List Value) :
    Simulated f I (callProcedure fuel name args) (callProcedure fuel name args) := by
  obtain ⟨heval, hexec⟩ := simulated_eval_exec sim hB fuel
  refine .get fun w s t hs ↦ ?_
  have found := sim.procedure hs name
  generalize s.env.procedure? name = x at found ⊢
  generalize t.env.procedure? name = y at found ⊢
  cases found with
  | some alike =>
    refine (simulated_runProcedure sim heval (hB _ _ hexec) alike args).bind fun ended ↦ ?_
    exact simulated_finishCall sim.folding alike ended.1 ended.2
  | none => exact .raise rfl

theorem simulated_evalText (fuel : Nat) (text : String) :
    Simulated f I (evalText fuel text) (evalText fuel text) := by
  unfold evalText
  cases parseExpression (Token.tokenize text) with
  | ok e => exact simulated_eval sim hB rfl fuel
  | error e => exact .raise rfl

omit hB in
/-- Defining the procedures of two programs that are alike statement by statement. -/
theorem simulated_defineAll {p q : Program} (h : List.Forall₂ (Stmt.Alike f B) p q) :
    Simulated f I (defineAll p) (defineAll q) := by
  intro w s t hs
  refine .ok rfl ?_
  dsimp only
  induction h generalizing s t with
  | nil => exact hs
  | cons head _ ih =>
    cases head with
    | procedure h => exact ih _ _ (sim.define hs h)
    | _ => exact ih s t hs

theorem simulated_runProgram {p q : Program} (h : List.Forall₂ (Stmt.Alike f B) p q) (fuel : Nat) :
    Simulated f I (runProgram fuel p) (runProgram fuel q) := by
  refine (simulated_defineAll sim h).bind fun _ ↦ ?_
  exact simulated_execAll_of_forall₂ (simulated_eval_exec sim hB fuel).2 h

end Runs

end Machine

end MiniBasic
