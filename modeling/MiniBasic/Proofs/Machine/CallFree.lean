import Mathlib.Data.List.TakeWhile
import MiniBasic.Proofs.Control.CopyBack

/-!
# Expressions without calls

An expression made of literals, names and operators has a value, unless it comes to a division by
zero. To read a name that is not bound binds it to zero, and this is all that the evaluation does to
the state, up to its end or up to the division that fails. So a second evaluation has the same
result, and it does nothing to the state.
-/

namespace MiniBasic

/-! ## Reading names -/

namespace Environment

/-- The scope in which names are declared: the innermost frame, or the globals if there is none. -/
def current (env : Environment) : Scope :=
  env.frames.headD env.globals

/-- The environment after names have been read. -/
def read : List String → Environment → Environment
  | [], env => env
  | n :: names, env => read names (env.getOrDeclare n).2

theorem read_append (ns ms : List String) (env : Environment) :
    env.read (ns ++ ms) = (env.read ns).read ms := by
  induction ns generalizing env with
  | nil => rfl
  | cons n ns ih => exact ih _

section GetOrDeclare

variable {env : Environment} {n : String}

theorem getOrDeclare_of_some {v : Value} (bound : env.get? n = some v) :
    env.getOrDeclare n = (v, env) := by
  rw [getOrDeclare, bound]

theorem getOrDeclare_of_none (unbound : env.get? n = none) :
    env.getOrDeclare n = (.number (Number.ofNat 0), env.declare n (.number (Number.ofNat 0))) := by
  rw [getOrDeclare, unbound]

end GetOrDeclare

/-- What holds of an environment, and stays true when a name is declared that was not bound, holds
after names have been read. -/
theorem read_induction {P : Environment → Prop}
    (declare : ∀ (env : Environment) (n : String), env.get? n = none → P env →
      P (env.declare n (.number (Number.ofNat 0))))
    (names : List String) {env : Environment} (h : P env) : P (env.read names) := by
  induction names generalizing env with
  | nil => exact h
  | cons n names ih =>
    rw [read]
    cases bound : env.get? n with
    | some v =>
      rw [getOrDeclare_of_some bound]
      exact ih h
    | none =>
      rw [getOrDeclare_of_none bound]
      exact ih (declare env n bound h)

theorem read_procedures (names : List String) (env : Environment) :
    (env.read names).procedures = env.procedures :=
  read_induction (P := fun env' ↦ env'.procedures = env.procedures)
    (fun env' n _ h ↦ (env'.declare_procedures n _).trans h) names rfl

theorem current_declare (env : Environment) (n m : String) (v : Value) :
    (env.declare n v).current.get? m =
      if Text.foldCase n = Text.foldCase m then some v else env.current.get? m := by
  obtain ⟨globals, frames, procedures⟩ := env
  cases frames with
  | nil => exact globals.get?_set n m v
  | cons frame frames => exact frame.get?_set n m v

/-- The scopes other than the current one are the same, and there are as many. -/
def SameOthers (env env' : Environment) : Prop :=
  env'.frames.length = env.frames.length ∧ env'.frames.tail = env.frames.tail ∧
    (env.frames ≠ [] → env'.globals = env.globals)

theorem SameOthers.declare {env env' : Environment} (h : env.SameOthers env') (n : String)
    (v : Value) :
    env.SameOthers (env'.declare n v) := by
  obtain ⟨globals, frames, procedures⟩ := env'
  cases frames with
  | nil =>
    obtain ⟨length, tail, -⟩ := h
    exact ⟨length, tail, fun some ↦ absurd (List.length_eq_zero_iff.mp length.symm) some⟩
  | cons frame frames => exact h

theorem sameOthers_read (names : List String) (env : Environment) :
    env.SameOthers (env.read names) :=
  read_induction (fun _ n _ h ↦ h.declare n _) names ⟨rfl, rfl, fun _ ↦ rfl⟩

/-- What reading a name does to the current scope. -/
theorem current_read (names : List String) (env : Environment) (m : String) :
    (env.read names).current.get? m =
      if (∃ n ∈ names, Text.foldCase n = Text.foldCase m) ∧
      env.get? m = none then some (.number (Number.ofNat 0))
      else env.current.get? m := by
  induction names generalizing env with
  | nil => rw [read, if_neg (by simp)]
  | cons n names ih =>
    rw [read, ih]
    cases bound : env.get? n with
    | some v =>
      rw [getOrDeclare_of_some bound]
      refine if_congr (and_congr_left fun unbound ↦ ?_) rfl rfl
      have other : Text.foldCase n ≠ Text.foldCase m := by
        intro same
        rw [get?_sameName same, unbound] at bound
        cases bound
      simp [other]
    | none =>
      rw [getOrDeclare_of_none bound]
      dsimp only
      rw [get?_declare, current_declare]
      by_cases same : Text.foldCase n = Text.foldCase m
      · have unbound : env.get? m = none := by rw [← get?_sameName same, bound]
        simp [same, unbound]
      · simp [same]

/-- What a name stands for: a name that is not bound stands for zero. -/
def meaning (env : Environment) (n : String) : Value :=
  (env.get? n).getD (.number (Number.ofNat 0))

theorem meaning_read (names : List String) (env : Environment) :
    (env.read names).meaning = env.meaning := by
  refine read_induction (P := fun env' ↦ env'.meaning = env.meaning)
    (fun env' n unbound h ↦ ?_) names rfl
  rw [← h]
  funext m
  rw [meaning, meaning, get?_declare]
  split
  next same => rw [← get?_sameName same, unbound, Option.getD_none, Option.getD_some]
  next => rfl

/-- What is bound stays bound. -/
theorem isSome_get?_read (names : List String) {env : Environment} {m : String}
    (h : (env.get? m).isSome) :
    ((env.read names).get? m).isSome := by
  refine read_induction (P := fun env ↦ (env.get? m).isSome) (fun env n _ h ↦ ?_) names h
  rw [get?_declare]
  split
  · rfl
  · exact h

theorem isSome_get?_of_mem {names : List String} {m : String} (h : m ∈ names) (env : Environment) :
    ((env.read names).get? m).isSome := by
  induction names generalizing env with
  | nil => cases h
  | cons n names ih =>
    rw [read]
    rcases List.mem_cons.mp h with rfl | h
    · refine isSome_get?_read names ?_
      cases bound : env.get? m with
      | some v =>
        rw [getOrDeclare_of_some bound]
        exact Option.isSome_of_eq_some bound
      | none =>
        rw [getOrDeclare_of_none bound, get?_declare, if_pos rfl]
        rfl
    · exact ih h _

theorem read_of_bound {names : List String} {env : Environment}
    (h : ∀ n ∈ names, (env.get? n).isSome) :
    env.read names = env := by
  induction names with
  | nil => rfl
  | cons n names ih =>
    obtain ⟨first, rest⟩ := List.forall_mem_cons.mp h
    obtain ⟨v, bound⟩ := Option.isSome_iff_exists.mp first
    rw [read, getOrDeclare_of_some bound, ih rest]

/-- To read the same names again does nothing. -/
theorem read_read (names : List String) (env : Environment) :
    (env.read names).read names = env.read names :=
  read_of_bound fun _ h ↦ isSome_get?_of_mem h env

end Environment

namespace State

/-- The state after names have been read. -/
def read (s : State) (names : List String) : State :=
  { s with env := s.env.read names }

/-- The names in `N` that were not bound are bound to zero in the current scope, and nothing else
has changed. -/
structure ZerosBound (N : String → Prop) (s s' : State) : Prop where
  heap : s'.heap = s.heap
  output : s'.output = s.output
  arrayBase : s'.arrayBase = s.arrayBase
  notices : s'.notices = s.notices
  procedures : s'.env.procedures = s.env.procedures
  others : s.env.SameOthers s'.env
  bound (n : String) (h : N n) (unbound : s.env.get? n = none) :
    s'.env.current.get? n = some (.number (Number.ofNat 0))
  kept (m : String) (h : ∀ n, N n → s.env.get? n = none → Text.foldCase n ≠ Text.foldCase m) :
    s'.env.current.get? m = s.env.current.get? m

theorem zerosBound_read (s : State) (names : List String) :
    s.ZerosBound (· ∈ names) (s.read names) where
  heap := rfl
  output := rfl
  arrayBase := rfl
  notices := rfl
  procedures := s.env.read_procedures names
  others := s.env.sameOthers_read names
  bound n h unbound := by
    change (s.env.read names).current.get? n = _
    rw [Environment.current_read, if_pos ⟨⟨n, h, rfl⟩, unbound⟩]
  kept m h := by
    change (s.env.read names).current.get? m = _
    rw [Environment.current_read, if_neg]
    rintro ⟨⟨n, hn, same⟩, unbound⟩
    exact h n hn (Environment.get?_sameName same s.env ▸ unbound) same

end State

/-! ## Expressions -/

/-- Operators fail on a division by zero only. -/
theorem Heap.applyBinary_cases (h : Heap) (op : BinaryOp) (a b : Value) :
    (∃ v, h.applyBinary op a b = .ok v ∧ ¬((op = .mod ∨ op = .intDiv) ∧ b.toNumber == 0)) ∨
      h.applyBinary op a b = .error .divisionByZero ∧ (op = .mod ∨ op = .intDiv) ∧
      b.toNumber == 0 := by
  cases op with
  | mod =>
    by_cases zero : b.toNumber == 0
    · exact .inr ⟨if_pos zero, .inl rfl, zero⟩
    · exact .inl ⟨_, if_neg zero, fun h ↦ zero h.2⟩
  | intDiv =>
    by_cases zero : b.toNumber == 0
    · exact .inr ⟨if_pos zero, .inr rfl, zero⟩
    · exact .inl ⟨_, if_neg zero, fun h ↦ zero h.2⟩
  | _ => exact .inl ⟨_, rfl, by simp⟩

namespace Expr

/-- Literals, names and operators. -/
inductive CallFree : Expr → Prop
  | number (x : Float) : CallFree (.number x)
  | text (s : String) : CallFree (.text s)
  | name (n : String) : CallFree (.name n)
  | unary (op : UnaryOp) {e : Expr} (h : CallFree e) : CallFree (.unary op e)
  | binary (op : BinaryOp) {l r : Expr} (hl : CallFree l) (hr : CallFree r) :
    CallFree (.binary op l r)

/-- How deep operators are nested. -/
def depth : Expr → Nat
  | .unary _ e => e.depth + 1
  | .binary _ l r => max l.depth r.depth + 1
  | _ => 1

/-- The expression and all expressions in it, in the order of their evaluation: the operands from
left to right, and then what is made of them. -/
def order : Expr → List Expr
  | .unary op e => e.order ++ [.unary op e]
  | .binary op l r => l.order ++ (r.order ++ [.binary op l r])
  | e => [e]

/-- The value of an expression without calls. -/
def value? (s : State) : Expr → Option Value
  | .number x => some (.number x)
  | .text t => some (.text t)
  | .name n => some (s.env.meaning n)
  | .unary op e => (e.value? s).map op.apply
  | .binary op l r =>
    (l.value? s).bind fun a ↦ (r.value? s).bind fun b ↦ (s.heap.applyBinary op a b).toOption
  | .call _ _ | .member _ _ | .new _ => none

/-- The expression is a `Mod` or a `\` whose divisor stands for the number zero. -/
def dividesByZero (s : State) : Expr → Bool
  | .binary .mod _ r | .binary .intDiv _ r => (r.value? s).any (·.toNumber == 0)
  | _ => false

/-- The evaluation of `e` comes to `d`: there is no division by zero before it. -/
def Reaches (s : State) (e d : Expr) : Prop :=
  ∃ before after, e.order = before ++ d :: after ∧ ∀ x ∈ before, x.dividesByZero s = false

/-- What is evaluated with a result. -/
def evaluated (s : State) (e : Expr) : List Expr :=
  e.order.takeWhile (!·.dividesByZero s)

def name? : Expr → Option String
  | .name n => some n
  | _ => none

/-- The names that are read. -/
def namesRead (s : State) (e : Expr) : List String :=
  (e.evaluated s).filterMap name?

section Order

variable {s : State} {e : Expr}

theorem reaches_iff_mem_evaluated {d : Expr} (hd : d.dividesByZero s = false) :
    e.Reaches s d ↔ d ∈ e.evaluated s := by
  constructor
  · rintro ⟨before, after, split, ok⟩
    rw [evaluated, split, List.takeWhile_append_of_pos fun x hx ↦ by simp [ok x hx],
      List.takeWhile_cons_of_pos (by simp [hd])]
    exact List.mem_append_right _ List.mem_cons_self
  · intro mem
    obtain ⟨before, rest, split⟩ := List.append_of_mem mem
    refine ⟨before, rest ++ e.order.dropWhile (!·.dividesByZero s), ?_, fun x hx ↦ ?_⟩
    · rw [← List.cons_append, ← List.append_assoc, ← split, evaluated,
        List.takeWhile_append_dropWhile]
    · have : x ∈ e.evaluated s := split ▸ List.mem_append_left _ hx
      simpa using List.mem_takeWhile_imp this

theorem mem_namesRead {n : String} : n ∈ e.namesRead s ↔ e.Reaches s (.name n) := by
  rw [reaches_iff_mem_evaluated rfl, namesRead, List.mem_filterMap]
  constructor
  · rintro ⟨d, mem, named⟩
    cases d with
    | name m =>
      cases named
      exact mem
    | _ => cases named
  · intro mem
    exact ⟨.name n, mem, rfl⟩

/-- If there is a division by zero, the evaluation comes to one. -/
theorem exists_reaches_iff :
    (∃ d, e.Reaches s d ∧ d.dividesByZero s) ↔ ∃ d ∈ e.order, d.dividesByZero s := by
  constructor
  · rintro ⟨d, ⟨before, after, split, -⟩, zero⟩
    exact ⟨d, split ▸ List.mem_append_right _ List.mem_cons_self, zero⟩
  · rintro ⟨d, mem, zero⟩
    have found : (e.order.find? (·.dividesByZero s)).isSome := List.find?_isSome.mpr ⟨d, mem, zero⟩
    obtain ⟨first, hfirst⟩ := Option.isSome_iff_exists.mp found
    obtain ⟨zero, before, after, split, ok⟩ := List.find?_eq_some_iff_append.mp hfirst
    exact ⟨first, ⟨before, after, split, fun x hx ↦ by simpa using ok x hx⟩, zero⟩

end Order

/-! ## Values -/

theorem dividesByZero_binary {s : State} {op : BinaryOp} {l r : Expr} {b : Value}
    (hb : r.value? s = some b) :
    (Expr.binary op l r).dividesByZero s ↔ (op = .mod ∨ op = .intDiv) ∧ b.toNumber == 0 := by
  cases op with
  | mod => simp [dividesByZero, hb]
  | intDiv => simp [dividesByZero, hb]
  | _ => simp [dividesByZero]

/-- An expression without calls has a value if there is no division by zero in it. -/
theorem CallFree.isSome_value? {e : Expr} (free : e.CallFree) (s : State) :
    (e.value? s).isSome ↔ ∀ d ∈ e.order, d.dividesByZero s = false := by
  induction free with
  | number x => simp [value?, order, dividesByZero]
  | text t => simp [value?, order, dividesByZero]
  | name n => simp [value?, order, dividesByZero]
  | unary op _ ih =>
    rw [value?, Option.isSome_map, ih, order, List.forall_mem_append, List.forall_mem_singleton]
    exact (and_iff_left rfl).symm
  | @binary op l r _ _ ihl ihr =>
    rw [order, List.forall_mem_append, List.forall_mem_append, List.forall_mem_singleton, ← ihl,
      ← ihr, value?]
    cases l.value? s with
    | none => simp
    | some a =>
      cases hb : r.value? s with
      | none => simp
      | some b =>
        rw [← Bool.not_eq_true, dividesByZero_binary hb, Option.bind_some, Option.bind_some]
        rcases s.heap.applyBinary_cases op a b with ⟨v, applied, nonzero⟩ | ⟨failed, zero⟩
        · rw [applied]
          exact iff_of_true rfl ⟨rfl, rfl, nonzero⟩
        · rw [failed]
          exact iff_of_false Bool.false_ne_true fun h ↦ h.2.2 zero

/-- The value depends on what names stand for and on the heap only. -/
theorem value?_congr {s s' : State} (names : s'.env.meaning = s.env.meaning)
    (heap : s'.heap = s.heap) (e : Expr) :
    e.value? s' = e.value? s := by
  induction e using value?.induct with
  | case1 x => rfl
  | case2 t => rfl
  | case3 n => exact congrArg some (congrFun names n)
  | case4 op e ih => rw [value?, value?, ih]
  | case5 op l r ihl ihr => rw [value?, value?, ihl, heap, ihr]
  | case6 callee args => rfl
  | case7 object property => rfl
  | case8 typeName => rfl

theorem value?_read (s : State) (names : List String) (e : Expr) :
    e.value? (s.read names) = e.value? s := by
  have same : (s.read names).env.meaning = s.env.meaning := s.env.meaning_read names
  exact value?_congr same rfl e

theorem namesRead_read (s : State) (names : List String) (e : Expr) :
    e.namesRead (s.read names) = e.namesRead s := by
  have same (d : Expr) : d.dividesByZero (s.read names) = d.dividesByZero s := by
    unfold dividesByZero
    split
    · rw [value?_read]
    · rw [value?_read]
    · rfl
  simp only [namesRead, evaluated, same]

/-! ## The names that are read -/

namespace CallFree

variable {e l r : Expr} {s : State}

theorem all_order (free : e.CallFree) (h : (e.value? s).isSome) :
    ∀ d ∈ e.order, !d.dividesByZero s :=
  fun d hd ↦ by simp [(free.isSome_value? s).mp h d hd]

/-- An expression that has a value is evaluated to its end, and the evaluation goes on with what
comes behind it. -/
theorem takeWhile_of_some (free : e.CallFree) (h : (e.value? s).isSome) (rest : List Expr) :
    (e.order ++ rest).takeWhile (!·.dividesByZero s) = e.evaluated s ++ rest.takeWhile
      (!·.dividesByZero s) := by
  rw [List.takeWhile_append_of_pos (free.all_order h), evaluated,
    List.takeWhile_eq_self_iff.mpr (free.all_order h)]

/-- Behind an expression that fails nothing is evaluated. -/
theorem takeWhile_of_none (free : e.CallFree) (h : e.value? s = none) (rest : List Expr) :
    (e.order ++ rest).takeWhile (!·.dividesByZero s) = e.evaluated s := by
  rw [List.takeWhile_append, if_neg]
  · rfl
  · intro same
    have all := List.takeWhile_eq_self_iff.mp ((List.takeWhile_prefix _).eq_of_length same)
    have some := (free.isSome_value? s).mpr fun d hd ↦ by simpa using all d hd
    rw [h] at some
    cases some

/-- An operator reads no names itself. -/
theorem filterMap_takeWhile_operator {d : Expr} (h : d.name? = none) :
    ([d].takeWhile (!·.dividesByZero s)).filterMap name? = [] := by
  rw [List.takeWhile_cons]
  split <;> simp [h]

theorem namesRead_unary (op : UnaryOp) (free : e.CallFree) :
    (Expr.unary op e).namesRead s = e.namesRead s := by
  rw [namesRead, evaluated, order]
  cases h : e.value? s with
  | none => rw [free.takeWhile_of_none h, namesRead]
  | some v =>
    rw [free.takeWhile_of_some (Option.isSome_of_eq_some h), List.filterMap_append,
      filterMap_takeWhile_operator rfl, List.append_nil, namesRead]

theorem namesRead_binary_of_none (op : BinaryOp) (free : l.CallFree) (h : l.value? s = none) :
    (Expr.binary op l r).namesRead s = l.namesRead s := by
  rw [namesRead, evaluated, order, free.takeWhile_of_none h, namesRead]

theorem namesRead_binary_of_some (op : BinaryOp) (hl : l.CallFree) (hr : r.CallFree)
    (h : (l.value? s).isSome) :
    (Expr.binary op l r).namesRead s = l.namesRead s ++ r.namesRead s := by
  rw [namesRead, evaluated, order, hl.takeWhile_of_some h, List.filterMap_append, ← namesRead]
  congr 1
  cases hb : r.value? s with
  | none => rw [hr.takeWhile_of_none hb, namesRead]
  | some b =>
    rw [hr.takeWhile_of_some (Option.isSome_of_eq_some hb), List.filterMap_append,
      filterMap_takeWhile_operator rfl, List.append_nil, namesRead]

end CallFree

end Expr

/-! ## Evaluation -/

namespace Machine

/-- What an evaluation comes to that has a value or fails with a division by zero. -/
def outcome : Option Value → State → EStateM.Result Interrupt State Value
  | some v, s => .ok v s
  | none, s => .error (.error .divisionByZero) s

/-- No name in the expression that is not bound is the name of a procedure. -/
def Plain (e : Expr) (s : State) : Prop :=
  ∀ n, .name n ∈ e.order → s.env.get? n = none → s.env.procedure? n = none

theorem Plain.read {e : Expr} {s : State} (h : Plain e s) (names : List String) :
    Plain e (s.read names) := by
  intro n mem unbound
  have procedures : (s.read names).env.procedures = s.env.procedures := s.env.read_procedures names
  rw [Environment.procedure?, procedures]
  refine h n mem ?_
  by_contra bound
  have still := Environment.isSome_get?_read names (Option.isSome_iff_ne_none.mpr bound)
  rw [State.read] at unbound
  rw [unbound] at still
  cases still

theorem evalName_of_plain {n : String} {s : State} (h : Plain (.name n) s)
    (eval : Expr → Machine Value) (exec : Stmt → Machine Unit) :
    evalName eval exec n s = .ok (s.env.meaning n) (s.read [n]) := by
  rw [evalName, bind_ok (rfl : (get : Machine State) s = .ok s s), Environment.meaning, State.read,
    Environment.read, Environment.read]
  cases bound : s.env.get? n with
  | some v =>
    rw [Environment.getOrDeclare_of_some bound]
    rfl
  | none =>
    have read :
        getOrDeclare n s = .ok (s.env.getOrDeclare n).1
          { s with env := (s.env.getOrDeclare n).2 } := rfl
    simp only [h n List.mem_cons_self bound, read, Environment.getOrDeclare_of_none bound]
    rfl

theorem onHeap_applyBinary (s : State) (op : BinaryOp) (a b : Value) :
    onHeap (Heap.Action.ofExcept (s.heap.applyBinary op a b)) s =
      outcome (s.heap.applyBinary op a b).toOption s := by
  rcases s.heap.applyBinary_cases op a b with ⟨v, applied, -⟩ | ⟨failed, -⟩
  · rw [applied]
    rfl
  · rw [failed]
    rfl

/-- Within a bound that is not less than its depth, an expression without calls is evaluated to its
value, and the names in it are read. -/
theorem eval_eq_outcome {e : Expr} (free : e.CallFree) {s : State} (plain : Plain e s) {fuel : Nat}
    (enough : e.depth ≤ fuel) : eval fuel e s = outcome (e.value? s) (s.read (e.namesRead s)) := by
  induction free generalizing s fuel with
  | number x =>
    obtain ⟨fuel, rfl⟩ := Nat.exists_eq_add_of_le' enough
    rfl
  | text t =>
    obtain ⟨fuel, rfl⟩ := Nat.exists_eq_add_of_le' enough
    rfl
  | name n =>
    obtain ⟨fuel, rfl⟩ := Nat.exists_eq_add_of_le' enough
    exact evalName_of_plain plain _ _
  | @unary op e free ih =>
    obtain ⟨fuel, rfl⟩ : ∃ n, fuel = n + 1 :=
      Nat.exists_eq_add_of_le' (Nat.le_of_add_left_le enough)
    have run := ih (s := s) (fun n mem ↦ plain n (List.mem_append_left _ mem))
        (Nat.le_of_succ_le_succ enough)
    rw [eval, evalExpr, free.namesRead_unary op, Expr.value?]
    cases hv : e.value? s with
    | none =>
      rw [hv] at run
      exact bind_error run
    | some v =>
      rw [hv] at run
      exact bind_ok run
  | @binary op l r hl hr ihl ihr =>
    obtain ⟨fuel, rfl⟩ : ∃ n, fuel = n + 1 :=
      Nat.exists_eq_add_of_le' (Nat.le_of_add_left_le enough)
    obtain ⟨left, right⟩ := Nat.max_le.mp (Nat.le_of_succ_le_succ enough)
    have first := ihl (s := s) (fun n mem ↦ plain n (List.mem_append_left _ mem)) left
    rw [eval, evalExpr, Expr.value?]
    cases ha : l.value? s with
    | none =>
      rw [ha] at first
      rw [hl.namesRead_binary_of_none op ha]
      exact bind_error first
    | some a =>
      rw [ha] at first
      have read : Plain r (s.read (l.namesRead s)) :=
        Plain.read (fun n mem ↦ plain n (List.mem_append_right _ (List.mem_append_left _ mem))) _
      -- the right operand is evaluated where the names of the left one have been read
      have second := ihr read right
      have both : (s.read (l.namesRead s)).read (r.namesRead s) =
          s.read ((Expr.binary op l r).namesRead s) := by
        rw [hl.namesRead_binary_of_some op hr (Option.isSome_of_eq_some ha)]
        exact congrArg (fun env ↦ { s with env }) (s.env.read_append _ _).symm
      rw [Expr.value?_read, Expr.namesRead_read, both] at second
      rw [bind_ok first, Option.bind_some]
      cases hb : r.value? s with
      | none =>
        rw [hb] at second
        exact bind_error second
      | some b =>
        rw [hb] at second
        rw [bind_ok second, Option.bind_some, bind_ok (rfl : (get : Machine State) _ = .ok _ _)]
        exact onHeap_applyBinary _ op a b

/-- An expression without calls has a value, unless the evaluation comes to a division by zero. All
that is done to the state is to bind the names that are read, and the same evaluation does nothing
more the second time. -/
theorem eval_callFree {e : Expr} (free : e.CallFree) {s : State} (plain : Plain e s) :
    ∃ s', (∀ fuel, e.depth ≤ fuel → eval fuel e s = outcome (e.value? s) s' ∧
        eval fuel e s' = outcome (e.value? s) s') ∧
      (e.value? s = none ↔ ∃ d, e.Reaches s d ∧ d.dividesByZero s) ∧
      s.ZerosBound (fun n ↦ e.Reaches s (.name n)) s' := by
  refine ⟨s.read (e.namesRead s), fun fuel enough ↦ ⟨eval_eq_outcome free plain enough, ?_⟩, ?_, ?_⟩
  · have again : (s.read (e.namesRead s)).read (e.namesRead s) = s.read (e.namesRead s) :=
      congrArg (fun env ↦ { s with env }) (s.env.read_read _)
    rw [eval_eq_outcome free (plain.read _) enough, Expr.value?_read, Expr.namesRead_read, again]
  · rw [Expr.exists_reaches_iff, ← Option.not_isSome_iff_eq_none, free.isSome_value?]
    simp
  · simp only [← Expr.mem_namesRead]
    exact s.zerosBound_read _

/-- The evaluation of `a And (1 \ b + c)` fails at the division: `a` and `b` are bound then, and `c`
is not. -/
theorem eval_callFree_before_division :
    let e : Expr :=
      .binary .and (.name "a") (.binary .add (.binary .intDiv (.number 1) (.name "b")) (.name "c"))
    let s := State.initial
    e.CallFree ∧ Plain e s ∧ ∃ s',
      (∀ fuel, 4 ≤ fuel → eval fuel e s = .error (.error .divisionByZero) s' ∧
        eval fuel e s' = .error (.error .divisionByZero) s') ∧
      s'.env.current.get? "a" = some (.number 0) ∧ s'.env.current.get? "b" = some (.number 0) ∧
      s'.env.current.get? "c" = none := by
  intro e s
  have free : e.CallFree :=
    .binary _ (.name _) (.binary _ (.binary _ (.number _) (.name _)) (.name _))
  have plain : Plain e s := fun n _ _ ↦ Std.ExtTreeMap.getElem?_empty
  obtain ⟨s', evaluated, -, bound⟩ := eval_callFree free plain
  have fails : e.value? s = none := by decide +kernel
  have reached (n : String) : e.Reaches s (.name n) ↔ n = "a" ∨ n = "b" := by
    rw [← Expr.mem_namesRead]
    have names : e.namesRead s = ["a", "b"] := by decide +kernel
    simp [names]
  rw [fails] at evaluated
  refine ⟨free, plain, s', evaluated, ?_, ?_, ?_⟩
  · exact bound.bound "a" ((reached "a").mpr (.inl rfl)) (by decide +kernel)
  · exact bound.bound "b" ((reached "b").mpr (.inr rfl)) (by decide +kernel)
  · rw [bound.kept "c"]
    · decide +kernel
    · intro n hn _
      rcases (reached n).mp hn with rfl | rfl <;> decide +kernel

end Machine

end MiniBasic
