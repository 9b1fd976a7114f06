import MiniBasic.Proofs.Control.Change

/-!
# Names stay bound

A name that is bound stays bound: a global, a variable of a frame as long as the frame is on the
stack, and a procedure. And while there is a frame on the stack, no global is made; what is new goes
into the innermost frame. Both hold between any two moments of an execution, and so between its
start and its end.
-/

namespace MiniBasic

theorem Scope.contains_set (scope : Scope) (a b : String) (v : Value) :
    (scope.set a v).contains b =
      (decide (Text.foldCase a = Text.foldCase b) || scope.contains b) := by
  rw [contains_eq_isSome, contains_eq_isSome, get?_set]
  split <;> simp [*]

theorem Scope.contains_set_of_contains {scope : Scope} {b : String} (h : scope.contains b)
    (a : String) (v : Value) : (scope.set a v).contains b := by
  rw [contains_set, h, Bool.or_true]

/-- Assigning to a name that is bound binds no other name. -/
theorem Scope.contains_set_of_contains_self {scope : Scope} {a : String} (h : scope.contains a)
    (b : String) (v : Value) : (scope.set a v).contains b = scope.contains b := by
  rw [contains_set]
  by_cases same : Text.foldCase a = Text.foldCase b
  · rw [contains_sameName same] at h
    rw [h, Bool.or_true]
  · rw [decide_eq_false same, Bool.false_or]

namespace Environment

/-- Whether a name is bound in a frame. The frame of the outermost call has number zero. -/
def boundIn (env : Environment) (i : Nat) (name : String) : Bool :=
  env.frames.reverse[i]?.any (·.contains name)

theorem boundIn_push (env : Environment) (frame : Scope) {i : Nat} (hi : i < env.frames.length)
    (name : String) :
    (env.push frame).boundIn i name = env.boundIn i name := by
  simp only [boundIn, push, List.reverse_cons]
  rw [List.getElem?_append_left (by rwa [List.length_reverse])]

theorem boundIn_pop (env : Environment) {i : Nat} (hi : i < env.pop.2.frames.length)
    (name : String) :
    env.pop.2.boundIn i name = env.boundIn i name := by
  obtain ⟨globals, frames, procedures⟩ := env
  cases frames with
  | nil => cases hi
  | cons frame frames => exact (boundIn_push ⟨globals, frames, procedures⟩ frame hi name).symm

theorem boundIn_declare {env : Environment} {i : Nat} {name : String} (h : env.boundIn i name)
    (n : String) (v : Value) : (env.declare n v).boundIn i name := by
  obtain ⟨globals, frames, procedures⟩ := env
  cases frames with
  | nil => exact h
  | cons frame frames =>
    simp only [boundIn, declare, List.reverse_cons] at h ⊢
    -- the innermost frame is the last one when they are counted from the outermost
    rcases Nat.lt_trichotomy i frames.reverse.length with lt | rfl | gt
    · rwa [List.getElem?_append_left lt] at h ⊢
    · rw [List.getElem?_concat_length] at h ⊢
      exact Scope.contains_set_of_contains h n v
    · have outside : (frames.reverse ++ [frame]).length ≤ i := by
        rw [List.length_append]
        exact gt
      rw [List.getElem?_eq_none outside] at h
      cases h

end Environment

namespace State

/-- The number of frames on the stack. -/
def depth (s : State) : Nat :=
  s.env.frames.length

/-- What is bound in `s` is bound in `s'`. Of the frames this is asked for the outermost `d`; if
there are any, the globals have the same names. -/
structure KeepsBindings (d : Nat) (s s' : State) : Prop where
  globals (name : String) : s.env.globals.contains name → s'.env.globals.contains name
  sameGlobals (inCall : 0 < d) (name : String) :
    s'.env.globals.contains name = s.env.globals.contains name
  frames (i : Nat) (hi : i < d) (name : String) : s.env.boundIn i name → s'.env.boundIn i name
  procedures (name : String) : (s.env.procedure? name).isSome → (s'.env.procedure? name).isSome

namespace KeepsBindings

variable {d : Nat} {s t u : State}

theorem of_env (h : t.env = s.env) : KeepsBindings d s t where
  globals _ := by rw [h]; exact id
  sameGlobals _ _ := by rw [h]
  frames _ _ _ := by rw [h]; exact id
  procedures _ := by rw [h]; exact id

theorem trans (h : KeepsBindings d s t) (h' : KeepsBindings d t u) : KeepsBindings d s u where
  globals name hs := h'.globals name (h.globals name hs)
  sameGlobals inCall name := (h'.sameGlobals inCall name).trans (h.sameGlobals inCall name)
  frames i hi name hs := h'.frames i hi name (h.frames i hi name hs)
  procedures name hs := h'.procedures name (h.procedures name hs)

/-- A change of the environment that leaves the globals and the procedures alone. -/
theorem of_frames {env : Environment} (hg : env.globals = s.env.globals)
    (hp : env.procedures = s.env.procedures)
    (hf : ∀ i < d, ∀ name, s.env.boundIn i name → env.boundIn i name) :
    KeepsBindings d s { s with env } where
  globals name hs := by rwa [hg]
  sameGlobals _ name := by rw [hg]
  frames := hf
  procedures name hs := by rwa [Environment.procedure?, hp]

theorem declare (hd : d ≤ s.depth) (n : String) (v : Value) :
    KeepsBindings d s { s with env := s.env.declare n v } := by
  have frames (i : Nat) (name : String) (bound : s.env.boundIn i name) :=
    Environment.boundIn_declare bound n v
  unfold Environment.declare at frames ⊢
  cases hf : s.env.frames with
  | nil =>
    rw [hf] at frames
    refine ⟨fun name hs ↦ Scope.contains_set_of_contains hs n v, fun inCall ↦ ?_, fun i _ ↦
      frames i,
      fun name hs ↦ hs⟩
    rw [depth, hf] at hd
    exact absurd (Nat.lt_of_lt_of_le inCall hd) (Nat.lt_irrefl 0)
  | cons frame rest =>
    rw [hf] at frames
    exact of_frames rfl rfl fun i _ ↦ frames i

theorem assign (hd : d ≤ s.depth) (n : String) (v : Value) :
    KeepsBindings d s { s with env := s.env.assign n v } := by
  unfold Environment.assign
  split
  · exact declare hd n v
  · split
    next bound =>
      exact ⟨fun name hs ↦ Scope.contains_set_of_contains hs n v,
        fun _ name ↦ Scope.contains_set_of_contains_self bound name v, fun _ _ _ ↦ id, fun _ ↦ id⟩
    next => exact declare hd n v

theorem define (p : Procedure) : KeepsBindings d s { s with env := s.env.defineProcedure p } where
  globals _ := id
  sameGlobals _ _ := rfl
  frames _ _ _ := id
  procedures name hs := by
    simp only [Environment.procedure?, Environment.defineProcedure, Std.ExtTreeMap.getElem?_insert]
    split
    · rfl
    · exact hs

theorem defineAll (ps : List Procedure) :
    KeepsBindings d s { s with env := ps.foldl Environment.defineProcedure s.env } := by
  induction ps generalizing s with
  | nil => exact of_env rfl
  | cons p ps ih => exact (define p).trans ih

theorem push (hd : d ≤ s.depth) (frame : Scope) :
    KeepsBindings d s { s with env := s.env.push frame } :=
  of_frames rfl rfl fun i hi name hs ↦ by
    rwa [s.env.boundIn_push frame (Nat.lt_of_lt_of_le hi hd)]

theorem pop (hd : d ≤ s.env.pop.2.frames.length) :
    KeepsBindings d s { s with env := s.env.pop.2 } :=
  of_frames rfl rfl fun i hi name hs ↦ by
    rwa [s.env.boundIn_pop (Nat.lt_of_lt_of_le hi hd)]

end KeepsBindings

variable {d : Nat} {s s' : State} {D : Procedure → Prop}

theorem Change.keepsBindings (h : s.Change D s') (hd : d ≤ s.depth) : KeepsBindings d s s' := by
  cases h with
  | assign n v => exact .assign hd n v
  | declare n v _ => exact .declare hd n v
  | define ps _ => exact .defineAll ps
  | note n => exact .of_env (s.noted_env n)
  | push frame => exact .push hd frame
  | _ => exact .of_env rfl

/-- Of the frames that are left, none loses a name. -/
theorem Unwound.keepsBindings (h : s.Unwound s') (hd : d ≤ s'.depth) : KeepsBindings d s s' := by
  induction h with
  | refl => exact .of_env rfl
  | @pop s' h ih =>
    have deeper : s'.env.pop.2.frames.length ≤ s'.depth := by
      change s'.env.frames.tail.length ≤ _
      rw [List.length_tail]
      exact Nat.sub_le _ _
    exact (ih (Nat.le_trans hd deeper)).trans (.pop hd)
  | @assign s' h n v ih =>
    have before : d ≤ s'.depth := Nat.le_trans hd (Nat.le_of_eq (s'.env.assign_frames n v).1)
    exact (ih before).trans (.assign before n v)

/-! ## From the start to the end -/

/-- As many frames as before are on the stack, and nothing that was bound has become unbound. -/
def KeepsAllBindings (s s' : State) : Prop :=
  s'.depth = s.depth ∧ KeepsBindings s.depth s s'

theorem guarantee_keepsAllBindings : Guarantee KeepsAllBindings where
  refl _ := ⟨rfl, .of_env rfl⟩
  trans := by
    rintro s t u ⟨hd, h⟩ ⟨hd', h'⟩
    rw [hd] at hd' h'
    exact ⟨hd', h.trans h'⟩
  assign s n v := ⟨(s.env.assign_frames n v).1, .assign (Nat.le_refl _) n v⟩
  declare s n v _ := ⟨(s.env.declare_frames n v).1, .declare (Nat.le_refl _) n v⟩
  define _ p := ⟨rfl, .define p⟩
  setHeap _ _ := ⟨rfl, .of_env rfl⟩
  setBase _ _ := ⟨rfl, .of_env rfl⟩
  print _ _ := ⟨rfl, .of_env rfl⟩
  note s n := ⟨congrArg (·.frames.length) (s.noted_env n), .of_env (s.noted_env n)⟩
  -- the body runs in a frame, so it makes no global, and the frames below are those of the caller
  call s frame s' h := by
    obtain ⟨hd, h⟩ := h
    have back : s'.env.pop.2.frames.length = s.depth := by
      change s'.env.frames.tail.length = _
      rw [List.length_tail]
      exact congrArg (· - 1) hd
    have body : KeepsBindings s.depth { s with env := s.env.push frame } s' :=
      ⟨h.globals, fun _ ↦ h.sameGlobals (Nat.zero_lt_succ _), fun i hi ↦
        h.frames i (Nat.lt_succ_of_lt hi),
        h.procedures⟩
    exact ⟨back,
      (KeepsBindings.push (Nat.le_refl _) frame).trans (body.trans (.pop (Nat.le_of_eq back.symm)))⟩

end State

namespace Control

theorem Execution.guarantee {R : State → State → Prop} (h : Guarantee R) (x : Execution)
    (fuel : Nat) (s : State) :
    R s ((x.machine fuel).final s) := by
  have wrapped (m : Machine Unit) : (do m; return .empty : Machine Value).final s = m.final s := by
    change Machine.final (EStateM.bind m _) s = _
    unfold Machine.final EStateM.bind
    cases m s with
    | ok _ s' => rfl
    | error i s' => rfl
  cases x with
  | statement stmt => exact (wrapped _).symm ▸ h.exec fuel stmt s
  | block body => exact (wrapped _).symm ▸ h.execAll fuel body s
  | expression e => exact h.eval fuel e s
  | operation op =>
    cases op with
    | run program => exact (wrapped _).symm ▸ h.runProgram fuel program s
    | call name args => exact h.callProcedure fuel name args s
    | evaluate text => exact h.evalText fuel text s

namespace Config

variable {D : Procedure → Prop}

/-- While `d` frames are on the stack, nothing in them becomes unbound, nor does anything outside of
frames. -/
theorem Within.keepsBindings {c : Config} (h : c.Within D) {d k : Nat}
    (hd : ∀ i ≤ k, d ≤ (Config.step^[i] c).state.depth) :
    State.KeepsBindings d c.state (Config.step^[k] c).state := by
  induction k with
  | zero => exact .of_env rfl
  | succ k ih =>
    have before := ih fun i hi ↦ hd i (Nat.le_succ_of_le hi)
    have after := hd (k + 1) (Nat.le_refl _)
    rw [Function.iterate_succ_apply'] at after ⊢
    refine before.trans ?_
    rcases (h.iterate k).step.2 with changed | unwound
    · exact changed.keepsBindings (hd k (Nat.le_succ k))
    · exact unwound.keepsBindings after

end Config

/-- Bindings never vanish, and calls make no globals. An execution, however it ends, ends with as
many frames as it began with; what was bound in the globals, in these frames and in the table of
procedures is bound, and if there was a frame, then the same names are bound in the globals. The
same holds between any two moments of the execution, with the frames that have been on the stack all
the time. -/
theorem names_stay_bound (x : Execution) (s : State) :
    (∀ fuel, Settles fuel (x.moment s 0) [] (x.machine fuel s) ∧
        s.KeepsAllBindings ((x.machine fuel).final s)) ∧
      ∀ n k d, (∀ i ≤ k, d ≤ (x.moment s (n + i)).state.depth) →
        State.KeepsBindings d (x.moment s n).state (x.moment s (n + k)).state := by
  refine ⟨fun fuel ↦ ⟨x.settles fuel s, x.guarantee State.guarantee_keepsAllBindings fuel s⟩, ?_⟩
  intro n k d hd
  have later (i : Nat) : x.moment s (n + i) = Config.step^[i] (x.moment s n) := by
    rw [Execution.moment, Execution.moment, Nat.add_comm, Function.iterate_add_apply]
  simp only [later] at hd ⊢
  exact Config.Within.keepsBindings (Config.Within.iterate (x.within s) n) hd

/-- A new variable that is assigned in a call goes into its frame. -/
theorem names_stay_bound_local :
    let s := { State.initial with env := State.initial.env.push (Scope.empty.set "y" .empty) }
    let x : Execution := .statement (.assign (.name "x") (.text "1"))
    (∀ i ≤ 3, 1 ≤ (x.moment s (0 + i)).state.depth) ∧
      State.KeepsBindings 1 (x.moment s 0).state (x.moment s (0 + 3)).state ∧
      (x.moment s (0 + 3)).state.env.boundIn 0 "x" ∧ (x.moment s (0 + 3)).state.env.boundIn 0 "y" ∧
      ¬ (x.moment s (0 + 3)).state.env.globals.contains "x" := by
  intro s x
  have inCall : ∀ i ≤ 3, 1 ≤ (x.moment s (0 + i)).state.depth := by decide +kernel
  have kept := (names_stay_bound x s).2 0 3 1 inCall
  have y : s.env.boundIn 0 "y" := by decide +kernel
  have noGlobal : s.env.globals.contains "x" = false := by decide +kernel
  refine ⟨inCall, kept, ?_, kept.frames 0 Nat.zero_lt_one "y" y, ?_⟩
  · decide +kernel
  · rw [kept.sameGlobals Nat.zero_lt_one "x"]
    exact Bool.eq_false_iff.mp noGlobal

end Control

end MiniBasic
