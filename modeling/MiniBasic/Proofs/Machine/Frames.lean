import MiniBasic.Proofs.Machine.Guarantee

/-!
# The stack of frames

Whatever runs, and however it ends, leaves as many frames as it found and touches none but the
innermost one. So between two operations of a host, failed ones included, there are no frames at
all.
-/

namespace MiniBasic

/-- `s'` has as many frames as `s`, and the same ones but for the innermost. -/
structure State.KeepsFrames (s s' : State) : Prop where
  depth : s'.env.frames.length = s.env.frames.length
  callers : s'.env.frames.tail = s.env.frames.tail

namespace Environment

theorem declare_frames (env : Environment) (name : String) (value : Value) :
    (env.declare name value).frames.length = env.frames.length ∧
      (env.declare name value).frames.tail = env.frames.tail := by
  obtain ⟨globals, frames, procedures⟩ := env
  cases frames with
  | nil => exact ⟨rfl, rfl⟩
  | cons frame frames => exact ⟨rfl, rfl⟩

theorem assign_frames (env : Environment) (name : String) (value : Value) :
    (env.assign name value).frames.length = env.frames.length ∧
      (env.assign name value).frames.tail = env.frames.tail := by
  unfold assign
  split
  · exact env.declare_frames name value
  · split
    · exact ⟨rfl, rfl⟩
    · exact env.declare_frames name value

end Environment

theorem State.noted_env (s : State) (n : Notice) : (s.noted n).env = s.env := by
  unfold State.noted
  split <;> rfl

theorem State.noted_heap (s : State) (n : Notice) : (s.noted n).heap = s.heap := by
  unfold State.noted
  split <;> rfl

theorem State.guarantee_keepsFrames : Guarantee State.KeepsFrames where
  refl _ := ⟨rfl, rfl⟩
  trans h h' := ⟨h'.depth.trans h.depth, h'.callers.trans h.callers⟩
  assign s n v := ⟨(s.env.assign_frames n v).1, (s.env.assign_frames n v).2⟩
  declare s n v _ := ⟨(s.env.declare_frames n v).1, (s.env.declare_frames n v).2⟩
  define _ _ := ⟨rfl, rfl⟩
  setHeap _ _ := ⟨rfl, rfl⟩
  setBase _ _ := ⟨rfl, rfl⟩
  print _ _ := ⟨rfl, rfl⟩
  note s n := by
    constructor
    · rw [s.noted_env n]
    · rw [s.noted_env n]
  -- the callers of the body are the frames of the call, and these are what the pop leaves
  call s frame s' h := by
    have back : s'.env.frames.tail = s.env.frames := h.callers
    constructor
    · exact congrArg List.length back
    · exact congrArg List.tail back

namespace Machine

variable {α : Type}

theorem finish_snd (m : Machine α) (s : State) : (m.finish s).2 = m.final s := by
  unfold finish final
  cases m s with
  | ok a s' => rfl
  | error i s' => cases i <;> rfl

end Machine

/-- The states between the operations of a host that starts in the initial state. -/
inductive State.Hosted : State → Prop
  | initial : Hosted .initial
  | run {s : State} (h : Hosted s) (fuel : Nat) (program : Program) : Hosted (s.run fuel program).2
  | call {s : State} (h : Hosted s) (fuel : Nat) (name : String) (args : List Value) :
    Hosted (s.call fuel name args).2
  | evaluate {s : State} (h : Hosted s) (fuel : Nat) (text : String) :
    Hosted (s.evaluate fuel text).2

namespace State

theorem keepsFrames_run (s : State) (fuel : Nat) (program : Program) :
    s.KeepsFrames (s.run fuel program).2 := by
  rw [run, Machine.finish_snd]
  exact guarantee_keepsFrames.runProgram fuel program s

theorem keepsFrames_call (s : State) (fuel : Nat) (name : String) (args : List Value) :
    s.KeepsFrames (s.call fuel name args).2 := by
  rw [call, Machine.finish_snd]
  exact guarantee_keepsFrames.callProcedure fuel name args s

theorem keepsFrames_evaluate (s : State) (fuel : Nat) (text : String) :
    s.KeepsFrames (s.evaluate fuel text).2 := by
  rw [evaluate, Machine.finish_snd]
  exact guarantee_keepsFrames.evalText fuel text s

theorem KeepsFrames.frames_eq_nil {s s' : State} (h : s.KeepsFrames s') (hs : s.env.frames = []) :
    s'.env.frames = [] := by
  have depth := h.depth
  rw [hs] at depth
  exact List.eq_nil_of_length_eq_zero depth

theorem Hosted.frames_eq_nil {s : State} (h : s.Hosted) : s.env.frames = [] := by
  induction h with
  | initial => rfl
  | run _ fuel program ih => exact (keepsFrames_run _ fuel program).frames_eq_nil ih
  | call _ fuel name args ih => exact (keepsFrames_call _ fuel name args).frames_eq_nil ih
  | evaluate _ fuel text ih => exact (keepsFrames_evaluate _ fuel text).frames_eq_nil ih

/-- Frames are a stack: every run of a statement, a block, an expression, a program, a procedure or
an expression text ends with as many frames as it began with, and the frames of callers are as they
were, whether it ends well, by an exit or by an error. Between the operations of a host there is no
frame, and what the host and its next operation see are the globals. -/
theorem frames_disciplined (fuel : Nat) (s : State) :
    (∀ stmt, s.KeepsFrames ((Machine.exec fuel stmt).final s)) ∧
      (∀ body, s.KeepsFrames ((Machine.execAll (Machine.exec fuel) body).final s)) ∧
      (∀ e, s.KeepsFrames ((Machine.eval fuel e).final s)) ∧
      (∀ program, s.KeepsFrames (s.run fuel program).2) ∧
      (∀ name args, s.KeepsFrames (s.call fuel name args).2) ∧
      (∀ text, s.KeepsFrames (s.evaluate fuel text).2) ∧
      (s.Hosted → s.env.frames = [] ∧ ∀ name, s.lookup? name = s.env.globals.get? name) := by
  refine ⟨fun stmt ↦ ?_, fun body ↦ ?_, fun e ↦ ?_, s.keepsFrames_run fuel, s.keepsFrames_call fuel,
    s.keepsFrames_evaluate fuel, fun hosted ↦ ⟨hosted.frames_eq_nil, fun name ↦ ?_⟩⟩
  · exact guarantee_keepsFrames.exec fuel stmt s
  · exact guarantee_keepsFrames.execAll fuel body s
  · exact guarantee_keepsFrames.eval fuel e s
  · rw [lookup?, Environment.get?, hosted.frames_eq_nil]
    rfl

end State

end MiniBasic
