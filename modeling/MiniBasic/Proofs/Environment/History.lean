import MiniBasic.Proofs.Control.Hoisting
import MiniBasic.Proofs.Environment.Levels

/-!
# Histories of an environment

A history of an environment is a list of what is done with it, the oldest first: frames are pushed
and popped, names are defined, declared, assigned and read. Each event writes one binding at most.
So the writes of a history say what is bound at its end: at a level that is there all the time, what
was last written at this level, or else what was bound there before. Popping a frame gives back the
frames that were there when it was pushed, and of all the writes in between only the global ones
remain. What programs do to their variables is always such a history.
-/

namespace MiniBasic.Environment

/-- What may be done with an environment. -/
inductive Event where
  | pushed (frame : Scope)
  | popped
  | globalDefined (n : String) (v : Value)
  | declared (n : String) (v : Value)
  | assigned (n : String) (v : Value)
  | lookedUp (n : String)
  | read (n : String)

/-- The environment after an event. -/
def apply (env : Environment) : Event → Environment
  | .pushed frame => env.push frame
  | .popped => env.pop.2
  | .globalDefined n v => env.defineGlobal n v
  | .declared n v => env.declare n v
  | .assigned n v => env.assign n v
  | .lookedUp _ => env
  | .read n => (env.getOrDeclare n).2

/-- The environment at the end of a history. -/
def after (env : Environment) (log : List Event) : Environment :=
  log.foldl apply env

/-- What an event should write. A name that is read is declared if no binding of it is seen. -/
def written? (env : Environment) : Event → Option Write
  | .globalDefined n v => some ⟨.globals, n, v⟩
  | .declared n v => some ⟨env.innermost, n, v⟩
  | .assigned n v => some ⟨env.owner n, n, v⟩
  | .read n =>
    if (env.visible? n).isSome then none else some ⟨env.innermost, n, .number (Number.ofNat 0)⟩
  | _ => none

/-- The writes of a history. -/
def writes : Environment → List Event → List Write
  | _, [] => []
  | env, e :: log => (env.written? e).toList ++ (env.apply e).writes log

/-- The value that was last written under a name at a level. -/
def lastWritten (n : String) (l : Level) (ws : List Write) : Option Value :=
  (ws.filterMap (·.value? n l)).getLast?

/-- How many frames are above a certain one after an event, if there were `k` before; `none` if it
is popped itself. -/
def Event.above (k : Nat) : Event → Option Nat
  | pushed _ => some (k + 1)
  | popped => if k = 0 then none else some (k - 1)
  | _ => some k

/-- How many frames are above a certain one at the end of a history; `none` if it has been
popped. -/
def above (k : Nat) (log : List Event) : Option Nat :=
  log.foldlM Event.above k

/-- The level is there. -/
def Has (env : Environment) : Level → Prop
  | .globals => True
  | .frame i => i < env.frames.length

theorem after_append (env : Environment) (log later : List Event) :
    env.after (log ++ later) = (env.after log).after later :=
  List.foldl_append

/-! ## Single events -/

section Apply

variable {env : Environment} {e : Event}

theorem written?_read (n : String) : env.written? (.read n) =
    if (env.get? n).isSome then none else some ⟨env.innermost, n, .number (Number.ofNat 0)⟩ := by
  rw [written?, get?_eq_visible?]

theorem wrote_of_written? {w : Write} (h : env.written? e = some w) :
    env.Wrote w (env.apply e) := by
  cases e with
  | pushed frame => cases h
  | popped => cases h
  | globalDefined n v =>
    cases h
    exact env.wrote_defineGlobal n v
  | declared n v =>
    cases h
    exact env.wrote_declare n v
  | assigned n v =>
    cases h
    exact env.wrote_assign n v
  | lookedUp n => cases h
  | read n =>
    rw [written?_read] at h
    cases bound : env.get? n with
    | some v =>
      rw [bound] at h
      cases h
    | none =>
      rw [bound] at h
      cases h
      rw [apply, getOrDeclare_of_none bound]
      exact env.wrote_declare n _

theorem apply_of_written?_eq_none (h : env.written? e = none)
    (notPushed : ∀ frame, e ≠ .pushed frame) (notPopped : e ≠ .popped) : env.apply e = env := by
  cases e with
  | pushed frame => exact absurd rfl (notPushed frame)
  | popped => exact absurd rfl notPopped
  | globalDefined n v => cases h
  | declared n v => cases h
  | assigned n v => cases h
  | lookedUp n => rfl
  | read n =>
    rw [written?_read] at h
    cases bound : env.get? n with
    | some v => rw [apply, getOrDeclare_of_some bound]
    | none =>
      rw [bound] at h
      cases h

/-- A level that is there before an event and after it binds what the event writes, or else what it
has bound. -/
theorem boundAt?_apply {l : Level} (before : env.Has l) (stays : (env.apply e).Has l) (n : String) :
    (env.apply e).boundAt? n l = ((env.written? e).bind (·.value? n l)).or (env.boundAt? n l) := by
  cases written : env.written? e with
  | some w => exact (wrote_of_written? written).bound n l
  | none =>
    rw [Option.bind_none, Option.none_or]
    -- frames are pushed and popped above the level
    cases e with
    | pushed frame =>
      refine (env.boundAt?_push frame n l).trans (if_neg ?_)
      rintro rfl
      exact Nat.lt_irrefl _ before
    | popped =>
      refine (env.boundAt?_pop n l).trans (if_neg ?_)
      rintro rfl
      rw [apply, Has, pop, List.length_tail] at stays
      exact Nat.lt_irrefl _ stays
    | _ => rw [apply_of_written?_eq_none written (by simp) (by simp)]

end Apply

/-! ## The frames below -/

/-- The frames `callers` are the lowest ones on the stack. Above them there are one frame and `k`
more. -/
structure StandsOn (env : Environment) (callers : List Scope) (k : Nat) : Prop where
  suffix : callers <:+ env.frames.tail
  length : env.frames.length = callers.length + k + 1

namespace StandsOn

variable {env : Environment} {callers : List Scope} {k k' : Nat}

theorem push (env : Environment) (frame : Scope) : (env.push frame).StandsOn env.frames 0 :=
  ⟨List.suffix_rfl, rfl⟩

/-- A change of the innermost frame only. -/
theorem of_tail (h : env.StandsOn callers k) {env' : Environment}
    (same : env'.frames.length = env.frames.length ∧ env'.frames.tail = env.frames.tail) :
    env'.StandsOn callers k := by
  constructor
  · rw [same.2]
    exact h.suffix
  · rw [same.1]
    exact h.length

theorem popped (h : env.StandsOn callers (k + 1)) : env.pop.2.StandsOn callers k := by
  obtain ⟨globals, frames, procedures⟩ := env
  obtain ⟨suffix, length⟩ := h
  cases frames with
  | nil => cases length
  | cons frame frames =>
    cases frames with
    | nil => cases length
    | cons next frames =>
      replace length : frames.length = callers.length + k :=
        Nat.succ_inj.mp (Nat.succ_inj.mp length)
      refine ⟨?_, congrArg Nat.succ length⟩
      -- the callers cannot be all the frames but the first: one more was above them
      rcases List.suffix_cons_iff.mp suffix with all | lower
      · rw [all, List.length_cons] at length
        omega
      · exact lower

theorem apply (h : env.StandsOn callers k) {e : Event} (step : e.above k = some k') :
    (env.apply e).StandsOn callers k' := by
  cases e with
  | pushed frame =>
    cases step
    exact ⟨h.suffix.trans (List.tail_suffix _), congrArg Nat.succ h.length⟩
  | popped =>
    cases k with
    | zero => cases step
    | succ k =>
      cases step
      exact h.popped
  | globalDefined n v =>
    cases step
    exact h.of_tail ⟨rfl, rfl⟩
  | declared n v =>
    cases step
    exact h.of_tail (env.declare_frames n v)
  | assigned n v =>
    cases step
    exact h.of_tail (env.assign_frames n v)
  | lookedUp n =>
    cases step
    exact h
  | read n =>
    cases step
    have same := env.sameOthers_read [n]
    exact h.of_tail ⟨same.1, same.2.1⟩

theorem after (h : env.StandsOn callers k) {log : List Event} (run : above k log = some k') :
    (env.after log).StandsOn callers k' := by
  induction log generalizing env k with
  | nil =>
    cases run
    exact h
  | cons e log ih =>
    rw [above, List.foldlM_cons] at run
    obtain ⟨j, step, rest⟩ := Option.bind_eq_some_iff.mp run
    exact ih (h.apply step) rest

theorem has (h : env.StandsOn callers k) : env.Has (.frame callers.length) := by
  rw [Has, h.length]
  omega

/-- The frame on `callers` is there all the time. -/
theorem has_throughout (h : env.StandsOn callers k) {log : List Event}
    (run : above k log = some k') :
    ∀ earlier, earlier <+: log → (env.after earlier).Has (.frame callers.length) := by
  rintro earlier ⟨later, rfl⟩
  rw [above, List.foldlM_append] at run
  obtain ⟨j, run, -⟩ := Option.bind_eq_some_iff.mp run
  exact (h.after run).has

/-- If there is no other frame above, popping leaves `callers`. -/
theorem pop_frames (h : env.StandsOn callers 0) : env.pop.2.frames = callers := by
  refine (h.suffix.eq_of_length ?_).symm
  rw [List.length_tail, h.length]
  rfl

theorem innermost_eq (h : env.StandsOn callers 0) : env.innermost = .frame callers.length := by
  rw [innermost, h.length]
  rfl

end StandsOn

/-! ## Whole histories -/

section LastWritten

variable (n : String) (l : Level)

theorem lastWritten_append (ws ws' : List Write) :
    lastWritten n l (ws ++ ws') = (lastWritten n l ws').or (lastWritten n l ws) := by
  rw [lastWritten, List.filterMap_append, List.getLast?_append]
  rfl

theorem lastWritten_toList (w : Option Write) :
    lastWritten n l w.toList = w.bind (·.value? n l) := by
  cases w with
  | none => rfl
  | some w =>
    rw [lastWritten, Option.toList_some, Option.bind_some]
    cases h : w.value? n l with
    | none => simp [h]
    | some v => simp [h]

end LastWritten

/-- The writes of a history say what is bound at a level that is there all the time. -/
theorem boundAt?_after {env : Environment} {log : List Event} {l : Level}
    (there : ∀ earlier, earlier <+: log → (env.after earlier).Has l) (n : String) :
    (env.after log).boundAt? n l = (lastWritten n l (env.writes log)).or (env.boundAt? n l) := by
  induction log generalizing env with
  | nil => rfl
  | cons e log ih =>
    have here : env.Has l := there [] List.nil_prefix
    have next : (env.apply e).Has l := there [e] (List.cons_prefix_cons.mpr ⟨rfl, List.nil_prefix⟩)
    have later : ∀ earlier, earlier <+: log → ((env.apply e).after earlier).Has l := by
      intro earlier h
      exact there (e :: earlier) (List.cons_prefix_cons.mpr ⟨rfl, h⟩)
    -- what the first event writes counts if none of the others writes there
    calc ((env.apply e).after log).boundAt? n l
      _ = (lastWritten n l ((env.apply e).writes log)).or ((env.apply e).boundAt? n l) := ih later
      _ = (lastWritten n l ((env.apply e).writes log)).or
            (((env.written? e).bind (·.value? n l)).or (env.boundAt? n l)) := by
        rw [boundAt?_apply here next]
      _ = (lastWritten n l (env.writes (e :: log))).or (env.boundAt? n l) := by
        rw [writes, lastWritten_append, lastWritten_toList, Option.or_assoc]

theorem globals_after (env : Environment) (log : List Event) (n : String) :
    (env.after log).boundAt? n .globals =
      (lastWritten n .globals (env.writes log)).or (env.boundAt? n .globals) :=
  boundAt?_after (l := .globals) (fun _ _ ↦ trivial) n

/-! ## What programs do -/

/-- The same variables. The procedures may be others. -/
structure SameScopes (env env' : Environment) : Prop where
  globals : env'.globals = env.globals
  frames : env'.frames = env.frames

namespace SameScopes

variable {env env' : Environment}

theorem declare (h : env.SameScopes env') (n : String) (v : Value) :
    (env.declare n v).SameScopes (env'.declare n v) := by
  unfold Environment.declare
  rw [h.frames]
  cases env.frames with
  | nil => exact ⟨congrArg (·.set n v) h.globals, h.frames⟩
  | cons frame frames => exact ⟨h.globals, rfl⟩

theorem assign (h : env.SameScopes env') (n : String) (v : Value) :
    (env.assign n v).SameScopes (env'.assign n v) := by
  unfold Environment.assign
  rw [h.frames, h.globals]
  split
  · exact h.declare n v
  · split
    · exact ⟨congrArg (·.set n v) h.globals, h.frames⟩
    · exact h.declare n v

theorem getOrDeclare (h : env.SameScopes env') (n : String) :
    (env.getOrDeclare n).2.SameScopes (env'.getOrDeclare n).2 := by
  have same : env'.get? n = env.get? n := by
    rw [get?, get?, h.frames, h.globals]
  cases bound : env.get? n with
  | some v =>
    rw [getOrDeclare_of_some bound, getOrDeclare_of_some (same.trans bound)]
    exact h
  | none =>
    rw [getOrDeclare_of_none bound, getOrDeclare_of_none (same.trans bound)]
    exact h.declare n _

theorem apply (h : env.SameScopes env') (e : Event) : (env.apply e).SameScopes (env'.apply e) := by
  cases e with
  | pushed frame => exact ⟨h.globals, congrArg (frame :: ·) h.frames⟩
  | popped => exact ⟨h.globals, congrArg List.tail h.frames⟩
  | globalDefined n v => exact ⟨congrArg (·.set n v) h.globals, h.frames⟩
  | declared n v => exact h.declare n v
  | assigned n v => exact h.assign n v
  | lookedUp n => exact h
  | read n => exact h.getOrDeclare n

/-- One event more. -/
theorem concat {log : List Event} (h : (env.after log).SameScopes env') (e : Event) :
    (env.after (log ++ [e])).SameScopes (env'.apply e) := by
  rw [after_append]
  exact h.apply e

end SameScopes

/-- Whatever is executed, the variables are at each moment what a history has made of them. -/
theorem exists_history (x : Control.Execution) (s : State) (k : Nat) :
    ∃ log, (s.env.after log).SameScopes (x.moment s k).state.env := by
  refine x.keeps (P := fun t ↦ ∃ log, (s.env.after log).SameScopes t.env) ?_ ?_ ⟨[], rfl, rfl⟩ k
  · rintro t t' change ⟨log, h⟩
    cases change with
    | assign n v => exact ⟨_, h.concat (.assigned n v)⟩
    | declare n v _ => exact ⟨_, h.concat (.declared n v)⟩
    | push frame => exact ⟨_, h.concat (.pushed frame)⟩
    | define ps _ =>
      exact ⟨log, (t.env.globals_defineAll ps).trans h.globals,
        (t.env.frames_defineAll ps).trans h.frames⟩
    | note n => exact ⟨log, (t.noted_env n).symm ▸ h⟩
    | _ => exact ⟨log, h⟩
  · rintro t ⟨log, h⟩
    exact ⟨_, h.concat .popped⟩

/-! ## Two levels -/

/-- Of all the levels two are seen, the innermost frame and the globals, and an event writes one
binding at one level at most. Frames come and go at the top. -/
structure TwoLevel (env : Environment) : Prop where
  get (n : String) : env.get? n = env.visible? n
  get_assign (m n : String) (v : Value) :
    (env.assign m v).get? n = if Text.foldCase m = Text.foldCase n then some v else env.get? n
  get_read (m n : String) : (env.getOrDeclare m).2.get? n =
    if Text.foldCase m = Text.foldCase n then some (env.getOrDeclare m).1 else env.get? n
  read (m : String) : (env.getOrDeclare m).1 = (env.get? m).getD (.number (Number.ofNat 0))
  write (e : Event) (w : Write) : env.written? e = some w → env.Wrote w (env.apply e)
  idle (e : Event) : env.written? e = none → (∀ frame, e ≠ .pushed frame) → e ≠ .popped →
    env.apply e = env
  push (frame : Scope) (n : String) (l : Level) : (env.push frame).boundAt? n l =
    if l = .frame env.frames.length then frame.get? n else env.boundAt? n l
  pop (n : String) (l : Level) : env.pop.2.boundAt? n l =
    if l = .frame (env.frames.length - 1) then none else env.boundAt? n l
  popped (n : String) : env.pop.1.get? n = env.boundAt? n (.frame (env.frames.length - 1))

theorem twoLevel (env : Environment) : env.TwoLevel where
  get := env.get?_eq_visible?
  get_assign m n v := env.get?_assign m n v
  get_read := env.get?_getOrDeclare
  read m := by
    cases bound : env.get? m with
    | some v => rw [getOrDeclare_of_some bound, Option.getD_some]
    | none => rw [getOrDeclare_of_none bound, Option.getD_none]
  write _ _ := wrote_of_written?
  idle _ := apply_of_written?_eq_none
  push := env.boundAt?_push
  pop := env.boundAt?_pop
  popped := env.get?_pop

/-- A frame is pushed, and at the end of a history it is the innermost frame again. A lookup then
finds the first there is of what was last written in the frame, what it was pushed with, what was
last written among the globals, and what they bound before. When the frame is popped, the frames are
those from before, and so are all lookups but those of globals that have been written. -/
structure Framed (env : Environment) (frame : Scope) (log : List Event) : Prop where
  inside (n : String) : ((env.push frame).after log).get? n =
    ((lastWritten n (.frame env.frames.length) ((env.push frame).writes log)).or (frame.get? n)).or
      ((lastWritten n .globals ((env.push frame).writes log)).or (env.boundAt? n .globals))
  frames : ((env.push frame).after log).pop.2.frames = env.frames
  outside (n : String) : ((env.push frame).after log).pop.2.get? n =
    (env.local? n).or
      ((lastWritten n .globals ((env.push frame).writes log)).or (env.boundAt? n .globals))
  unwritten (n : String) : lastWritten n .globals ((env.push frame).writes log) = none →
    ((env.push frame).after log).pop.2.get? n = env.get? n

theorem framed (env : Environment) (frame : Scope) {log : List Event}
    (closed : above 0 log = some 0) :
    env.Framed frame log := by
  have base := StandsOn.push env frame
  have top := base.after closed
  have globals := (env.push frame).globals_after log
  have outside : ∀ n, ((env.push frame).after log).pop.2.get? n = (env.local? n).or
      ((lastWritten n .globals ((env.push frame).writes log)).or (env.boundAt? n .globals)) := by
    intro n
    rw [get?, top.pop_frames]
    exact congrArg (Option.or _) (globals n)
  refine ⟨fun n ↦ ?_, top.pop_frames, outside, fun n unwritten ↦ ?_⟩
  · have pushed : (env.push frame).boundAt? n (.frame env.frames.length) = frame.get? n :=
      env.boundAt?_push_innermost frame n
    rw [get?_eq_visible?, visible?, top.innermost_eq, boundAt?_after (base.has_throughout closed),
      pushed, globals]
    rfl
  · rw [outside, unwritten, Option.none_or]
    rfl

/-- Variables are in scopes of two levels, whatever the history. Of an environment at the end of a
history the laws of two levels hold, and its globals are what was last written there. A frame that
is pushed then hides globals and is filled, and when it is popped, no more is left of it than the
globals that were written. What is executed then continues the history. -/
theorem scoped_in_two_levels (env : Environment) (log : List Event) :
    (env.after log).TwoLevel ∧
    (∀ n, (env.after log).boundAt? n .globals =
      (lastWritten n .globals (env.writes log)).or (env.boundAt? n .globals)) ∧
    (∀ frame between, above 0 between = some 0 → (env.after log).Framed frame between) ∧
    ∀ (x : Control.Execution) (s : State) (k : Nat), s.env = env.after log →
      ∃ later, (env.after (log ++ later)).SameScopes (x.moment s k).state.env := by
  refine ⟨twoLevel _, env.globals_after log, fun frame _ ↦ framed _ frame, fun x s k start ↦ ?_⟩
  obtain ⟨later, h⟩ := exists_history x s k
  exact ⟨later, by rwa [after_append, ← start]⟩

/-- The inner frame hides `y`, and a frame above it does not see this: there, `y` is the global. -/
theorem scoped_in_two_levels_nested :
    let log : List Event :=
      [.globalDefined "x" (.text "1"), .globalDefined "y" (.text "2"),
        .pushed (Scope.empty.set "a" (.text "3"))]
    let between : List Event :=
      [.assigned "X" (.text "4"), .declared "y" (.text "5"), .pushed .empty, .read "z",
        .assigned "Y" (.text "6"), .popped, .assigned "Y" (.text "7")]
    let inside := ((empty.after log).push .empty).after between
    above 0 between = some 0 ∧ (empty.after log).Framed .empty between ∧
      ["X", "Y", "A", "Z"].map inside.get? = [some (.text "4"), some (.text "7"), none, none] ∧
      ["X", "Y", "A", "Z"].map inside.pop.2.get? =
        [some (.text "4"), some (.text "6"), some (.text "3"), none] := by
  intro log between inside
  have closed : above 0 between = some 0 := rfl
  exact ⟨closed, (scoped_in_two_levels empty log).2.2.1 .empty between closed,
    by decide +kernel, by decide +kernel⟩

end MiniBasic.Environment
