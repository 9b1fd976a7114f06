import MiniBasic.Proofs.Machine.Isolation

/-!
# Runs of programs in other spellings

Programs that differ in the spelling of names only run alike, from states that differ only in the
spelling of the procedures they know.
-/

namespace MiniBasic

variable {f : String → String}

/-- Blocks that differ in spelling only. -/
def Respelled (f : String → String) (body body' : List Stmt) : Prop :=
  body.map (Stmt.respell f) = body'.map (Stmt.respell f)

theorem Alternative.alike_of_respell : ∀ {a b : Alternative}, a.respell f = b.respell f →
    a.Alike f (Respelled f) b
  | .none, .none, _ => .none
  | .block body, .block body', h => by
    simp only [respell, block.injEq] at h
    exact .block h
  | .elseIf c body a, .elseIf c' body' a', h => by
    simp only [respell, elseIf.injEq] at h
    exact .elseIf h.1 h.2.1 (alike_of_respell h.2.2)
  | .none, .block _, h => by simp only [respell, reduceCtorEq] at h
  | .none, .elseIf .., h => by simp only [respell, reduceCtorEq] at h
  | .block _, .none, h => by simp only [respell, reduceCtorEq] at h
  | .block _, .elseIf .., h => by simp only [respell, reduceCtorEq] at h
  | .elseIf .., .none, h => by simp only [respell, reduceCtorEq] at h
  | .elseIf .., .block _, h => by simp only [respell, reduceCtorEq] at h

/-- Statements that differ in spelling only are executed alike. -/
theorem Stmt.alike_of_respell {s t : Stmt} (h : s.respell f = t.respell f) :
    s.Alike f (Respelled f) t := by
  cases s <;> cases t <;> simp only [respell, reduceCtorEq] at h
  case forLoop.forLoop =>
    simp only [forLoop.injEq] at h
    obtain ⟨counter, start, stop, step, body, -⟩ := h
    exact .forLoop counter start stop step body
  case ifThen.ifThen =>
    simp only [ifThen.injEq] at h
    exact .ifThen (.elseIf h.1 h.2.1 (Alternative.alike_of_respell h.2.2))
  case doWhile.doWhile =>
    simp only [doWhile.injEq] at h
    exact .doWhile h.1 h.2
  case procedure.procedure kind name params body kind' name' params' body' =>
    simp only [procedure.injEq] at h
    obtain ⟨kind, name, params, body⟩ := h
    exact .procedure (p := ⟨_, _, _, _⟩) (q := ⟨_, _, _, _⟩) ⟨kind, name, params, body⟩
  case dim.dim =>
    simp only [dim.injEq] at h
    exact .dim h
  case const.const =>
    simp only [const.injEq] at h
    exact .const h.1 h.2
  case set.set =>
    simp only [set.injEq] at h
    exact .set h.1 h.2
  case assign.assign =>
    simp only [assign.injEq] at h
    exact .assign h.1 h.2
  case onError.onError policy policy' => exact .onError policy policy'
  case erase.erase =>
    simp only [erase.injEq] at h
    exact .erase h
  case reDim.reDim =>
    simp only [reDim.injEq] at h
    obtain ⟨name, bounds, -⟩ := h
    refine .reDim name ?_
    rw [← List.getLast?_map, bounds, List.getLast?_map]
  case exit.exit =>
    simp only [exit.injEq] at h
    subst h
    exact .exit _
  case label.label name name' => exact .label name name'
  case option.option setting setting' =>
    simp only [option.injEq] at h
    cases setting <;> cases setting' <;> simp only [OptionSetting.respell, reduceCtorEq] at h
    · exact .explicit
    · simp only [OptionSetting.base.injEq] at h
      subst h
      exact .base _
    · exact .compare _ _
  case call.call =>
    simp only [call.injEq] at h
    exact .call h

theorem Respelled.forall₂ {p q : List Stmt} (h : Respelled f p q) :
    List.Forall₂ (Stmt.Alike f (Respelled f)) p q := by
  unfold Respelled at h
  rw [← List.forall₂_eq_eq_eq, List.forall₂_map_left_iff, List.forall₂_map_right_iff] at h
  exact h.imp fun _ _ ↦ Stmt.alike_of_respell

namespace State

/-- Two states that differ in the spelling of the procedures they know, and perhaps in what has been
printed and noted so far. -/
structure Equivalent (f : String → String) (s t : State) : Prop where
  globals : s.env.globals = t.env.globals
  frames : s.env.frames = t.env.frames
  procedures (key : String) :
    Option.Both (Procedure.Alike f (Respelled f)) s.env.procedures[key]? t.env.procedures[key]?
  heap : s.heap = t.heap
  arrayBase : s.arrayBase = t.arrayBase

theorem Equivalent.refl (s : State) : s.Equivalent f s where
  globals := rfl
  frames := rfl
  procedures key := by
    cases s.env.procedures[key]? with
    | none => exact .none
    | some p => exact .some ⟨rfl, rfl, rfl, rfl⟩
  heap := rfl
  arrayBase := rfl

theorem Equivalent.paired {s t : State} (h : s.Equivalent f t) :
    Paired f (Respelled f) s.output t.output (s.env.frames.tail, s.env.frames.tail) s t where
  globals := h.globals
  innermost := by rw [h.frames]
  callers_left := rfl
  callers_right := by rw [h.frames]
  procedures := h.procedures
  heap := h.heap
  arrayBase := h.arrayBase
  output := ⟨#[], Array.append_empty.symm, Array.append_empty.symm⟩

theorem Paired.equivalent {before before' : Array String} {callers : List Scope} {s t : State}
    (h : Paired f (Respelled f) before before' (callers, callers) s t) : s.Equivalent f t where
  globals := h.globals
  frames := h.frames_eq
  procedures := h.procedures
  heap := h.heap
  arrayBase := h.arrayBase

end State

/-- Two operations of a host that end in the same way, up to the spelling of names in an error. -/
inductive Outcome.Alike (f : String → String) {α : Type} : Outcome α → Outcome α → Prop
  | done (result : α) : Alike f (.done result) (.done result)
  | failed {d e : RuntimeError} (h : d.respell f = e.respell f) : Alike f (.failed d) (.failed e)
  | unfinished : Alike f .unfinished .unfinished

/-- What two runs from `s` and `t` have in common: how they end, the lines that they print, and the
variables, objects and array base at the end. -/
structure SameRun (f : String → String) {α : Type} (s t : State) (x y : Outcome α × State) :
    Prop where
  outcome : x.1.Alike f y.1
  state : x.2.Equivalent f y.2
  output : ∃ lines, x.2.output = s.output ++ lines ∧ y.2.output = t.output ++ lines

/-- Programs that differ in spelling only run alike in equivalent states. -/
theorem State.run_respelled (hf : Text.Folding f) {p q : Program} (h : Respelled f p q) (fuel : Nat)
    {s t : State} (hs : s.Equivalent f t) : SameRun f s t (s.run fuel p) (t.run fuel q) := by
  have sim := simulation_paired (B := Respelled f) hf s.output t.output
  have bodywise : Machine.Bodywise f (Respelled f) (Paired f (Respelled f) s.output t.output) :=
    Machine.bodywise_of_forall₂ fun _ _ h ↦ h.forall₂
  have ended := Machine.simulated_runProgram sim bodywise h.forall₂ fuel _ s t hs.paired
  unfold State.run Machine.finish
  generalize Machine.runProgram fuel p s = x at ended ⊢
  generalize Machine.runProgram fuel q t = y at ended ⊢
  cases ended with
  | ok result state =>
    subst result
    exact ⟨.done _, state.equivalent, state.output⟩
  | error error state =>
    cases error with
    | exit target => exact ⟨.failed rfl, state.equivalent, state.output⟩
    | error h => exact ⟨.failed h, state.equivalent, state.output⟩
    | outOfFuel => exact ⟨.unfinished, state.equivalent, state.output⟩

end MiniBasic
