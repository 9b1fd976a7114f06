import MiniBasic.Proofs.Machine.Execution

/-!
# What every run guarantees

A relation between the states before and after that is reflexive and transitive, that single steps
keep, and that passes from the body of a call to the call, holds of every run, however it ends. The
proof runs a program beside itself: two equal runs are simulated by each other, with the state at
the start as the world.
-/

namespace MiniBasic

namespace Machine

variable {α : Type}

/-- The state in which a run ends, however it ends. -/
def final (m : Machine α) (s : State) : State :=
  match m s with
  | .ok _ s' => s'
  | .error _ s' => s'

end Machine

/-- What single steps and calls have to keep, for a relation to hold between the start and the end
of every run. -/
structure Guarantee (R : State → State → Prop) : Prop where
  refl (s : State) : R s s
  trans {s t u : State} : R s t → R t u → R s u
  assign (s : State) (n : String) (v : Value) : R s { s with env := s.env.assign n v }
  declare (s : State) (n : String) (v : Value) : s.env.get? n = none →
    R s { s with env := s.env.declare n v }
  define (s : State) (p : Procedure) : R s { s with env := s.env.defineProcedure p }
  setHeap (s : State) (h : Heap) : R s { s with heap := h }
  setBase (s : State) (n : Nat) : R s { s with arrayBase := n }
  print (s : State) (line : String) : R s { s with output := s.output.push line }
  note (s : State) (n : Notice) : R s (s.noted n)
  call (s : State) (frame : Scope) (s' : State) : R { s with env := s.env.push frame } s' →
    R s { s' with env := s'.env.pop.2 }

theorem Procedure.Alike.refl {f : String → String} (p : Procedure) : p.Alike f Eq p :=
  ⟨rfl, rfl, rfl, rfl⟩

theorem Procedure.Alike.eq {p q : Procedure} (h : p.Alike id Eq q) : p = q := by
  obtain ⟨kind, name, params, body⟩ := p
  obtain ⟨kind', name', params', body'⟩ := q
  obtain ⟨hkind, hname, hparams, hbody⟩ := h
  have same : (fun p : Param ↦ p.respell id) = id := by
    funext p
    obtain ⟨n, byValue, fallback⟩ := p
    cases fallback with
    | none => rfl
    | some e => simp only [Param.respell, Option.map_some, Expr.respell_id, id]
  simp only [same, List.map_id] at hparams
  dsimp only [id] at hkind hname hparams hbody
  rw [hkind, hname, hparams, hbody]

/-- Equal bodies run alike. -/
theorem Machine.bodywise_eq {W : Type} {I : W → State → State → Prop} : Bodywise id Eq I := by
  refine bodywise_of_forall₂ ?_
  rintro body _ rfl
  exact List.forall₂_same.mpr fun stmt _ ↦ Stmt.Alike.refl (fun _ ↦ rfl) stmt

namespace Guarantee

variable {R : State → State → Prop} {α : Type}

/-- The same run twice, with what is guaranteed from the start on. -/
def Twin (R : State → State → Prop) (start s t : State) : Prop :=
  s = t ∧ R start s

theorem simulation (h : Guarantee R) : Simulation id Eq (Twin R) where
  folding := Text.folding_id
  lookup := by rintro _ s _ ⟨rfl, -⟩ n; rfl
  procedure := by
    rintro _ s _ ⟨rfl, -⟩ n
    cases s.env.procedure? n with
    | none => exact .none
    | some p => exact .some (Procedure.Alike.refl p)
  heap := by rintro _ s _ ⟨rfl, -⟩; rfl
  arrayBase := by rintro _ s _ ⟨rfl, -⟩; rfl
  assign := by
    rintro _ s _ ⟨rfl, hs⟩ n v
    exact ⟨rfl, h.trans hs (h.assign s n v)⟩
  declare := by
    rintro _ s _ ⟨rfl, hs⟩ n v unbound
    exact ⟨rfl, h.trans hs (h.declare s n v unbound)⟩
  define := by
    rintro _ s _ p q ⟨rfl, hs⟩ alike
    obtain rfl := alike.eq
    exact ⟨rfl, h.trans hs (h.define s p)⟩
  setHeap := by
    rintro _ s _ ⟨rfl, hs⟩ heap
    exact ⟨rfl, h.trans hs (h.setHeap s heap)⟩
  setBase := by
    rintro _ s _ ⟨rfl, hs⟩ n
    exact ⟨rfl, h.trans hs (h.setBase s n)⟩
  print := by
    rintro _ s _ ⟨rfl, hs⟩ line
    exact ⟨rfl, h.trans hs (h.print s line)⟩
  note := by
    rintro _ s _ ⟨rfl, hs⟩ n
    exact ⟨rfl, h.trans hs (h.note s n)⟩
  call := by
    rintro _ s _ ⟨rfl, hs⟩ frame
    refine ⟨{ s with env := s.env.push frame }, ⟨rfl, h.refl _⟩, ?_⟩
    rintro s' _ ⟨rfl, hs'⟩
    exact ⟨rfl, rfl, h.trans hs (h.call s frame s' hs')⟩

theorem final (h : Guarantee R) {m : Machine α} (hm : Simulated id (Twin R) m m) (s : State) :
    R s (m.final s) := by
  have run := hm s s s ⟨rfl, h.refl s⟩
  unfold Machine.final
  cases hs : m s with
  | ok a s' =>
    rw [hs] at run
    cases run with
    | ok _ state => exact state.2
  | error i s' =>
    rw [hs] at run
    cases run with
    | error _ state => exact state.2

theorem eval (h : Guarantee R) (fuel : Nat) (e : Expr) (s : State) :
    R s ((Machine.eval fuel e).final s) :=
  h.final (Machine.simulated_eval h.simulation Machine.bodywise_eq rfl fuel) s

theorem exec (h : Guarantee R) (fuel : Nat) (stmt : Stmt) (s : State) :
    R s ((Machine.exec fuel stmt).final s) :=
  h.final (Machine.simulated_exec h.simulation Machine.bodywise_eq (.refl (fun _ ↦ rfl) stmt) fuel)
    s

theorem execAll (h : Guarantee R) (fuel : Nat) (body : List Stmt) (s : State) :
    R s ((Machine.execAll (Machine.exec fuel) body).final s) :=
  h.final (Machine.simulated_execAll h.simulation Machine.bodywise_eq rfl fuel) s

theorem runProgram (h : Guarantee R) (fuel : Nat) (program : Program) (s : State) :
    R s ((Machine.runProgram fuel program).final s) := by
  refine h.final (Machine.simulated_runProgram h.simulation Machine.bodywise_eq ?_ fuel) s
  exact List.forall₂_same.mpr fun stmt _ ↦ Stmt.Alike.refl (fun _ ↦ rfl) stmt

theorem callProcedure (h : Guarantee R) (fuel : Nat) (name : String) (args : List Value)
    (s : State) :
    R s ((Machine.callProcedure fuel name args).final s) :=
  h.final (Machine.simulated_callProcedure h.simulation Machine.bodywise_eq fuel name args) s

theorem evalText (h : Guarantee R) (fuel : Nat) (text : String) (s : State) :
    R s ((Machine.evalText fuel text).final s) :=
  h.final (Machine.simulated_evalText h.simulation Machine.bodywise_eq fuel text) s

end Guarantee

end MiniBasic
