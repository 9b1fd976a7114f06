/-!
# Two runs side by side

Parsers, heap actions and the machine are computations with a state and an error that keeps the
state. `Related I J R m m'` says of two of them: from states related by `I` they end in the same
way, with states related by `I` again, and with results related by `R` or errors related by `J`.
Relations of this kind pass through sequencing, so they are shown rule by rule. Of one run there is
said how it goes through the two parts of a sequence.
-/

namespace MiniBasic

variable {σ ε α β : Type}

/-- Two ends of a run are of the same kind, with related states and contents. -/
inductive Ended (I : σ → σ → Prop) (J : ε → ε → Prop) (R : α → α → Prop) :
    EStateM.Result ε σ α → EStateM.Result ε σ α → Prop
  | ok {a b : α} {s t : σ} (result : R a b) (state : I s t) : Ended I J R (.ok a s) (.ok b t)
  | error {d e : ε} {s t : σ} (error : J d e) (state : I s t) :
    Ended I J R (.error d s) (.error e t)

/-- From related states, two runs end in related ways. -/
def Related (I : σ → σ → Prop) (J : ε → ε → Prop) (R : α → α → Prop)
    (m m' : EStateM ε σ α) : Prop :=
  ∀ s t, I s t → Ended I J R (m s) (m' t)

namespace Related

variable {I : σ → σ → Prop} {J : ε → ε → Prop} {R : α → α → Prop} {S : β → β → Prop}

theorem pure {a b : α} (h : R a b) :
    Related I J R (Pure.pure a : EStateM ε σ α) (Pure.pure b) :=
  fun _ _ hs ↦ .ok h hs

theorem throw {d e : ε} (h : J d e) :
    Related I J R (MonadExcept.throw d : EStateM ε σ α) (MonadExcept.throw e) :=
  fun _ _ hs ↦ .error h hs

/-- Two runs that are related step by step are related. -/
theorem bind {m m' : EStateM ε σ α} {k k' : α → EStateM ε σ β} (hm : Related I J R m m')
    (hk : ∀ a b, R a b → Related I J S (k a) (k' b)) : Related I J S (m >>= k) (m' >>= k') := by
  intro s t hs
  change Ended I J S (EStateM.bind m k s) (EStateM.bind m' k' t)
  unfold EStateM.bind
  have h := hm s t hs
  generalize m s = x at h ⊢
  generalize m' t = y at h ⊢
  cases h with
  | ok result state => exact hk _ _ result _ _ state
  | error error state => exact .error error state

/-- A run that starts by looking at its state. -/
theorem get {k k' : σ → EStateM ε σ α} (h : ∀ s t, I s t → Ended I J R (k s s) (k' t t)) :
    Related I J R (MonadState.get >>= k) (MonadState.get >>= k') :=
  h

end Related

section Run

variable {m : EStateM ε σ α} {k : α → EStateM ε σ β} {s s' : σ}

theorem bind_ok {a : α} (h : m s = .ok a s') : (m >>= k) s = k a s' := by
  change EStateM.bind m k s = _
  rw [EStateM.bind, h]

theorem bind_error {e : ε} (h : m s = .error e s') : (m >>= k) s = .error e s' := by
  change EStateM.bind m k s = _
  rw [EStateM.bind, h]

/-- What succeeds as a whole succeeds in both parts. -/
theorem exists_of_bind_eq_ok {b : β} (h : (m >>= k) s = .ok b s') :
    ∃ a t, m s = .ok a t ∧ k a t = .ok b s' := by
  cases hm : m s with
  | ok a t =>
    rw [bind_ok hm] at h
    exact ⟨a, t, rfl, h⟩
  | error e t =>
    rw [bind_error hm] at h
    cases h

end Run

end MiniBasic
