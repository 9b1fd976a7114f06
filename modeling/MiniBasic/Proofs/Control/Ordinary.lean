import MiniBasic.Machine.Execute

/-!
# Errors of actions on the heap

No action on the heap complains about an exit, so such an error can only come from an `Exit`.
-/

namespace MiniBasic

variable {α β : Type}

namespace RuntimeError

/-- The error is not about an exit. -/
def Ordinary (e : RuntimeError) : Prop :=
  ∀ t, e ≠ .unmatchedExit t

end RuntimeError

/-- An outcome that is a value or an ordinary error. -/
def OrdinaryExcept (x : Except RuntimeError α) : Prop :=
  ∀ e, x = .error e → e.Ordinary

namespace OrdinaryExcept

theorem ok (a : α) : OrdinaryExcept (.ok a) := by
  rintro _ ⟨⟩

theorem error {e : RuntimeError} (h : e.Ordinary) :
    OrdinaryExcept (.error e : Except RuntimeError α) := by
  rintro _ ⟨⟩
  exact h

theorem map {x : Except RuntimeError α} (h : OrdinaryExcept x) (f : α → β) :
    OrdinaryExcept (x.map f) := by
  cases x with
  | ok a => exact ok (f a)
  | error e => exact error (h e rfl)

theorem ite {b : Prop} [Decidable b] {x y : Except RuntimeError α} (hx : OrdinaryExcept x)
    (hy : OrdinaryExcept y) : OrdinaryExcept (if b then x else y) := by
  split
  · exact hx
  · exact hy

end OrdinaryExcept

namespace Heap

theorem ordinary_writeIndex (v : Value) : OrdinaryExcept (writeIndex v) := by
  unfold writeIndex
  split
  · exact .ite (.ok _) (.error nofun)
  · exact .error nofun

theorem ordinary_readPath (h : Heap) (name : String) (v : Value) (indices : List Value) :
    OrdinaryExcept (h.readPath name v indices) := by
  fun_induction readPath h name v indices with
  | case1 v => exact .ok v
  | case2 id index rest ih => exact ih
  | case3 id index rest ih => exact ih
  | case4 => exact .error nofun

theorem ordinary_onlyIndex (name : String) (indices : List Value) :
    OrdinaryExcept (onlyIndex name indices) := by
  unfold onlyIndex
  split
  · exact .ok _
  · exact .error nofun

theorem ordinary_read (h : Heap) (name : String) (container : Value) (indices : List Value) :
    OrdinaryExcept (h.read name container indices) := by
  unfold read
  split
  · exact ordinary_readPath h name _ indices
  · exact (ordinary_onlyIndex name indices).map _
  · exact (ordinary_onlyIndex name indices).map _
  · exact .error nofun

theorem ordinary_upperBound (h : Heap) (v : Value) (dimension : Float) :
    OrdinaryExcept (h.upperBound v dimension) := by
  unfold upperBound
  refine .ite ?_ (.error nofun)
  split
  · split
    · exact .ok _
    · exact .error nofun
  · exact .ok _

theorem ordinary_applyBinary (h : Heap) (op : BinaryOp) (a b : Value) :
    OrdinaryExcept (h.applyBinary op a b) := by
  cases op with
  | mod => exact .ite (.error nofun) (.ok _)
  | intDiv => exact .ite (.error nofun) (.ok _)
  | _ => exact .ok _

namespace Action

/-- The action has a result or an ordinary error. -/
def Ordinary (action : Action α) : Prop :=
  ∀ ⦃h : Heap⦄ ⦃e : RuntimeError⦄ ⦃h' : Heap⦄, action h = .error e h' → e.Ordinary

namespace Ordinary

theorem pure (a : α) : Ordinary (Pure.pure a) := by
  rintro _ _ _ ⟨⟩

theorem throw {e : RuntimeError} (h : e.Ordinary) : Ordinary (MonadExcept.throw e : Action α) := by
  rintro _ _ _ ⟨⟩
  exact h

theorem bind {m : Action α} {k : α → Action β} (hm : Ordinary m) (hk : ∀ a, Ordinary (k a)) :
    Ordinary (m >>= k) := by
  intro h e h' hr
  change EStateM.bind m k h = _ at hr
  unfold EStateM.bind at hr
  cases hs : m h with
  | ok a h₁ =>
    rw [hs] at hr
    exact hk a hr
  | error e₁ h₁ =>
    rw [hs] at hr
    cases hr
    exact hm hs

theorem map {m : Action α} (hm : Ordinary m) (f : α → β) : Ordinary (f <$> m) := by
  rw [← bind_pure_comp]
  exact hm.bind fun a ↦ .pure (f a)

theorem ite {b : Prop} [Decidable b] {m m' : Action α} (hm : Ordinary m) (hm' : Ordinary m') :
    Ordinary (if b then m else m') := by
  split
  · exact hm
  · exact hm'

theorem ofExcept {x : Except RuntimeError α} (hx : OrdinaryExcept x) :
    Ordinary (Action.ofExcept x) := by
  cases x with
  | ok a => exact pure a
  | error e => exact throw (hx e rfl)

/-- An action that always has a result. -/
theorem total {m : Action α} (hm : ∀ h, ∃ a h', m h = .ok a h') : Ordinary m := by
  intro h e h' hr
  obtain ⟨a, h₁, hs⟩ := hm h
  rw [hs] at hr
  cases hr

theorem get : Ordinary (MonadState.get : Action Heap) :=
  .total fun _ ↦ ⟨_, _, rfl⟩

end Ordinary

theorem ordinary_newArray (items : Array Value) : Ordinary (newArray items) :=
  .total fun _ ↦ ⟨_, _, rfl⟩

theorem ordinary_modifyDictionary (id : Nat) (f : Dictionary → Dictionary) :
    Ordinary (modifyDictionary id f) :=
  .total fun _ ↦ ⟨_, _, rfl⟩

theorem ordinary_modifyCollection (id : Nat) (f : Collection → Collection) :
    Ordinary (modifyCollection id f) :=
  .total fun _ ↦ ⟨_, _, rfl⟩

theorem ordinary_setElement (id i : Nat) (v : Value) : Ordinary (setElement id i v) :=
  .ite (.total fun _ ↦ ⟨_, _, rfl⟩) (.throw nofun)

theorem ordinary_checkArity (name : String) (expected : Nat) (args : List Value) :
    Ordinary (checkArity name expected args) :=
  .ite (.pure ()) (.throw nofun)

theorem ordinary_instantiate (typeName : String) : Ordinary (instantiate typeName) := by
  unfold instantiate
  split
  iterate 3 exact .total fun _ ↦ ⟨_, _, rfl⟩
  exact .throw nofun

theorem ordinary_repeated {action : Action Value} (h : Ordinary action) (n : Nat)
    (made : Array Value) :
    Ordinary (repeated action n made) := by
  induction n generalizing made with
  | zero => exact .pure made
  | succ n ih => exact h.bind fun v ↦ ih _

theorem ordinary_allocate (lengths : List Nat) : Ordinary (allocate lengths) := by
  fun_induction allocate lengths with
  | case1 => exact ordinary_newArray _
  | case2 n => exact ordinary_newArray _
  | case3 n rest _ ih => exact (ordinary_repeated ih n #[]).bind fun rows ↦ ordinary_newArray rows

theorem ordinary_writePath (v last : Value) (id : Nat) (path : List Value) :
    Ordinary (writePath v last id path) := by
  induction path generalizing id with
  | nil =>
    exact (Ordinary.ofExcept (ordinary_writeIndex last)).bind fun i ↦ ordinary_setElement id i v
  | cons index rest ih =>
    refine (Ordinary.ofExcept (ordinary_writeIndex index)).bind fun i ↦ Ordinary.get.bind fun h ↦ ?_
    split
    · exact ih _
    · refine (Ordinary.total fun _ ↦ ⟨_, _, rfl⟩).bind fun inner ↦ ?_
      exact (ordinary_setElement id i _).bind fun _ ↦ ih inner

theorem ordinary_write (name : String) (container : Value) (indices : List Value) (v : Value) :
    Ordinary (write name container indices v) := by
  unfold write
  split
  · split
    · exact ordinary_writePath v _ _ _
    · exact .throw nofun
  · refine (Ordinary.ofExcept (ordinary_onlyIndex name indices)).bind fun key ↦
      Ordinary.get.bind fun h ↦ ?_
    exact ordinary_modifyDictionary _ _
  · exact .throw nofun

theorem ordinary_single (f : Native) (args : List Value) : Ordinary (single f args) := by
  unfold single
  split
  · exact .pure _
  · exact .throw nofun

theorem ordinary_oneOrTwo (f : Native) (args : List Value) : Ordinary (oneOrTwo f args) := by
  unfold oneOrTwo
  split
  · exact .pure _
  · exact .pure _
  · exact .throw nofun

theorem ordinary_callNative (arrayBase : Nat) (f : Native) (args : List Value) :
    Ordinary (callNative arrayBase f args) := by
  have single := ordinary_single f args
  have text (g : List Char → List Char) (v : Value) : Ordinary (mapText g v) :=
    Ordinary.get.bind fun _ ↦ .pure _
  cases f with
  | uCase => exact single.bind (text _)
  | lCase => exact single.bind (text _)
  | trim => exact single.bind (text _)
  | cStr => exact single.bind (text _)
  | len => exact single.bind fun v ↦ Ordinary.get.bind fun h ↦ .pure _
  | uBound =>
    refine (ordinary_oneOrTwo _ args).bind fun (v, dimension) ↦ Ordinary.get.bind fun h ↦ ?_
    exact .ofExcept (ordinary_upperBound h v _)
  | createObject =>
    refine single.bind fun v ↦ Ordinary.get.bind fun h ↦ .ite ?_ (.throw nofun)
    exact .total fun _ ↦ ⟨_, _, rfl⟩
  | array => exact ordinary_newArray _
  | lBound => exact ((ordinary_oneOrTwo _ args).bind fun _ ↦ .pure _).bind fun _ ↦ .pure _
  | _ => exact single.bind fun v ↦ .pure _

theorem ordinary_callDictionary (id : Nat) (m : Dictionary.Method) (args : List Value) :
    Ordinary (callDictionary id m args) := by
  refine (ordinary_checkArity _ _ args).bind fun _ ↦ Ordinary.get.bind fun h ↦ ?_
  cases m with
  | add => exact (ordinary_modifyDictionary id _).bind fun _ ↦ .pure _
  | remove => exact (ordinary_modifyDictionary id _).bind fun _ ↦ .pure _
  | removeAll => exact (ordinary_modifyDictionary id _).bind fun _ ↦ .pure _
  | keys => exact ordinary_newArray _
  | items => exact ordinary_newArray _
  | _ => exact .pure _

theorem ordinary_callCollection (id : Nat) (m : Collection.Method) (args : List Value) :
    Ordinary (callCollection id m args) := by
  refine (ordinary_checkArity _ _ args).bind fun _ ↦ ?_
  cases m with
  | add => exact (ordinary_modifyCollection id _).bind fun _ ↦ .pure _
  | item => exact Ordinary.get.bind fun h ↦ .pure _
  | remove =>
    refine Ordinary.get.bind fun h ↦ ?_
    split
    · exact (ordinary_modifyCollection id _).bind fun _ ↦ .pure _
    · exact .throw nofun
  | count => exact Ordinary.get.bind fun h ↦ .pure _

theorem ordinary_callMethod? (object : Value) (member : String) (args : List Value) :
    Ordinary (callMethod? object member args) := by
  unfold callMethod?
  split
  · split
    · exact (ordinary_callDictionary _ _ args).map some
    · exact .pure none
  · split
    · exact (ordinary_callCollection _ _ args).map some
    · exact .pure none
  · exact .pure none

end Action

end Heap

namespace Machine

theorem ordinary_boundLength (upper : Float) : OrdinaryExcept (boundLength upper) := by
  unfold boundLength
  split
  · exact .ite (.ok _) (.error nofun)
  · exact .ok 0

theorem ordinary_allocate (lengths : List Nat) : (allocate lengths).Ordinary := by
  unfold allocate
  split
  · exact .ite (Heap.Action.ordinary_allocate lengths) (.throw nofun)
  · exact .throw nofun

end Machine

end MiniBasic
