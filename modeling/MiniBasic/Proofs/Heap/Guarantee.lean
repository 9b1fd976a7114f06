import MiniBasic.Machine.Execute
import MiniBasic.Proofs.Related

/-!
# What happens to the heap

The machine takes few kinds of actions on the heap, and these are made of still fewer single
changes: an object is made, an element is written, an entry is stored or taken out, an item is added
or removed. A relation between heaps that is reflexive and transitive, and that all single changes
keep, holds between the heap before and the heap after every action, whether it succeeds or fails.
-/

namespace MiniBasic.Heap

namespace Action

variable {α : Type}

/-- The heap after an action, whether it succeeds or fails. -/
def after (action : Action α) (h : Heap) : Heap :=
  match action h with
  | .ok _ h' => h'
  | .error _ h' => h'

/-- Actions that make no array longer than declarations and writing may make one. -/
inductive Modest : {α : Type} → Action α → Prop
  | outcome {α : Type} (x : Except RuntimeError α) : Modest (ofExcept x)
  | new (typeName : String) : Modest (instantiate typeName)
  | allocate (lengths : List Nat) (h : ∀ n ∈ lengths, n ≤ maxArrayLength) :
    Modest (Machine.allocate lengths)
  | fill (length : Nat) (h : length ≤ maxArrayLength) :
    Modest (newArray (Array.replicate length .empty))
  | write (name : String) (container : Value) (indices : List Value) (v : Value) :
    Modest (write name container indices v)

/-- The actions that the machine takes on the heap. -/
inductive Taken : {α : Type} → Action α → Prop
  | modest {α : Type} {action : Action α} (h : action.Modest) : Taken action
  | native (arrayBase : Nat) (f : Native) (args : List Value) : Taken (callNative arrayBase f args)
  | method (object : Value) (member : String) (args : List Value) :
    Taken (callMethod? object member args)

end Action

/-- What single changes have to keep, for a relation to hold between the heap before and after every
action. Where not all actions are asked for, `L` says how long the new arrays are. -/
structure Guarantee (R : Heap → Heap → Prop) (L : Nat → Prop := fun _ ↦ True) : Prop where
  refl (h : Heap) : R h h
  trans {h h' h'' : Heap} : R h h' → R h' h'' → R h h''
  newArray (h : Heap) (items : Array Value) (length : L items.size) :
    R h { h with arrays := h.arrays.push items }
  setElement (h : Heap) (id i : Nat) (v : Value) (hi : i < maxArrayLength) :
    R h { h with arrays := h.arrays.modify id (writeElement · i v) }
  newDictionary (h : Heap) : R h { h with dictionaries := h.dictionaries.push .empty }
  insert (h : Heap) (id : Nat) (key : String) (v : Value) :
    R h { h with dictionaries := h.dictionaries.modify id (·.insert key v) }
  erase (h : Heap) (id : Nat) (key : String) :
    R h { h with dictionaries := h.dictionaries.modify id (·.erase key) }
  clear (h : Heap) (id : Nat) :
    R h { h with dictionaries := h.dictionaries.modify id fun _ ↦ .empty }
  newCollection (h : Heap) : R h { h with collections := h.collections.push .empty }
  push (h : Heap) (id : Nat) (item : Value) :
    R h { h with collections := h.collections.modify id (·.push item) }
  remove (h : Heap) (id : Nat) (position : Float) (item : Value) (rest : Collection)
    (removed : (h.collection id).remove? position = some (item, rest)) :
    R h { h with collections := h.collections.modify id fun _ ↦ rest }

/-- The relation holds between the heap before and after an action. -/
def Ensures (R : Heap → Heap → Prop) {α : Type} (action : Action α) : Prop :=
  ∀ h, R h (action.after h)

namespace Guarantee

variable {R : Heap → Heap → Prop} {L : Nat → Prop} (g : Guarantee R L) {α β : Type}

include g

theorem pure (a : α) : Ensures R (Pure.pure a : Action α) :=
  g.refl

theorem throw (e : RuntimeError) : Ensures R (MonadExcept.throw e : Action α) :=
  g.refl

theorem bind_of_ok {m : Action α} {k : α → Action β} (hm : Ensures R m)
    (hk : ∀ {h a h'}, m h = .ok a h' → R h' ((k a).after h')) : Ensures R (m >>= k) := by
  intro h
  have first := hm h
  change R h (Action.after (EStateM.bind m k) h)
  unfold Action.after EStateM.bind at *
  cases hr : m h with
  | ok a h' =>
    rw [hr] at first
    exact g.trans first (hk hr)
  | error e h' =>
    rw [hr] at first
    exact first

theorem bind {m : Action α} {k : α → Action β} (hm : Ensures R m) (hk : ∀ a, Ensures R (k a)) :
    Ensures R (m >>= k) :=
  g.bind_of_ok hm fun _ ↦ hk _ _

omit g in
/-- An action that starts by looking at the heap. -/
theorem get {k : Heap → Action α} (hk : ∀ h, R h ((k h).after h)) :
    Ensures R (MonadState.get >>= k) :=
  hk

theorem map {m : Action α} (hm : Ensures R m) (f : α → β) : Ensures R (f <$> m) := by
  rw [← bind_pure_comp]
  exact g.bind hm fun a ↦ g.pure (f a)

omit g in
theorem ite {b : Prop} [Decidable b] {m m' : Action α} (hm : Ensures R m) (hm' : Ensures R m') :
    Ensures R (if b then m else m') := by
  split
  · exact hm
  · exact hm'

/-! ## Arrays -/

theorem ofExcept (x : Except RuntimeError α) : Ensures R (Action.ofExcept x) := by
  cases x with
  | ok a => exact g.pure a
  | error e => exact g.throw e

theorem allocArray (items : Array Value) (length : L items.size) :
    Ensures R (Action.allocArray items) :=
  fun h ↦ g.newArray h items length

theorem ensures_newArray (items : Array Value) (length : L items.size) :
    Ensures R (Action.newArray items) :=
  g.bind (g.allocArray items length) fun id ↦ g.pure (Value.array id)

theorem ensures_setElement (id i : Nat) (v : Value) : Ensures R (Action.setElement id i v) := by
  unfold Action.setElement
  split
  next hi => exact fun h ↦ g.setElement h id i v hi
  next => exact g.throw _

theorem repeated {action : Action Value} (h : Ensures R action) (n : Nat) (made : Array Value) :
    Ensures R (Action.repeated action n made) := by
  induction n generalizing made with
  | zero => exact g.pure made
  | succ n ih => exact g.bind h fun v ↦ ih (made.push v)

omit g in
theorem size_repeated {action : Action Value} {n : Nat} {made rows : Array Value} {h h' : Heap}
    (run : Action.repeated action n made h = .ok rows h') : rows.size = made.size + n := by
  induction n generalizing made h with
  | zero =>
    cases run
    rfl
  | succ n ih =>
    obtain ⟨v, h₁, -, rest⟩ := exists_of_bind_eq_ok run
    rw [ih rest, Array.size_push, Nat.add_right_comm, Nat.add_assoc]

section Modest

variable (small : ∀ n ≤ maxArrayLength, L n)

include small

theorem allocate {lengths : List Nat} (h : ∀ n ∈ lengths, n ≤ maxArrayLength) :
    Ensures R (Action.allocate lengths) := by
  induction lengths with
  | nil => exact g.ensures_newArray #[] (small 0 (Nat.zero_le _))
  | cons n rest ih =>
    obtain ⟨first, others⟩ := List.forall_mem_cons.mp h
    cases rest with
    | nil =>
      apply g.ensures_newArray
      rw [Array.size_replicate]
      exact small n first
    | cons _ _ =>
      refine g.bind_of_ok (g.repeated (ih others) n #[]) fun {h rows h'} run ↦
        g.ensures_newArray rows ?_ h'
      rw [size_repeated run, Array.size_empty, Nat.zero_add]
      exact small n first

theorem writePath (v last : Value) (id : Nat) (path : List Value) :
    Ensures R (Action.writePath v last id path) := by
  induction path generalizing id with
  | nil => exact g.bind (g.ofExcept _) fun i ↦ g.ensures_setElement id i v
  | cons index rest ih =>
    refine g.bind (g.ofExcept _) fun i ↦ get fun h ↦ ?_
    split
    next inner _ => exact ih inner h
    next =>
      refine g.bind (g.allocArray #[] (small 0 (Nat.zero_le _))) (fun inner ↦ ?_) h
      exact g.bind (g.ensures_setElement id i _) fun _ ↦ ih inner

theorem write (name : String) (container : Value) (indices : List Value) (v : Value) :
    Ensures R (Action.write name container indices v) := by
  unfold Action.write
  split
  · split
    · exact g.writePath small v _ _ _
    · exact g.throw _
  · refine g.bind (g.ofExcept _) fun key ↦ get fun h ↦ ?_
    exact g.insert h _ _ v
  · exact g.throw _

end Modest

/-! ## Objects -/

theorem instantiate (typeName : String) : Ensures R (Action.instantiate typeName) := by
  unfold Action.instantiate
  split
  · exact g.newCollection
  · exact g.newDictionary
  · exact g.newDictionary
  · exact g.throw _

theorem checkArity (name : String) (expected : Nat) (args : List Value) :
    Ensures R (Action.checkArity name expected args) :=
  ite (g.pure _) (g.throw _)

theorem callDictionary (id : Nat) {m : Dictionary.Method}
    (lengths : m = .keys ∨ m = .items → ∀ n, L n) (args : List Value) :
    Ensures R (Action.callDictionary id m args) := by
  refine g.bind (g.checkArity _ _ args) fun _ ↦ get fun h ↦ ?_
  cases m with
  | add => exact g.insert h id _ _
  | contains => exact g.refl h
  | item => exact g.refl h
  | remove => exact g.erase h id _
  | removeAll => exact g.clear h id
  | keys => exact g.ensures_newArray _ (lengths (.inl rfl) _) h
  | items => exact g.ensures_newArray _ (lengths (.inr rfl) _) h
  | count => exact g.refl h

theorem removeItem (id : Nat) (position : Float) : Ensures R (Action.removeItem id position) := by
  refine get fun h ↦ ?_
  split
  next item rest removed => exact g.remove h id position item rest removed
  next => exact g.refl h

theorem callCollection (id : Nat) (m : Collection.Method) (args : List Value) :
    Ensures R (Action.callCollection id m args) := by
  refine g.bind (g.checkArity _ _ args) fun _ ↦ ?_
  cases m with
  | add => exact fun h ↦ g.push h id _
  | item => exact get fun h ↦ g.refl h
  | remove => exact g.removeItem id _
  | count => exact get fun h ↦ g.refl h

theorem callMethod? {object : Value} {member : String}
    (lengths : ∀ id m, object = .dictionary id → Dictionary.Method.ofName? member = some m →
      m = .keys ∨ m = .items → ∀ n, L n)
    (args : List Value) : Ensures R (Action.callMethod? object member args) := by
  unfold Action.callMethod?
  split
  · split
    next id m hm => exact g.map (g.callDictionary _ (lengths _ _ rfl hm) args) some
    next => exact g.pure none
  · split
    · exact g.map (g.callCollection _ _ args) some
    · exact g.pure none
  · exact g.pure none

/-! ## Built-in functions -/

theorem single (f : Native) (args : List Value) : Ensures R (Action.single f args) := by
  unfold Action.single
  split
  · exact g.pure _
  · exact g.throw _

theorem oneOrTwo (f : Native) (args : List Value) : Ensures R (Action.oneOrTwo f args) := by
  unfold Action.oneOrTwo
  split
  · exact g.pure _
  · exact g.pure _
  · exact g.throw _

theorem callNative (arrayBase : Nat) {f : Native} (lengths : f = .array → ∀ n, L n)
    (args : List Value) :
    Ensures R (Action.callNative arrayBase f args) := by
  have single {k : Value → Action Value} (hk : ∀ v, Ensures R (k v)) :
      Ensures R (Action.single f args >>= k) :=
    g.bind (g.single f args) hk
  have texts (t : List Char → List Char) (v : Value) : Ensures R (Action.mapText t v) :=
    get fun h ↦ g.refl h
  cases f with
  | isEmpty => exact single fun v ↦ g.pure _
  | isNumeric => exact single fun v ↦ g.pure _
  | cDbl => exact single fun v ↦ g.pure _
  | cLng => exact single fun v ↦ g.pure _
  | int => exact single fun v ↦ g.pure _
  | uCase => exact single (texts _)
  | lCase => exact single (texts _)
  | trim => exact single (texts _)
  | len => exact single fun v ↦ get fun h ↦ g.refl h
  | cStr => exact single (texts _)
  | uBound => exact g.bind (g.oneOrTwo _ args) fun v ↦ get fun h ↦ g.ofExcept _ h
  | createObject =>
    refine single fun v ↦ get fun h ↦ ?_
    exact ite (fun h ↦ g.newDictionary h) (g.throw _) h
  | array => exact g.ensures_newArray _ (lengths rfl _)
  | lBound => exact g.bind (g.map (g.oneOrTwo _ args) _) fun _ ↦ g.pure _

theorem modest (small : ∀ n ≤ maxArrayLength, L n) {action : Action α} (h : action.Modest) :
    Ensures R action := by
  cases h with
  | outcome x => exact g.ofExcept x
  | new typeName => exact g.instantiate typeName
  | allocate lengths h =>
    unfold Machine.allocate
    split
    · exact ite (g.allocate small h) (g.throw _)
    · exact g.throw _
  | fill length h =>
    apply g.ensures_newArray
    rw [Array.size_replicate]
    exact small length h
  | write name container indices v => exact g.write small name container indices v

omit g in
/-- Every action that the machine takes ensures what single changes keep. -/
theorem taken (g : Guarantee R) {action : Action α} (h : action.Taken) : Ensures R action := by
  cases h with
  | modest h => exact g.modest (fun _ _ ↦ trivial) h
  | native arrayBase f args => exact g.callNative arrayBase (fun _ _ ↦ trivial) args
  | method object member args => exact g.callMethod? (fun _ _ _ _ _ _ ↦ trivial) args

end Guarantee

end MiniBasic.Heap
