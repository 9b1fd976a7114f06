import MiniBasic.Proofs.Control.Change

/-!
# How long arrays get

Declarations and writing make no array longer than `maxArrayLength`. Longer arrays are made in one
piece: by a host, by the built-in function `Array`, or of the keys or items of a dictionary, and
these keep the length that they were made with. A list of what was made in this way is carried along
a run, from the host's first step on.

An index that a write cannot use is refused before anything is written with it, so the limit that
`setElement` has of its own is never met.
-/

namespace MiniBasic

namespace Heap

variable {made made' : Nat → Nat → Prop} {h h' h'' : Heap}

/-! ## Lengths -/

/-- Each array keeps its length, unless it is within the limit in `h`, and then in `h'` it is within
the limit too or has been `made` as long as it is. An array that `h` does not have has no elements
there. -/
def Extends (made : Nat → Nat → Prop) (h h' : Heap) : Prop :=
  ∀ id, (h'.array id).size = (h.array id).size ∨
    (h.array id).size ≤ maxArrayLength ∧
      ((h'.array id).size ≤ maxArrayLength ∨ made id (h'.array id).size)

namespace Extends

theorem of_arrays (same : h'.arrays = h.arrays) : Extends made h h' := by
  intro id
  left
  rw [array, array, same]

theorem mono (e : Extends made h h') (sub : ∀ id n, made id n → made' id n) :
    Extends made' h h' := by
  intro id
  rcases e id with same | ⟨before, after⟩
  · exact .inl same
  · exact .inr ⟨before, after.imp_right (sub id _)⟩

theorem trans (e : Extends made h h') (e' : Extends made h' h'') : Extends made h h'' := by
  intro id
  rcases e' id with same | ⟨between, after⟩
  · rw [same]
    exact e id
  · rcases e id with same | ⟨before, -⟩
    · rw [same] at between
      exact .inr ⟨between, after⟩
    · exact .inr ⟨before, after⟩

/-- Beyond the limit, lengths do not change. -/
theorem size_eq (e : Extends made h h') {id : Nat} (long : maxArrayLength < (h.array id).size) :
    (h'.array id).size = (h.array id).size := by
  rcases e id with same | ⟨before, -⟩
  · exact same
  · exact absurd before (Nat.not_le_of_lt long)

/-- A new array gets the next number. -/
theorem push {items : Array Value}
    (length : items.size ≤ maxArrayLength ∨ made h.arrays.size items.size) :
    Extends made h { h with arrays := h.arrays.push items } := by
  intro id
  simp only [array, Array.getD_eq_getD_getElem?, Array.getElem?_push]
  split
  next last =>
    subst last
    rw [Array.getElem?_size]
    exact .inr ⟨Nat.zero_le _, length⟩
  next => exact .inl rfl

theorem setElement (h : Heap) (id i : Nat) (v : Value) (hi : i < maxArrayLength) :
    Extends made h { h with arrays := h.arrays.modify id (writeElement · i v) } := by
  intro other
  simp only [array, Array.getD_eq_getD_getElem?, Array.getElem?_modify]
  split
  next same =>
    subst same
    cases h.arrays[id]? with
    | none => exact .inl rfl
    | some items =>
      change (writeElement items i v).size = items.size ∨
        items.size ≤ _ ∧ ((writeElement items i v).size ≤ _ ∨ _)
      rw [size_writeElement]
      rcases Nat.le_total items.size (i + 1) with shorter | longer
      · rw [Nat.max_eq_right shorter]
        exact .inr ⟨Nat.le_trans shorter hi, .inl hi⟩
      · rw [Nat.max_eq_left longer]
        exact .inl rfl
  next => exact .inl rfl

end Extends

theorem guarantee_extends (made : Nat → Nat → Prop) :
    Guarantee (Extends made) (· ≤ maxArrayLength) where
  refl _ := .of_arrays rfl
  trans := .trans
  newArray _ _ length := .push (.inl length)
  setElement := .setElement
  newDictionary _ := .of_arrays rfl
  insert _ _ _ _ := .of_arrays rfl
  erase _ _ _ := .of_arrays rfl
  clear _ _ := .of_arrays rfl
  newCollection _ := .of_arrays rfl
  push _ _ _ := .of_arrays rfl
  remove _ _ _ _ _ _ := .of_arrays rfl

theorem lt_size_of_array_size_pos {id : Nat} (nonempty : 0 < (h.array id).size) :
    id < h.arrays.size := by
  by_contra absent
  rw [array, Array.getD, dif_neg absent] at nonempty
  exact Nat.lt_irrefl 0 nonempty

/-- The keys or items of a dictionary go into a new array. -/
theorem after_listed {m : Dictionary.Method} {member : String}
    (hm : Dictionary.Method.ofName? member = some m) (lists : m = .keys ∨ m = .items) (id : Nat)
    (h : Heap) :
    ∃ items : Array Value, items.size = (h.dictionary id).size ∧
      (Action.callMethod? (.dictionary id) member []).after h =
        { h with arrays := h.arrays.push items } := by
  simp only [Action.callMethod?, hm]
  rcases lists with rfl | rfl
  · refine ⟨((h.dictionary id).keys.map Value.text).toArray, ?_, rfl⟩
    simp [Dictionary.keys, Dictionary.size]
  · refine ⟨(h.dictionary id).values.toArray, ?_, rfl⟩
    simp [Dictionary.values, Dictionary.size]

/-- Methods make long arrays of the keys and items of dictionaries only. -/
theorem extends_callMethod? (object : Value) (member : String) (args : List Value) (h : Heap)
    (listed : ∀ id m, object = .dictionary id → Dictionary.Method.ofName? member = some m →
      m = .keys ∨ m = .items → args = [] → made h.arrays.size (h.dictionary id).size) :
    Extends made h ((Action.callMethod? object member args).after h) := by
  by_cases lists : ∃ id m, object = .dictionary id ∧ Dictionary.Method.ofName? member = some m ∧
    (m = .keys ∨ m = .items)
  case neg =>
    have unlisted := (guarantee_extends made).callMethod? fun id m ho hm hl ↦
        absurd ⟨id, m, ho, hm, hl⟩ lists
    exact unlisted args h
  obtain ⟨id, m, rfl, hm, lists⟩ := lists
  cases args with
  | nil =>
    obtain ⟨items, length, after⟩ := after_listed hm lists id h
    rw [after]
    apply Extends.push
    rw [length]
    exact .inr (listed id m rfl hm lists rfl)
  | cons a args =>
    -- the list of arguments is too long, so nothing is made
    simp only [Action.callMethod?, hm]
    rcases lists with rfl | rfl
    · exact .of_arrays rfl
    · exact .of_arrays rfl

end Heap

/-- Leaving a construct does not touch the heap. -/
theorem State.Unwound.heap {s s' : State} (h : s.Unwound s') : s'.heap = s.heap := by
  induction h with
  | refl => rfl
  | pop _ ih => exact ih
  | assign _ n v ih => exact ih

namespace Control

/-! ## Single steps -/

/-- The next step makes an array with a length of its own, as its array number `id` with `n`
elements. -/
inductive Config.Creates : Config → (id n : Nat) → Prop
  | array (arrayBase : Nat) (args : List Value) (stack : Stack) (s : State) :
    Creates (.running (.onHeap (Heap.Action.callNative arrayBase .array args) .value) stack s)
      s.heap.arrays.size args.length
  | listed {m : Dictionary.Method} {member : String}
    (hm : Dictionary.Method.ofName? member = some m) (lists : m = .keys ∨ m = .items) (id : Nat)
    (next : Option Value → Code) (stack : Stack) (s : State) :
    Creates (.running (.onHeap (Heap.Action.callMethod? (.dictionary id) member []) next) stack s)
      s.heap.arrays.size (s.heap.dictionary id).size

/-- What is made has the length that it is said to have. -/
theorem Config.Creates.size_eq {c : Config} {id n : Nat} (h : c.Creates id n) :
    (c.step.state.heap.array id).size = n := by
  have pushed (heap : Heap) (items : Array Value) :
      ({ heap with arrays := heap.arrays.push items }.array heap.arrays.size).size =
        items.size := by
    simp [Heap.array]
  cases h with
  | array arrayBase args stack s => exact (pushed s.heap args.toArray).trans List.size_toArray
  | @listed m member hm lists id next stack s =>
    obtain ⟨items, length, after⟩ := Heap.after_listed hm lists id s.heap
    have made := Code.onHeap_change next
      (rfl : Code.onHeap (Heap.Action.callMethod? (.dictionary id) member []) next = _) s
    rw [Code.onHeap, Config.step, Config.state, made, after, pushed, length]

variable {D : Procedure → Prop}

theorem Code.Single.extends {next : State → Code} {change : State → State}
    (h : Single D (act next change)) (stack : Stack) (s : State) :
    s.heap.Extends (Config.Creates (.running (act next change) stack s)) (change s).heap := by
  have onHeap {α : Type} {action : Heap.Action α} {made : Nat → Nat → Prop}
      (extended : s.heap.Extends made (action.after s.heap)) (next : α → Code)
      {after : State → Code} {change : State → State}
      (same : Code.onHeap action next = act after change) :
      s.heap.Extends made (change s).heap := by
    rwa [onHeap_change next same]
  have guarantee := Heap.guarantee_extends (Config.Creates (.running (act next change) stack s))
  cases h with
  | heap modest next => exact onHeap (guarantee.modest (fun _ ↦ id) modest s.heap) next rfl
  | native arrayBase f args =>
    by_cases array : f = .array
    · subst array
      exact .push (.inr (.array arrayBase args stack s))
    · exact onHeap (guarantee.callNative arrayBase (fun h ↦ absurd h array) args s.heap) value rfl
  | method object member args next =>
    refine onHeap (Heap.extends_callMethod? object member args s.heap ?_) next rfl
    rintro id m rfl hm lists rfl
    exact .listed hm lists id next stack s
  | note n next => exact .of_arrays (congrArg Heap.arrays (s.noted_heap n))
  | _ => exact .of_arrays rfl

namespace Config

theorem Within.extends {c : Config} (h : c.Within D) :
    c.state.heap.Extends c.Creates c.step.state.heap := by
  have unwound {s s' : State} {made : Nat → Nat → Prop} (h : s.Unwound s') :
      s.heap.Extends made s'.heap :=
    .of_arrays (congrArg Heap.arrays h.heap)
  cases c with
  | halted outcome s => exact .of_arrays rfl
  | running code stack s =>
    obtain ⟨hcode, hstack, hs⟩ := h
    cases code with
    | act next change => exact hcode.1.extends stack s
    | fail e =>
      obtain ⟨s', halted, left⟩ := abort_unwound e stack (.refl (s := s))
      rw [Config.step, halted]
      exact unwound left
    | exit t => exact unwound (unwind_within t hstack hs .refl).2
    | value v =>
      cases stack with
      | nil => exact .of_arrays rfl
      | cons waiting stack => cases waiting <;> exact .of_arrays rfl
    | exec body next => cases body <;> exact .of_arrays rfl
    | eval e next => exact .of_arrays rfl
    | inside c => exact .of_arrays rfl

theorem Within.extends_iterate {c : Config} (h : c.Within D) (n : Nat) :
    c.state.heap.Extends (fun id m ↦ ∃ k < n, (Config.step^[k] c).Creates id m)
      (Config.step^[n] c).state.heap := by
  induction n with
  | zero => exact .of_arrays rfl
  | succ n ih =>
    have last := (h.iterate n).extends
    rw [Function.iterate_succ_apply']
    apply (ih.mono _).trans (last.mono _)
    · rintro id m ⟨k, hk, creates⟩
      exact ⟨k, Nat.lt_succ_of_lt hk, creates⟩
    · intro id m creates
      exact ⟨n, Nat.lt_succ_self n, creates⟩

/-- What is made longer than the limit stays as it is. -/
theorem Within.size_eq_of_creates {c : Config} (h : c.Within D) {k n id m : Nat} (hk : k < n)
    (creates : (Config.step^[k] c).Creates id m) (long : maxArrayLength < m) :
    ((Config.step^[n] c).state.heap.array id).size = m := by
  have first : ((Config.step^[k + 1] c).state.heap.array id).size = m := by
    rw [Function.iterate_succ_apply']
    exact creates.size_eq
  have later := (h.iterate (k + 1)).extends_iterate (n - (k + 1))
  rw [← Function.iterate_add_apply, Nat.sub_add_cancel hk] at later
  rw [later.size_eq (Nat.lt_of_lt_of_eq long first.symm)]
  exact first

end Config

theorem Execution.extends (x : Execution) (s : State) (n : Nat) :
    s.heap.Extends (fun id m ↦ ∃ k < n, (x.moment s k).Creates id m) (x.moment s n).state.heap :=
  Config.Within.extends_iterate (x.within s) n

/-! ## Runs -/

/-- The states that a host comes to, at every moment of what it executes. With them goes a list of
the arrays that were `made` with a length of their own: by the host, which does not change the
length of an array later, or by the execution. -/
inductive Reachable : (made : Nat → Nat → Prop) → State → Prop
  | initial : Reachable (fun _ _ ↦ False) .initial
  | host {made : Nat → Nat → Prop} {s : State} (h : Reachable made s) (s' : State)
    (more : s.heap.arrays.size ≤ s'.heap.arrays.size)
    (kept : ∀ id < s.heap.arrays.size, (s'.heap.array id).size = (s.heap.array id).size) :
    Reachable (fun id n ↦ made id n ∨ s.heap.arrays.size ≤ id ∧ n = (s'.heap.array id).size) s'
  | moment {made : Nat → Nat → Prop} {s : State} (h : Reachable made s) (x : Execution) (n : Nat) :
    Reachable (fun id m ↦ made id m ∨ ∃ k < n, (x.moment s k).Creates id m) (x.moment s n).state

namespace Reachable

variable {made : Nat → Nat → Prop} {s : State}

theorem bounded (h : Reachable made s) (id : Nat) :
    (s.heap.array id).size ≤ maxArrayLength ∨ made id (s.heap.array id).size := by
  induction h with
  | initial => exact .inl (Nat.zero_le _)
  | @host made s h s' more kept ih =>
    rcases Nat.lt_or_ge id s.heap.arrays.size with old | new
    · rw [kept id old]
      exact ih.imp_right .inl
    · exact .inr (.inr ⟨new, rfl⟩)
  | @moment made s h x n ih =>
    rcases x.extends s n id with same | ⟨-, after⟩
    · rw [same]
      exact ih.imp_right .inl
    · exact after.imp_right .inr

theorem size_eq (h : Reachable made s) {id n : Nat} (hn : made id n) (long : maxArrayLength < n) :
    (s.heap.array id).size = n := by
  induction h with
  | initial => exact hn.elim
  | @host made s h s' more kept ih =>
    rcases hn with old | ⟨-, rfl⟩
    · have before := ih old
      have present : id < s.heap.arrays.size := by
        apply Heap.lt_size_of_array_size_pos
        rw [before]
        exact Nat.zero_lt_of_lt long
      rw [kept id present]
      exact before
    · rfl
  | @moment made s h x k ih =>
    rcases hn with old | ⟨j, hj, creates⟩
    · have before := ih old
      rw [← before]
      exact (x.extends s k).size_eq (Nat.lt_of_lt_of_eq long before.symm)
    · exact Config.Within.size_eq_of_creates (x.within s) hj creates long

end Reachable

end Control

namespace Heap

/-! ## Writing -/

/-- The index cannot be written with. -/
def refused (index : Value) : Bool :=
  (writeIndex index).toOption.isNone

theorem writeIndex_cases (index : Value) :
    (refused index = false ∧ ∃ i < maxArrayLength, writeIndex index = .ok i) ∨
      refused index = true ∧ writeIndex index = .error (.indexOutOfRange index.toNumber) := by
  unfold refused writeIndex
  cases readIndex index with
  | none => exact .inr ⟨rfl, rfl⟩
  | some i =>
    dsimp only
    by_cases small : i < maxArrayLength
    · rw [if_pos small]
      exact .inl ⟨rfl, i, small, rfl⟩
    · rw [if_neg small]
      exact .inr ⟨rfl, rfl⟩

namespace Action

variable {α β : Type}

/-- The error that an action fails with, if it fails. -/
def error? (action : Action α) (h : Heap) : Option RuntimeError :=
  match action h with
  | .ok _ _ => none
  | .error e _ => some e

theorem error?_bind {m : Action α} {a : α} {h h' : Heap} (run : m h = .ok a h') (k : α → Action β) :
    (m >>= k).error? h = (k a).error? h' := by
  rw [error?, error?, bind_ok run]

/-- A write along a path fails at the first index that is refused, if there is one. -/
theorem error?_writePath (v last : Value) (path : List Value) (id : Nat) (h : Heap) :
    (writePath v last id path).error? h =
      ((path ++ [last]).find? refused).map fun index ↦ .indexOutOfRange index.toNumber := by
  have stored (id : Nat) {i : Nat} (small : i < maxArrayLength) (v : Value) (h : Heap) :
      ∃ h', setElement id i v h = .ok () h' := by
    rw [setElement, if_pos small]
    exact ⟨_, rfl⟩
  induction path generalizing id h with
  | nil =>
    rw [writePath, List.nil_append, List.find?_singleton]
    rcases writeIndex_cases last with ⟨accepted, i, small, hi⟩ | ⟨refused, hi⟩
    · obtain ⟨h', stored⟩ := stored id small v h
      rw [hi, accepted, error?_bind (rfl : ofExcept (.ok i) h = .ok i h), error?, stored]
      rfl
    · rw [hi, refused]
      rfl
  | cons index rest ih =>
    rw [writePath, List.cons_append, List.find?_cons]
    rcases writeIndex_cases index with ⟨accepted, i, small, hi⟩ | ⟨refused, hi⟩
    · rw [hi, accepted, error?_bind (rfl : ofExcept (.ok i) h = .ok i h),
        error?_bind (rfl : (get : Action Heap) h = .ok h h)]
      split
      next inner _ => exact ih inner h
      next =>
        obtain ⟨h', stored⟩ := stored id small (.array h.arrays.size)
            { h with arrays := h.arrays.push #[] }
        rw [error?_bind
          (rfl : allocArray #[] h = .ok h.arrays.size { h with arrays := h.arrays.push #[] }),
          error?_bind stored]
        exact ih _ h'
    · rw [hi, refused]
      rfl

/-- A write fails for its indices only if it is a write into an array, and then at the first index
that is refused. -/
theorem error?_write_eq_indexOutOfRange {name : String} {container : Value} {indices : List Value}
    {v : Value} {h : Heap} {x : Float} :
    (write name container indices v).error? h = some (.indexOutOfRange x) ↔
      ∃ id index, container = .array id ∧ indices.find? refused = some index ∧
      index.toNumber = x := by
  constructor
  · intro failed
    unfold write at failed
    split at failed
    next id =>
      split at failed
      next last hlast =>
        rw [error?_writePath, List.dropLast_append_getLast? _ hlast] at failed
        obtain ⟨index, found, same⟩ := Option.map_eq_some_iff.mp failed
        cases same
        exact ⟨id, index, rfl, found, rfl⟩
      next => cases failed
    next id =>
      unfold onlyIndex at failed
      split at failed
      · cases failed
      · cases failed
    next => cases failed
  · rintro ⟨id, index, rfl, found, rfl⟩
    unfold write
    dsimp only
    cases hlast : indices.getLast? with
    | none =>
      rw [List.getLast?_eq_none_iff.mp hlast] at found
      cases found
    | some last =>
      dsimp only
      rw [error?_writePath, List.dropLast_append_getLast? _ hlast, found]
      rfl

/-- Writing along a path, with `set` to write single elements. -/
def writePathVia (set : Nat → Nat → Value → Action Unit) (value last : Value) :
    Nat → List Value → Action Unit
  | id, [] => do
    let i ← ofExcept (writeIndex last)
    set id i value
  | id, index :: rest => do
    let i ← ofExcept (writeIndex index)
    match (← get).element? id i with
    | some (.array inner) => writePathVia set value last inner rest
    | _ =>
      let inner ← allocArray #[]
      set id i (.array inner)
      writePathVia set value last inner rest

/-- What `set` does beyond the limit does not count. -/
theorem writePathVia_eq {set : Nat → Nat → Value → Action Unit}
    (within : ∀ id i v, i < maxArrayLength → set id i v = setElement id i v) (v last : Value)
    (id : Nat) (path : List Value) :
    writePathVia set v last id path = writePath v last id path := by
  induction path generalizing id with
  | nil =>
    rw [writePathVia, writePath]
    rcases writeIndex_cases last with ⟨-, i, small, hi⟩ | ⟨-, hi⟩
    · rw [hi]
      exact within id i v small
    · rw [hi]
      rfl
  | cons index rest ih =>
    rw [writePathVia, writePath]
    rcases writeIndex_cases index with ⟨-, i, small, hi⟩ | ⟨-, hi⟩
    · have inserted : (do
          let inner ← allocArray #[]
          set id i (.array inner)
          writePathVia set v last inner rest) = (do
          let inner ← allocArray #[]
          setElement id i (.array inner)
          writePath v last inner rest) := by
        apply bind_congr
        intro inner
        rw [within id i _ small, ih]
      rw [hi, ofExcept, pure_bind, pure_bind]
      apply bind_congr
      intro h
      cases h.element? id i with
      | none => exact inserted
      | some element =>
        cases element with
        | array inner => exact ih inner
        | _ => exact inserted
    · rw [hi]
      rfl

end Action

end Heap

namespace Control

/-- No program makes an array grow past the limit. At every moment that a host can come to, an array
has at most `maxArrayLength` elements or as many as it was made with in one piece; if it was made
with more than the limit, then it still has as many. What an execution leaves behind is the state of
such a moment. A write that fails for an index fails at the first one that is refused, with the
number that was given; what `setElement` does beyond the limit plays no part in writing. -/
theorem arrays_within_limit :
    maxArrayLength = Nat.pow 2 24 ∧
      (∀ made s, Reachable made s → ∀ id,
        ((s.heap.array id).size ≤ maxArrayLength ∨ made id (s.heap.array id).size) ∧
          ∀ n, made id n → maxArrayLength < n → (s.heap.array id).size = n) ∧
      (∀ x : Execution, ∀ fuel s, Settles fuel (x.moment s 0) [] (x.machine fuel s)) ∧
      (∀ name container indices v h x,
        (Heap.Action.write name container indices v).error? h = some (.indexOutOfRange x) ↔
          ∃ id index, container = .array id ∧ indices.find? Heap.refused = some index ∧
          index.toNumber = x) ∧
      ∀ set, (∀ id i v, i < maxArrayLength → set id i v = Heap.Action.setElement id i v) →
        ∀ v last id path,
          Heap.Action.writePathVia set v last id path = Heap.Action.writePath v last id path := by
  refine ⟨rfl, ?_, ?_, ?_, ?_⟩
  · intro made s reachable id
    refine ⟨reachable.bounded id, ?_⟩
    intro n hn long
    exact reachable.size_eq hn long
  · intro x fuel s
    exact x.settles fuel s
  · intro name container indices v h x
    exact Heap.Action.error?_write_eq_indexOutOfRange
  · intro set within v last id path
    exact Heap.Action.writePathVia_eq within v last id path

/-- An array that a host made with one element too many keeps its length while a program writes into
it. Half an index below the limit is nearest to the limit itself, so it is refused. -/
theorem arrays_within_limit_half :
    let long := Array.replicate (maxArrayLength + 1) Value.empty
    let s := { State.initial with
      env := State.initial.env.assign "a" (.array 0), heap :=
        { Heap.empty with arrays := #[long] } }
    let x : Execution := .statement (.assign (.call (.name "a") [.text "1"]) (.text "one"))
    ((x.moment s 20).state.heap.array 0).size = maxArrayLength + 1 ∧
      (Heap.Action.write "a" (.array 0) [.number 0, .number 16777215.5] .empty).error? s.heap =
        some (.indexOutOfRange 16777215.5) := by
  intro long s x
  have size : (s.heap.array 0).size = maxArrayLength + 1 := Array.size_replicate
  have reachable : Reachable _ (x.moment s 20).state :=
    .moment (.host .initial s (Nat.zero_le _) (fun id absent ↦ absurd absent (Nat.not_lt_zero id)))
      x 20
  obtain ⟨-, lengths, -, writes, -⟩ := arrays_within_limit
  constructor
  · apply (lengths _ _ reachable 0).2 _ _ (Nat.lt_succ_self _)
    exact .inl (.inr ⟨Nat.zero_le _, size.symm⟩)
  · apply (writes _ _ _ _ _ _).mpr
    exact ⟨0, .number 16777215.5, rfl, by decide +kernel, rfl⟩

end Control

end MiniBasic
