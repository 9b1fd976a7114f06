import MiniBasic.Proofs.Control.Change

/-!
# Methods and histories of objects

Objects are changed by calling their methods. A method is found by its name, in any case, and called
with as many arguments as it takes. What has happened to an object since it was made is its history,
and whatever is executed, histories go on: this is so if single changes of the heap make them go on.
-/

namespace MiniBasic

/-! ## Methods -/

/-- Where no two names are spellings of one word, a word finds what it names. -/
theorem Text.find?_sameWord {α : Type} {all : List α} {name : α → String}
    (distinct : ∀ a, all.find? (fun b ↦ sameWord (name b) (name a)) = some a) {word : String}
    {a : α} :
    all.find? (fun b ↦ sameWord (name b) word) = some a ↔ sameWord (name a) word = true := by
  constructor
  · exact List.find?_some (p := fun b ↦ sameWord (name b) word)
  · intro h
    have same : foldCase (name a) = foldCase word := beq_iff_eq.mp h
    have found := distinct a
    unfold sameWord at found ⊢
    rwa [same] at found

namespace Machine

variable {object : Value} {member : String} {args : List Value}

/-- Calling a method that an object has is taking an action on the heap. -/
theorem callMember_of_method {action : Heap.Action Value} (container : object ≠ .debug)
    (h : Heap.Action.callMethod? object member args = some <$> action) :
    callMember object member args = onHeap action := by
  funext s
  unfold callMember
  split
  next => exact absurd rfl container
  next =>
    change EStateM.bind (onHeap (Heap.Action.callMethod? object member args)) _ s = _
    rw [h]
    change EStateM.bind (onHeap (EStateM.map some action)) _ s = _
    unfold EStateM.bind onHeap EStateM.map
    dsimp only
    cases action s.heap with
    | ok v h => rfl
    | error e h => rfl

theorem callMember_of_none (container : object ≠ .debug)
    (h : Heap.Action.callMethod? object member args = pure none) (s : State) :
    callMember object member args s = .error (.error (.unknownMember member object.type)) s := by
  unfold callMember
  split
  next => exact absurd rfl container
  next =>
    change EStateM.bind (onHeap (Heap.Action.callMethod? object member args)) _ s = _
    rw [h]
    rfl

section Arity

variable {name : String} {expected : Nat} (k : Unit → Heap.Action Value) (s : State)

theorem onHeap_checkArity_of_eq (h : args.length = expected) :
    onHeap (Heap.Action.checkArity name expected args >>= k) s = onHeap (k ()) s := by
  unfold Heap.Action.checkArity
  rw [if_pos h]
  rfl

theorem onHeap_checkArity_of_ne (h : args.length ≠ expected) :
    onHeap (Heap.Action.checkArity name expected args >>= k) s =
      .error (.error (.arityMismatch name expected args.length)) s := by
  unfold Heap.Action.checkArity
  rw [if_neg h]
  rfl

end Arity

end Machine

/-! ## Histories -/

namespace Control

variable {E : Type} {H : List E → State → Prop}

/-- From the one heap to the other, histories go on. `H` says in which states the object may be
after the events of a log. -/
def Continues (H : List E → State → Prop) (h h' : Heap) : Prop :=
  ∀ (log : List E) (s : State), H log s → s.heap = h → ∃ later, H (log ++ later)
    { s with heap := h' }

theorem Continues.trans {h h' h'' : Heap} (first : Continues H h h') (second : Continues H h' h'') :
    Continues H h h'' := by
  intro log s history hs
  obtain ⟨later, history'⟩ := first log s history hs
  obtain ⟨latest, history''⟩ := second _ _ history' rfl
  exact ⟨later ++ latest, by rwa [← List.append_assoc]⟩

/-- If single changes of the heap make histories go on, and nothing but the heap matters to them,
then whatever is executed, at each of its moments the history has gone on. -/
theorem Continues.moment (guarantee : Heap.Guarantee (Continues H))
    (elsewhere : ∀ {log : List E} {s s' : State}, H log s → s'.heap = s.heap → H log s')
    {log : List E} {s : State} (history : H log s) (x : Execution) (n : Nat) :
    ∃ later, H (log ++ later) (x.moment s n).state := by
  refine x.keeps (P := fun s ↦ ∃ later, H (log ++ later) s) ?_ ?_ ⟨[], by rwa [List.append_nil]⟩ n
  · rintro s s' change ⟨later, history⟩
    cases change with
    | heap taken =>
      obtain ⟨latest, history'⟩ := guarantee.taken taken s.heap _ s history rfl
      exact ⟨later ++ latest, by rwa [← List.append_assoc]⟩
    | note n => exact ⟨later, elsewhere history (s.noted_heap n)⟩
    | _ => exact ⟨later, elsewhere history rfl⟩
  · rintro s ⟨later, history⟩
    exact ⟨later, elsewhere history rfl⟩

end Control

end MiniBasic
