import MiniBasic.Proofs.Control.Objects
import MiniBasic.Proofs.Number.Position

/-!
# Histories of a collection

A collection is a list whose places count from one. What it should hold after some events is said of
lists alone: what is added comes last, and what is removed leaves the others in their order. A
history of a collection is what has happened to it since it was made: items added and removed by a
host, methods called on it and places looked up, with any arguments. Whatever else happens leaves it
as it is. At the end of a history the collection answers as the list would, and what programs do to
a collection is always the continuation of its history.
-/

namespace MiniBasic.Collection

/-! ## Places in a list -/

/-- The number is finite and at least one, and the whole number nearest to it is not beyond the last
place. -/
structure Within (p : Float) (length : ℕ) : Prop where
  finite : p.isFinite = true
  one_le : 1 ≤ p
  rounded_le : Number.rounded p ≤ length

theorem within_iff {p : Float} {length : ℕ} :
    Within p length ↔ p.isFinite = true ∧ 1 ≤ p ∧ Number.rounded p ≤ length :=
  ⟨fun h ↦ ⟨h.finite, h.one_le, h.rounded_le⟩, fun h ↦ ⟨h.1, h.2.1, h.2.2⟩⟩

instance (p : Float) (length : ℕ) : Decidable (Within p length) :=
  decidable_of_iff' _ within_iff

theorem Within.lt {p : Float} {length : ℕ} (h : Within p length) : Number.rounded p - 1 < length :=
  Nat.lt_of_lt_of_le (Nat.sub_lt (Number.rounded_pos h.finite h.one_le) Nat.one_pos) h.rounded_le

/-- The item at a position. -/
def pick? (items : List Value) (p : Float) : Option Value :=
  if h : Within p items.length then some (items.get ⟨Number.rounded p - 1, h.lt⟩) else none

/-- The items without the one at a position. Those behind it move up by one place. -/
def without (items : List Value) (p : Float) : List Value :=
  if Within p items.length then items.take (Number.rounded p - 1) ++ items.drop (Number.rounded p)
    else items

/-- What may happen to the items. -/
inductive Event where
  | added (v : Value)
  | removed (p : Float)

/-- The items after an event. -/
def Event.after (items : List Value) : Event → List Value
  | added v => items ++ [v]
  | removed p => without items p

/-- What a collection should hold after the events of a log. -/
def contents (log : List Event) : List Value :=
  log.foldl Event.after []

/-- The collection of the items of a list. -/
def ofList (items : List Value) : Collection :=
  ⟨items.toArray⟩

/-! ## Single events -/

section Single

variable (items : List Value) {p : Float}

theorem size_ofList : (ofList items).size = items.length :=
  List.size_toArray

theorem push_ofList (v : Value) : (ofList items).push v = ofList (items ++ [v]) :=
  congrArg mk (List.push_toArray items v)

theorem getD_of_within (h : Within p items.length) :
    (ofList items).items.getD (Number.rounded p - 1) .empty =
      items.get ⟨Number.rounded p - 1, h.lt⟩ := by
  change items.toArray.getD _ _ = _
  rw [Array.getD_eq_getD_getElem?, List.getElem?_toArray, List.getElem?_eq_getElem h.lt]
  rfl

/-- Taking out an item joins what is before it and what is behind it. -/
theorem eraseIdx_of_within (h : Within p items.length) :
    (ofList items).items.eraseIdxIfInBounds (Number.rounded p - 1) = (without items p).toArray := by
  have place : Number.rounded p - 1 + 1 = Number.rounded p :=
    Nat.sub_add_cancel (Number.rounded_pos h.finite h.one_le)
  change items.toArray.eraseIdxIfInBounds _ = _
  rw [List.eraseIdxIfInBounds_toArray, List.eraseIdx_eq_take_drop_succ, place, without, if_pos h]

/-- Reading does not compare the position with the length: behind the last item there is none. -/
theorem item_ofList (p : Float) : (ofList items).item p = (pick? items p).getD .empty := by
  unfold item pick?
  by_cases h : Within p items.length
  · rw [if_neg (mt Number.outside_iff.mp (not_not.mpr ⟨h.finite, h.one_le⟩)), dif_pos h,
      Number.place_eq_rounded h.finite h.one_le]
    exact getD_of_within items h
  rw [dif_neg h]
  split
  next => rfl
  next inside =>
    obtain ⟨finite, one⟩ := not_not.mp (mt Number.outside_iff.mpr inside)
    have beyond : items.length ≤ Number.rounded p - 1 :=
      Nat.le_sub_one_of_lt (not_le.mp fun le ↦ h ⟨finite, one, le⟩)
    rw [Number.place_eq_rounded finite one]
    change items.toArray.getD _ _ = _
    rw [Array.getD_eq_getD_getElem?, List.getElem?_toArray, List.getElem?_eq_none beyond]

/-- Removing compares the position with the length, and so finds the items that reading finds. -/
theorem remove?_ofList (p : Float) :
    (ofList items).remove? p = (pick? items p).map fun v ↦ (v, ofList (without items p)) := by
  unfold remove? pick?
  rw [size_ofList]
  by_cases h : Within p items.length
  · have inside := mt Number.outside_iff.mp (not_not.mpr ⟨h.finite, h.one_le⟩)
    rw [dif_pos h, Number.place_eq_rounded h.finite h.one_le,
      if_neg (not_or.mpr ⟨inside, not_lt.mpr h.rounded_le⟩)]
    exact congrArg some
      (Prod.ext (getD_of_within items h) (congrArg mk (eraseIdx_of_within items h)))
  · have refused : (p < 1 ∨ ¬p.isFinite = true) ∨ items.length < Number.place p := by
      by_contra accepted
      obtain ⟨inside, le⟩ := not_or.mp accepted
      obtain ⟨finite, one⟩ := not_not.mp (mt Number.outside_iff.mpr inside)
      rw [Number.place_eq_rounded finite one] at le
      exact h ⟨finite, one, not_lt.mp le⟩
    rw [if_pos refused, dif_neg h]
    rfl

theorem without_of_pick?_eq_none (h : pick? items p = none) : without items p = items := by
  unfold pick? at h
  split at h
  next => cases h
  next outside => exact if_neg outside

end Single

/-! ## Histories -/

/-- What a method call means to the items. A call with a wrong number of arguments fails, and the
other methods only look at them. -/
def methodEvents (word : String) : List Value → List Event
  | [v] =>
    if Text.sameWord "Add" word then [.added v]
    else if Text.sameWord "Remove" word then [.removed v.toNumber]
    else []
  | _ => []

/-- The states in which a collection can be after the events of a log. -/
inductive History (id : ℕ) : List Event → State → Prop
  | new (s : State) (next : s.heap.collections.size = id) :
    History id [] ((Machine.onHeap Heap.Action.newCollection).final s)
  | push {log : List Event} {s : State} (history : History id log s) (v : Value) :
    History id (log ++ [.added v])
      ((Machine.onHeap (Heap.Action.modifyCollection id (·.push v))).final s)
  | remove {log : List Event} {s : State} (history : History id log s) (p : Float) :
    History id (log ++ [.removed p]) ((Machine.onHeap (Heap.Action.removeItem id p)).final s)
  | method {log : List Event} {s : State} (history : History id log s) (word : String)
    (args : List Value) :
    History id (log ++ methodEvents word args)
      ((Machine.callMember (.collection id) word args).final s)
  | index {log : List Event} {s : State} (history : History id log s) (name : String)
    (args : List Value) :
    History id log ((Machine.applyValue name (.collection id) args).final s)
  | elsewhere {log : List Event} {s : State} (history : History id log s) (s' : State)
    (same : s'.heap.collections[id]? = s.heap.collections[id]?) : History id log s'

/-! ## Items in a state -/

section Holds

open Heap.Action

theorem onHeap_removeItem_of_some {id : ℕ} {p : Float} {v : Value} {rest : Collection} {s : State}
    (h : (s.heap.collection id).remove? p = some (v, rest)) : Machine.onHeap (removeItem id p) s =
      .ok v
        { s with heap := { s.heap with collections := s.heap.collections.modify id fun _ ↦
          rest } } := by
  have got : (get : Heap.Action Heap) s.heap = .ok s.heap s.heap := rfl
  have ran : removeItem id p s.heap =
      .ok v { s.heap with collections := s.heap.collections.modify id fun _ ↦ rest } := by
    refine (bind_ok got).trans ?_
    rw [h]
    rfl
  rw [Machine.onHeap, ran]

theorem onHeap_removeItem_of_none {id : ℕ} {p : Float} {s : State}
    (h : (s.heap.collection id).remove? p = none) :
    Machine.onHeap (removeItem id p) s = .error (.error (.indexOutOfRange p)) s := by
  have got : (get : Heap.Action Heap) s.heap = .ok s.heap s.heap := rfl
  have ran : removeItem id p s.heap = .error (.indexOutOfRange p) s.heap := by
    refine (bind_ok got).trans ?_
    rw [h]
    rfl
  rw [Machine.onHeap, ran]

/-- The items of the list are in the collection. -/
def Holds (id : ℕ) (items : List Value) (s : State) : Prop :=
  s.heap.collections[id]? = some (ofList items)

/-- The state with other items in the collection. -/
def replaced (id : ℕ) (items : List Value) (s : State) : State :=
  { s with heap :=
      { s.heap with collections := s.heap.collections.modify id fun _ ↦ ofList items } }

variable {id : ℕ} {items : List Value} {s : State} (hs : Holds id items s)

include hs

theorem Holds.collection : s.heap.collection id = ofList items := by
  rw [Heap.collection, Array.getD_eq_getD_getElem?, hs]
  rfl

theorem Holds.replaced (other : List Value) : Holds id other (replaced id other s) := by
  change (s.heap.collections.modify id _)[id]? = _
  rw [Array.getElem?_modify, if_pos rfl, hs]
  rfl

theorem Holds.modify_push (v : Value) :
    s.heap.collections.modify id (·.push v) = s.heap.collections.modify id fun _ ↦
      ofList (items ++ [v]) := by
  apply Array.ext_getElem?
  intro other
  rw [Array.getElem?_modify, Array.getElem?_modify]
  split
  next here =>
    rw [← here, hs, ← push_ofList]
    rfl
  next => rfl

theorem Holds.push (v : Value) :
    Machine.onHeap (modifyCollection id (·.push v)) s = .ok ()
      (Collection.replaced id (items ++ [v]) s) := by
  rw [Collection.replaced, ← hs.modify_push v]
  rfl

theorem Holds.remove {p : Float} {v : Value} (h : pick? items p = some v) :
    Machine.onHeap (removeItem id p) s = .ok v (Collection.replaced id (without items p) s) := by
  apply onHeap_removeItem_of_some
  rw [hs.collection, remove?_ofList, h]
  rfl

theorem Holds.remove_fails {p : Float} (h : pick? items p = none) :
    Machine.onHeap (removeItem id p) s = .error (.error (.indexOutOfRange p)) s := by
  apply onHeap_removeItem_of_none
  rw [hs.collection, remove?_ofList, h]
  rfl

/-- Whether it succeeds or fails, a removal leaves the items without the one at the position. -/
theorem Holds.removed (p : Float) :
    Holds id (without items p) ((Machine.onHeap (removeItem id p)).final s) := by
  cases h : pick? items p with
  | some v =>
    rw [Machine.final, hs.remove h]
    exact hs.replaced _
  | none =>
    rw [Machine.final, hs.remove_fails h, without_of_pick?_eq_none items h]
    exact hs

end Holds

/-! ## Methods -/

theorem Method.ofName?_eq_some {word : String} {m : Method} :
    ofName? word = some m ↔ Text.sameWord m.name word := by
  refine Text.find?_sameWord fun m ↦ ?_
  cases m <;> decide +kernel

section Call

open Heap.Action

variable {id : ℕ} {word : String} {m : Method} {args : List Value} {s : State}

theorem callMember_of_ofName? (args : List Value) (hm : Method.ofName? word = some m) :
    Machine.callMember (.collection id) word args = Machine.onHeap (callCollection id m args) := by
  apply Machine.callMember_of_method (by simp)
  simp only [callMethod?, hm]

theorem callMember_of_unknown (hm : Method.ofName? word = none) :
    Machine.callMember (.collection id) word args s =
      .error (.error (.unknownMember word .collection)) s := by
  apply Machine.callMember_of_none (by simp)
  simp only [callMethod?, hm]

theorem callMember_of_arity (hm : Method.ofName? word = some m) (ha : args.length ≠ m.arity) :
    Machine.callMember (.collection id) word args s =
      .error (.error (.arityMismatch ("Collection." ++ m.name) m.arity args.length)) s := by
  rw [callMember_of_ofName? args hm]
  exact Machine.onHeap_checkArity_of_ne _ s ha

theorem callMember_remove (h : Text.sameWord "Remove" word) (v : Value) :
    Machine.callMember (.collection id) word [v] = Machine.onHeap (removeItem id v.toNumber) := by
  rw [callMember_of_ofName? (m := .remove) [v] (Method.ofName?_eq_some.mpr h)]
  rfl

/-- Nothing happens unless one of the two methods that change the items is called. -/
theorem final_callMember (other : ∀ n ∈ [Method.add, .remove], args.length = n.arity →
    ¬Text.sameWord n.name word) :
    (Machine.callMember (.collection id) word args).final s = s := by
  cases hm : Method.ofName? word with
  | none => rw [Machine.final, callMember_of_unknown hm]
  | some m =>
    by_cases ha : args.length = m.arity
    · have called : Text.sameWord m.name word := Method.ofName?_eq_some.mp hm
      rw [callMember_of_ofName? args hm]
      cases m with
      | add => exact absurd called (other .add (by decide) ha)
      | remove => exact absurd called (other .remove (by decide) ha)
      | item =>
        obtain ⟨v, rfl⟩ := List.length_eq_one_iff.mp ha
        rfl
      | count =>
        obtain rfl := List.length_eq_zero_iff.mp ha
        rfl
    · rw [Machine.final, callMember_of_arity hm ha]

variable {items : List Value} (hs : Holds id items s)

include hs

theorem Holds.add (h : Text.sameWord "Add" word) (v : Value) :
    Machine.callMember (.collection id) word [v] s =
      .ok .empty (Collection.replaced id (items ++ [v]) s) := by
  rw [callMember_of_ofName? (m := .add) [v] (Method.ofName?_eq_some.mpr h), Collection.replaced,
    ← hs.modify_push v]
  rfl

/-- A method call changes the items as its events say. -/
theorem Holds.method (word : String) (args : List Value) :
    Holds id ((methodEvents word args).foldl Event.after items)
      ((Machine.callMember (.collection id) word args).final s) := by
  unfold methodEvents
  split
  next v =>
    split
    next add =>
      rw [Machine.final, hs.add add v]
      exact hs.replaced _
    next notAdd =>
      split
      next remove =>
        rw [callMember_remove remove v]
        exact hs.removed v.toNumber
      next notRemove =>
        rw [final_callMember]
        · exact hs
        · exact List.forall_mem_cons.mpr ⟨fun _ ↦ notAdd, List.forall_mem_singleton.mpr fun _ ↦
            notRemove⟩
  next other =>
    have several : args.length ≠ 1 := fun one ↦ (List.length_eq_one_iff.mp one).elim other
    rw [final_callMember]
    · exact hs
    · exact List.forall_mem_cons.mpr
        ⟨fun one ↦ absurd one several, List.forall_mem_singleton.mpr fun one ↦ absurd one several⟩

/-- A method call that fails changes nothing. -/
theorem Holds.method_fails {i : Interrupt} {s' : State}
    (failed : Machine.callMember (.collection id) word args s = .error i s') : s' = s := by
  cases hm : Method.ofName? word with
  | none =>
    rw [callMember_of_unknown hm] at failed
    cases failed
    rfl
  | some m =>
    by_cases ha : args.length = m.arity
    · rw [callMember_of_ofName? args hm] at failed
      cases m with
      | add =>
        obtain ⟨v, rfl⟩ := List.length_eq_one_iff.mp ha
        cases failed
      | remove =>
        obtain ⟨v, rfl⟩ := List.length_eq_one_iff.mp ha
        change Machine.onHeap (removeItem id v.toNumber) s = _ at failed
        cases h : pick? items v.toNumber with
        | some item =>
          rw [hs.remove h] at failed
          cases failed
        | none =>
          rw [hs.remove_fails h] at failed
          cases failed
          rfl
      | item =>
        obtain ⟨v, rfl⟩ := List.length_eq_one_iff.mp ha
        cases failed
      | count =>
        obtain rfl := List.length_eq_zero_iff.mp ha
        cases failed
    · rw [callMember_of_arity hm ha] at failed
      cases failed
      rfl

end Call

/-! ## Looking up -/

theorem final_applyValue (id : ℕ) (name : String) (args : List Value) (s : State) :
    (Machine.applyValue name (.collection id) args).final s = s := by
  cases args with
  | nil => rfl
  | cons v rest =>
    cases rest with
    | nil => rfl
    | cons _ _ => rfl

/-! ## The end of a history -/

/-- At the end of a history the collection holds what it should. -/
theorem History.holds {id : ℕ} {log : List Event} {s : State} (history : History id log s) :
    Holds id (contents log) s := by
  have later {log events : List Event} {s : State}
      (h : Holds id (events.foldl Event.after (contents log)) s) :
      Holds id (contents (log ++ events)) s := by
    rwa [contents, List.foldl_append]
  induction history with
  | new s next =>
    subst next
    exact Array.getElem?_push_size
  | push _ v ih =>
    apply later
    rw [Machine.final, ih.push v]
    exact ih.replaced _
  | remove _ p ih => exact later (ih.removed p)
  | method _ word args ih => exact later (ih.method word args)
  | index _ name args ih => rwa [final_applyValue]
  | elsewhere _ s' same ih => exact same.trans ih

/-! ## What programs do -/

section Continues

open Control (Continues)

variable {id : ℕ}

theorem continues_of_same {h h' : Heap} (same : h'.collections[id]? = h.collections[id]?) :
    Continues (History id) h h' := by
  rintro log s history rfl
  exact ⟨[], (List.append_nil log).symm ▸ history.elsewhere _ same⟩

/-- A new collection gets a number that no collection has. -/
theorem continues_newCollection (h : Heap) :
    Continues (History id) h { h with collections := h.collections.push .empty } := by
  rintro log s history rfl
  have old : id < s.heap.collections.size := (Array.getElem?_eq_some_iff.mp history.holds).1
  exact continues_of_same (by rw [Array.getElem?_push, if_neg (Nat.ne_of_lt old)]) log s history rfl

theorem continues_push (h : Heap) (other : ℕ) (v : Value) :
    Continues (History id) h { h with collections := h.collections.modify other (·.push v) } := by
  by_cases here : other = id
  · rintro log s history rfl
    exact ⟨[.added v], here ▸ history.push v⟩
  · exact continues_of_same (by rw [Array.getElem?_modify, if_neg here])

theorem continues_remove (h : Heap) (other : ℕ) (p : Float) (v : Value) (rest : Collection)
    (removed : (h.collection other).remove? p = some (v, rest)) :
    Continues (History id) h { h with collections := h.collections.modify other fun _ ↦ rest } := by
  by_cases here : other = id
  · subst here
    rintro log s history rfl
    have gone := history.remove p
    rw [Machine.final, onHeap_removeItem_of_some removed] at gone
    exact ⟨[.removed p], gone⟩
  · exact continues_of_same (by rw [Array.getElem?_modify, if_neg here])

theorem guarantee_continues (id : ℕ) : Heap.Guarantee (Continues (History id)) where
  refl _ := continues_of_same rfl
  trans := Continues.trans
  newArray _ _ _ := continues_of_same rfl
  setElement _ _ _ _ _ := continues_of_same rfl
  newDictionary _ := continues_of_same rfl
  insert _ _ _ _ := continues_of_same rfl
  erase _ _ _ := continues_of_same rfl
  clear _ _ := continues_of_same rfl
  newCollection := continues_newCollection
  push := continues_push
  remove := continues_remove

end Continues

/-- Whatever is executed, at each of its moments the history has gone on. -/
theorem History.moment {id : ℕ} {log : List Event} {s : State} (history : History id log s)
    (x : Control.Execution) (n : ℕ) : ∃ later, History id (log ++ later) (x.moment s n).state :=
  Control.Continues.moment (guarantee_continues id)
    (fun history same ↦ history.elsewhere _ (by rw [same])) history x n

/-! ## Answers -/

open Heap.Action in
/-- The collection answers as a list of these items would, and what fails changes nothing. -/
structure Answers (id : ℕ) (items : List Value) (s : State) : Prop where
  collection : s.heap.collection id = ofList items
  item (p : Float) : (s.heap.collection id).item p = (pick? items p).getD .empty
  index (name : String) (v : Value) :
    Machine.applyValue name (.collection id) [v] s = .ok ((pick? items v.toNumber).getD .empty) s
  item_method (word : String) (h : Text.sameWord "Item" word) (v : Value) :
    Machine.callMember (.collection id) word [v] s = .ok ((pick? items v.toNumber).getD .empty) s
  count (word : String) (h : Text.sameWord "Count" word) :
    Machine.callMember (.collection id) word [] s = .ok (.number (Number.ofNat items.length)) s
  push (v : Value) :
    Machine.onHeap (modifyCollection id (·.push v)) s = .ok () (replaced id (items ++ [v]) s)
  add_method (word : String) (h : Text.sameWord "Add" word) (v : Value) :
    Machine.callMember (.collection id) word [v] s = .ok .empty (replaced id (items ++ [v]) s)
  remove (p : Float) (v : Value) (h : pick? items p = some v) :
    Machine.onHeap (removeItem id p) s = .ok v (replaced id (without items p) s)
  remove_fails (p : Float) (h : pick? items p = none) :
    Machine.onHeap (removeItem id p) s = .error (.error (.indexOutOfRange p)) s
  remove_method (word : String) (h : Text.sameWord "Remove" word) (v : Value) :
    Machine.callMember (.collection id) word [v] s = Machine.onHeap (removeItem id v.toNumber) s
  index_fails (name : String) (args : List Value) (i : Interrupt) (s' : State) :
    Machine.applyValue name (.collection id) args s = .error i s' → s' = s
  method_fails (word : String) (args : List Value) (i : Interrupt) (s' : State) :
    Machine.callMember (.collection id) word args s = .error i s' → s' = s

theorem Holds.answers {id : ℕ} {items : List Value} {s : State} (hs : Holds id items s) :
    Answers id items s where
  collection := hs.collection
  item p := by rw [hs.collection, item_ofList]
  index name v := by
    rw [← item_ofList, ← hs.collection]
    rfl
  item_method word h v := by
    rw [callMember_of_ofName? (m := .item) [v] (Method.ofName?_eq_some.mpr h), ← item_ofList,
      ← hs.collection]
    rfl
  count word h := by
    rw [callMember_of_ofName? (m := .count) [] (Method.ofName?_eq_some.mpr h), ← size_ofList,
      ← hs.collection]
    rfl
  push := hs.push
  add_method _ h v := hs.add h v
  remove _ _ := hs.remove
  remove_fails _ := hs.remove_fails
  remove_method _ h v := by rw [callMember_remove h v]
  index_fails name args i s' failed := by
    have same := final_applyValue id name args s
    rwa [Machine.final, failed] at same
  method_fails _ _ _ _ := hs.method_fails

/-- A collection is a list whose places count from one. At the end of each of its histories it
answers as the list would; and whatever is executed then, at each moment of it the history has gone
on, and the collection answers as the list after the longer log would. No position stands for a
place before the first, and one that is cut to a machine word stands for the same place, unless
there are more places than words. -/
theorem answers_as_list {id : ℕ} {log : List Event} {s : State} (history : History id log s) :
    Answers id (contents log) s ∧
    (∀ (x : Control.Execution) (n : ℕ), ∃ later, History id (log ++ later) (x.moment s n).state ∧
      Answers id (contents (log ++ later)) (x.moment s n).state) ∧
    ∀ p : Float, p.isFinite = true → ¬p < 1 → 0 < Number.place p ∧
      ∀ length < Number.maxWord,
        Number.toWord Number.nearestWhole p ≤ length ↔ Number.place p ≤ length := by
  refine ⟨history.holds.answers, fun x n ↦ ?_, fun p finite above ↦ ?_⟩
  · obtain ⟨later, continued⟩ := history.moment x n
    exact ⟨later, continued, continued.holds.answers⟩
  · have one : 1 ≤ p := (Number.one_le_iff_not_lt finite).mpr above
    rw [Number.place_eq_rounded finite one, Number.toWord_nearestWhole finite one]
    exact ⟨Number.rounded_pos finite one, fun length fits ↦ by omega⟩

/-- A half goes up, and below one there is no place. -/
theorem answers_as_list_half :
    let log : List Event :=
      [.added (.text "a"), .added (.text "b"), .added (.text "c"), .removed 1.5, .removed 0.5]
    ∃ s, History 0 log s ∧ Answers 0 (contents log) s ∧ (s.heap.collection 0).items =
      #[.text "a", .text "c"] := by
  intro log
  have added : History 0 (log.take 3) _ :=
    (((History.new State.initial rfl).push (.text "a")).method "ADD" [.text "b"]).push (.text "c")
  have history : History 0 log _ :=
    ((added.method "remove" [.number 1.5]).index "c" [.number 2]).remove 0.5
  exact ⟨_, history, (answers_as_list history).1, by decide +kernel⟩

end MiniBasic.Collection
