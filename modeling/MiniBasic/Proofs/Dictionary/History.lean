import MiniBasic.Proofs.Control.Objects
import MiniBasic.Proofs.Dictionary.Log

/-!
# Histories of a dictionary

A history of a dictionary is what has happened to it since it was made: entries stored, removed and
cleared by a host, methods called on it, with any arguments, and assignments to its elements.
Whatever else happens leaves it as it is. A history has a log, and at its end the dictionary answers
as the log says. What programs do to a dictionary is always the continuation of its history.
-/

namespace MiniBasic.Dictionary

/-- What a method call means to the entries. A call with a wrong number of arguments fails, and the
other methods only look at them. -/
def methodEvents (h : Heap) (word : String) : List Value → List Event
  | [key, v] => if Text.sameWord "Add" word then [.stored (h.text key) v] else []
  | [key] => if Text.sameWord "Remove" word then [.removed (h.text key)] else []
  | [] => if Text.sameWord "RemoveAll" word then [.cleared] else []
  | _ => []

/-- What an assignment to an element means to the entries. It takes one index. -/
def assignmentEvents (h : Heap) (indices : List Value) (v : Value) : List Event :=
  match indices with
  | [key] => [.stored (h.text key) v]
  | _ => []

/-- The expression in front of the indices of an assignment leads to a dictionary: by a variable
that holds it, by its member `Item`, which stands for the dictionary itself, or by any other member
or call that returns it. -/
inductive Denotes (eval : Expr → Machine Value) (id : Nat) (s : State) : Expr → State → Prop
  | name {n : String} (bound : s.env.get? n = some (.dictionary id)) : Denotes eval id s (.name n) s
  | item {object : Expr} {word : String} {s' : State} (named : Text.sameWord "Item" word)
    (returned : eval object s = .ok (.dictionary id) s') :
    Denotes eval id s (.member object word) s'
  | member {object : Expr} {word : String} {s' : State} (other : Text.sameWord "Item" word = false)
    (returned : eval (.member object word) s = .ok (.dictionary id) s') :
    Denotes eval id s (.member object word) s'
  | call {callee : Expr} {args : List Expr} {s' : State}
    (returned : eval (.call callee args) s = .ok (.dictionary id) s') :
    Denotes eval id s (.call callee args) s'

/-- The states in which a dictionary can be after the events of a log. -/
inductive History (id : Nat) : List Event → State → Prop
  | new (s : State) (next : s.heap.dictionaries.size = id) :
    History id [] ((Machine.onHeap Heap.Action.newDictionary).final s)
  | host {log : List Event} {s : State} (history : History id log s) (e : Event) :
    History id (log ++ [e]) ((Machine.onHeap (Heap.Action.modifyDictionary id (·.apply e))).final s)
  | method {log : List Event} {s : State} (history : History id log s) (word : String)
    (args : List Value) :
    History id (log ++ methodEvents s.heap word args)
      ((Machine.callMember (.dictionary id) word args).final s)
  | assign {log : List Event} {s s₁ s₂ : State} (eval : Expr → Machine Value) {callee : Expr}
    {args : List Expr} {indices : List Value} (container : Denotes eval id s callee s₁)
    (evaluated : Machine.evalAll eval args s₁ = .ok indices s₂) (history : History id log s₂)
    (v : Value) :
    History id (log ++ assignmentEvents s₂.heap indices v)
      ((Machine.assignTo eval (.call callee args) v).final s)
  | elsewhere {log : List Event} {s : State} (history : History id log s) (s' : State)
    (same : s'.heap.dictionaries[id]? = s.heap.dictionaries[id]?) : History id log s'

/-! ## Methods -/

namespace Method

variable {word : String} {m : Method}

theorem ofName?_eq_some : ofName? word = some m ↔ Text.sameWord m.name word := by
  refine Text.find?_sameWord fun m ↦ ?_
  cases m <;> decide +kernel

/-- A word names one method at most. -/
theorem sameWord_name (h : ofName? word = some m) (n : Method) :
    Text.sameWord n.name word = decide (n = m) := by
  rw [Bool.eq_iff_iff, ← ofName?_eq_some, h, decide_eq_true_iff, Option.some_inj]
  exact eq_comm

theorem sameWord_name_of_none (h : ofName? word = none) (n : Method) :
    Text.sameWord n.name word = false := by
  rw [← Bool.not_eq_true, ← ofName?_eq_some, h]
  simp

end Method

section Call

open Heap.Action

variable {id : Nat} {word : String} {m : Method} (args : List Value) (s : State)

theorem callMember_of_ofName? (hm : Method.ofName? word = some m) :
    Machine.callMember (.dictionary id) word args = Machine.onHeap (callDictionary id m args) := by
  apply Machine.callMember_of_method (by simp)
  simp only [callMethod?, hm]

theorem callMember_of_unknown (hm : Method.ofName? word = none) :
    Machine.callMember (.dictionary id) word args s =
      .error (.error (.unknownMember word .dictionary)) s := by
  apply Machine.callMember_of_none (by simp)
  simp only [callMethod?, hm]

theorem callMember_of_arity (hm : Method.ofName? word = some m) (ha : args.length ≠ m.arity) :
    Machine.callMember (.dictionary id) word args s =
      .error (.error (.arityMismatch ("Dictionary." ++ m.name) m.arity args.length)) s := by
  rw [callMember_of_ofName? args hm]
  exact Machine.onHeap_checkArity_of_ne _ s ha

/-- Nothing happens to the entries unless one of the three methods that change them is called. -/
theorem methodEvents_eq_nil (h : Heap) {args : List Value}
    (other : ∀ n ∈ [Method.add, .remove, .removeAll], args.length = n.arity →
      Text.sameWord n.name word = false) :
    methodEvents h word args = [] := by
  unfold methodEvents
  split
  next => exact if_neg (Bool.eq_false_iff.mp (other .add (by decide) rfl))
  next => exact if_neg (Bool.eq_false_iff.mp (other .remove (by decide) rfl))
  next => exact if_neg (Bool.eq_false_iff.mp (other .removeAll (by decide) rfl))
  next => rfl

/-- A method call changes the entries as its events say. -/
theorem callMember_entries :
    ((Machine.callMember (.dictionary id) word args).final s).heap.dictionaries[id]? =
    s.heap.dictionaries[id]?.map ((methodEvents s.heap word args).foldl apply) := by
  have unchanged {s' : State} (same : s'.heap.dictionaries = s.heap.dictionaries)
      (nil : methodEvents s.heap word args = []) :
      s'.heap.dictionaries[id]? = s.heap.dictionaries[id]?.map
        ((methodEvents s.heap word args).foldl apply) := by
    rw [same, nil]
    exact Option.map_id'.symm
  have changed {s' : State} (e : Event)
      (same : s'.heap.dictionaries = s.heap.dictionaries.modify id (·.apply e))
      (single : methodEvents s.heap word args = [e]) :
      s'.heap.dictionaries[id]? = s.heap.dictionaries[id]?.map
        ((methodEvents s.heap word args).foldl apply) := by
    rw [same, single, Array.getElem?_modify, if_pos rfl]
    rfl
  cases hm : Method.ofName? word with
  | none =>
    rw [Machine.final, callMember_of_unknown args s hm]
    exact unchanged rfl (methodEvents_eq_nil _ fun n _ _ ↦ Method.sameWord_name_of_none hm n)
  | some m =>
    by_cases ha : args.length = m.arity
    · have nil (hn : m ∉ [Method.add, .remove, .removeAll]) : methodEvents s.heap word args = [] :=
        methodEvents_eq_nil _ fun n mem _ ↦ by
          rw [Method.sameWord_name hm n]
          exact decide_eq_false fun same ↦ hn (same ▸ mem)
      have called : Text.sameWord m.name word := Method.ofName?_eq_some.mp hm
      rw [callMember_of_ofName? args hm]
      cases m with
      | add =>
        obtain ⟨key, v, rfl⟩ := List.length_eq_two.mp ha
        exact changed (.stored (s.heap.text key) v) rfl (if_pos called)
      | remove =>
        obtain ⟨key, rfl⟩ := List.length_eq_one_iff.mp ha
        exact changed (.removed (s.heap.text key)) rfl (if_pos called)
      | removeAll =>
        obtain rfl := List.length_eq_zero_iff.mp ha
        exact changed .cleared rfl (if_pos called)
      | contains =>
        obtain ⟨key, rfl⟩ := List.length_eq_one_iff.mp ha
        exact unchanged rfl (nil (by decide))
      | item =>
        obtain ⟨key, rfl⟩ := List.length_eq_one_iff.mp ha
        exact unchanged rfl (nil (by decide))
      | keys =>
        obtain rfl := List.length_eq_zero_iff.mp ha
        exact unchanged rfl (nil (by decide))
      | items =>
        obtain rfl := List.length_eq_zero_iff.mp ha
        exact unchanged rfl (nil (by decide))
      | count =>
        obtain rfl := List.length_eq_zero_iff.mp ha
        exact unchanged rfl (nil (by decide))
    · rw [Machine.final, callMember_of_arity args s hm ha]
      refine unchanged rfl (methodEvents_eq_nil _ fun n _ hn ↦ ?_)
      rw [Method.sameWord_name hm n]
      exact decide_eq_false fun same ↦ ha (same ▸ hn)

/-- A method call that fails changes nothing. -/
theorem callMember_fails {i : Interrupt} {s' : State}
    (failed : Machine.callMember (.dictionary id) word args s = .error i s') : s' = s := by
  cases hm : Method.ofName? word with
  | none =>
    rw [callMember_of_unknown args s hm] at failed
    cases failed
    rfl
  | some m =>
    by_cases ha : args.length = m.arity
    · rw [callMember_of_ofName? args hm, callDictionary,
        Machine.onHeap_checkArity_of_eq _ s ha] at failed
      cases m <;> cases failed
    · rw [callMember_of_arity args s hm ha] at failed
      cases failed
      rfl

end Call

/-! ## Assignments -/

section Assign

variable {id : Nat} {indices : List Value} {v : Value}

theorem Denotes.evalContainer {eval : Expr → Machine Value} {callee : Expr} {s s' : State}
    (h : Denotes eval id s callee s') :
    Machine.evalContainer eval callee s = .ok (.dictionary id) s' := by
  have same (word : String) : Text.sameWord word "item" = Text.sameWord "Item" word := by
    have folded : Text.foldCase "item" = Text.foldCase "Item" := by decide +kernel
    rw [Text.sameWord, Text.sameWord, folded]
    exact BEq.comm
  cases h with
  | name bound =>
    change EStateM.Result.ok (s.env.getOrDeclare _).1 { s with env := (s.env.getOrDeclare _).2 } = _
    unfold Environment.getOrDeclare
    rw [bound]
  | item named returned =>
    change (if Text.sameWord _ "item" then _ else _ : Machine Value) s = _
    rwa [same, if_pos named]
  | member other returned =>
    change (if Text.sameWord _ "item" then _ else _ : Machine Value) s = _
    rwa [same, if_neg (Bool.eq_false_iff.mp other)]
  | call returned => exact returned

/-- After its container and its indices have been evaluated, an assignment to an element writes. -/
theorem assignTo_call {eval : Expr → Machine Value} {callee : Expr} {args : List Expr}
    {s s₁ s₂ : State} {container : Value}
    (hc : Machine.evalContainer eval callee s = .ok container s₁)
    (hi : Machine.evalAll eval args s₁ = .ok indices s₂) :
    Machine.assignTo eval (.call callee args) v s =
      Machine.onHeap (Heap.Action.write (Machine.calleeName callee) container indices v) s₂ := by
  change EStateM.bind _ _ s = _
  unfold EStateM.bind
  rw [hc]
  change EStateM.bind _ _ s₁ = _
  unfold EStateM.bind
  rw [hi]

/-- Writing an element changes the entries as its events say. -/
theorem write_entries (name : String) (s : State) :
    ((Machine.onHeap (Heap.Action.write name (.dictionary id) indices v)).final
      s).heap.dictionaries[id]? =
      s.heap.dictionaries[id]?.map ((assignmentEvents s.heap indices v).foldl apply) := by
  cases indices with
  | nil => exact Option.map_id'.symm
  | cons key rest =>
    cases rest with
    | nil =>
      change (s.heap.dictionaries.modify id _)[id]? = _
      rw [Array.getElem?_modify, if_pos rfl]
      rfl
    | cons _ _ => exact Option.map_id'.symm

theorem write_fails {name : String} {s s' : State} {i : Interrupt}
    (failed : Machine.onHeap (Heap.Action.write name (.dictionary id) indices v) s = .error i s') :
    s' = s := by
  cases indices with
  | nil =>
    cases failed
    rfl
  | cons key rest =>
    cases rest with
    | nil => cases failed
    | cons _ _ =>
      cases failed
      rfl

end Assign

/-! ## Histories -/

namespace History

variable {id : Nat} {log : List Event} {s : State}

/-- At the end of a history the dictionary holds what it should. -/
theorem reflects (history : History id log s) :
    ∃ d, s.heap.dictionaries[id]? = some d ∧ d.Reflects log := by
  induction history with
  | new s next =>
    refine ⟨empty, ?_, reflects_empty⟩
    subst next
    exact Array.getElem?_push_size
  | @host log s _ e ih =>
    obtain ⟨d, hd, h⟩ := ih
    refine ⟨d.apply e, ?_, h.apply e⟩
    change (s.heap.dictionaries.modify id _)[id]? = _
    rw [Array.getElem?_modify, if_pos rfl, hd]
    rfl
  | method _ word args ih =>
    obtain ⟨d, hd, h⟩ := ih
    refine ⟨_, ?_, h.applyAll _⟩
    rw [callMember_entries, hd]
    rfl
  | assign eval container evaluated _ v ih =>
    obtain ⟨d, hd, h⟩ := ih
    refine ⟨_, ?_, h.applyAll _⟩
    rw [Machine.final, assignTo_call container.evalContainer evaluated, ← Machine.final,
      write_entries, hd]
    rfl
  | elsewhere _ s' same ih =>
    rw [same]
    exact ih

end History

/-! ## What programs do -/

/-- From the one heap to the other, histories of a dictionary go on. -/
def Continues (id : Nat) (h h' : Heap) : Prop :=
  ∀ (log : List Event) (s : State), History id log s → s.heap = h →
    ∃ later, History id (log ++ later) { s with heap := h' }

namespace Continues

variable {id : Nat} {h h' : Heap}

theorem of_same (same : h'.dictionaries[id]? = h.dictionaries[id]?) : Continues id h h' := by
  rintro log s history rfl
  exact ⟨[], (List.append_nil log).symm ▸ history.elsewhere _ same⟩

/-- A change of any dictionary, this one or another. -/
theorem apply (h : Heap) (other : Nat) (e : Event) :
    Continues id h { h with dictionaries := h.dictionaries.modify other (·.apply e) } := by
  by_cases here : other = id
  · rintro log s history rfl
    exact ⟨[e], here ▸ history.host e⟩
  · exact of_same (by rw [Array.getElem?_modify, if_neg here])

/-- A new dictionary gets a number that no dictionary has. -/
theorem newDictionary (h : Heap) :
    Continues id h { h with dictionaries := h.dictionaries.push .empty } := by
  rintro log s history rfl
  obtain ⟨d, hd, _⟩ := history.reflects
  have old : id < s.heap.dictionaries.size := (Array.getElem?_eq_some_iff.mp hd).1
  exact of_same (by rw [Array.getElem?_push, if_neg (Nat.ne_of_lt old)]) log s history rfl

end Continues

theorem guarantee_continues (id : Nat) : Heap.Guarantee (Continues id) where
  refl _ := .of_same rfl
  trans := Control.Continues.trans
  newArray _ _ _ := .of_same rfl
  setElement _ _ _ _ _ := .of_same rfl
  newDictionary := .newDictionary
  insert h other key v := .apply h other (.stored key v)
  erase h other key := .apply h other (.removed key)
  clear h other := .apply h other .cleared
  newCollection _ := .of_same rfl
  push _ _ _ := .of_same rfl
  remove _ _ _ _ _ _ := .of_same rfl

/-- Whatever is executed, at each of its moments the history has gone on. -/
theorem History.moment {id : Nat} {log : List Event} {s : State} (history : History id log s)
    (x : Control.Execution) (n : Nat) : ∃ later, History id (log ++ later) (x.moment s n).state :=
  Control.Continues.moment (guarantee_continues id)
    (fun history same ↦ history.elsewhere _ (by rw [same])) history x n

/-! ## Answers -/

/-- The dictionary answers as an ordered map with the events of a log would, and what fails changes
nothing. -/
structure Answers (id : Nat) (log : List Event) (s : State) : Prop where
  keys_nodup : (s.heap.dictionary id).keys.Nodup
  mem_keys (key : String) : key ∈ (s.heap.dictionary id).keys ↔ (lastStored key log).isSome
  keys_order : (s.heap.dictionary id).keys.Pairwise fun a b ↦ firstStored a log < firstStored b log
  size : (s.heap.dictionary id).size = (s.heap.dictionary id).keys.length
  get (key : String) : (s.heap.dictionary id).get? key = lastStored key log
  index (name : String) (key : Value) : Machine.applyValue name (.dictionary id) [key] s =
    .ok ((lastStored (s.heap.text key) log).getD .empty) s
  item (word : String) (h : Text.sameWord "Item" word) (key : Value) :
    Machine.callMember (.dictionary id) word [key] s =
      .ok ((lastStored (s.heap.text key) log).getD .empty) s
  contains (word : String) (h : Text.sameWord "Exists" word) (key : Value) :
    Machine.callMember (.dictionary id) word [key] s =
      .ok (.boolean (lastStored (s.heap.text key) log).isSome) s
  count (word : String) (h : Text.sameWord "Count" word) :
    Machine.callMember (.dictionary id) word [] s =
    .ok (.number (Number.ofNat (s.heap.dictionary id).keys.length)) s
  keys (word : String) (h : Text.sameWord "Keys" word) :
    ∃ s' array, Machine.callMember (.dictionary id) word [] s = .ok (.array array) s' ∧
      s'.heap.array array = ((s.heap.dictionary id).keys.map Value.text).toArray
  items (word : String) (h : Text.sameWord "Items" word) :
    ∃ s' array, Machine.callMember (.dictionary id) word [] s = .ok (.array array) s' ∧
      s'.heap.array array =
        ((s.heap.dictionary id).keys.map fun key ↦ (lastStored key log).getD .empty).toArray
  index_fails (name : String) (args : List Value) (i : Interrupt) (s' : State) :
    Machine.applyValue name (.dictionary id) args s = .error i s' → s' = s
  method_fails (word : String) (args : List Value) (i : Interrupt) (s' : State) :
    Machine.callMember (.dictionary id) word args s = .error i s' → s' = s
  assignment_fails (name : String) (indices : List Value) (v : Value) (i : Interrupt) (s' : State) :
    Machine.onHeap (Heap.Action.write name (.dictionary id) indices v) s = .error i s' → s' = s

theorem array_push_size (h : Heap) (items : Array Value) :
    Heap.array { h with arrays := h.arrays.push items } h.arrays.size = items := by
  unfold Heap.array
  rw [Array.getD_eq_getD_getElem?, Array.getElem?_push_size]
  rfl

theorem applyValue_fails {id : Nat} {name : String} {args : List Value} {i : Interrupt}
    {s s' : State} (failed : Machine.applyValue name (.dictionary id) args s = .error i s') :
    s' = s := by
  cases args with
  | nil =>
    cases failed
    rfl
  | cons key rest =>
    cases rest with
    | nil => cases failed
    | cons _ _ =>
      cases failed
      rfl

theorem Reflects.answers {id : Nat} {log : List Event} {s : State}
    (h : (s.heap.dictionary id).Reflects log) :
    Answers id log s where
  keys_nodup := h.nodup
  mem_keys _ := h.mem_keys
  keys_order := h.order
  size := (List.length_map ..).symm
  get := h.get
  index name key := by
    rw [← h.get]
    rfl
  item word hw key := by
    rw [callMember_of_ofName? (m := .item) [key] (Method.ofName?_eq_some.mpr hw), ← h.get]
    rfl
  contains word hw key := by
    rw [callMember_of_ofName? (m := .contains) [key] (Method.ofName?_eq_some.mpr hw), ← h.get]
    rfl
  count word hw := by
    rw [callMember_of_ofName? (m := .count) [] (Method.ofName?_eq_some.mpr hw), keys,
      List.length_map]
    rfl
  keys word hw := by
    rw [callMember_of_ofName? (m := .keys) [] (Method.ofName?_eq_some.mpr hw)]
    exact ⟨_, _, rfl, array_push_size s.heap _⟩
  items word hw := by
    rw [callMember_of_ofName? (m := .items) [] (Method.ofName?_eq_some.mpr hw)]
    refine ⟨_, _, rfl, ?_⟩
    simp only [← h.get]
    rw [← values_eq h.nodup]
    exact array_push_size s.heap _
  index_fails _ _ _ _ := applyValue_fails
  method_fails _ args _ _ := callMember_fails args s
  assignment_fails _ _ _ _ _ := write_fails

theorem History.answers {id : Nat} {log : List Event} {s : State} (history : History id log s) :
    Answers id log s := by
  obtain ⟨d, hd, reflects⟩ := history.reflects
  have same : s.heap.dictionary id = d := by
    rw [Heap.dictionary, Array.getD_eq_getD_getElem?, hd]
    rfl
  exact Reflects.answers (same ▸ reflects)

/-- A dictionary is an ordered map. At the end of each of its histories it answers as the log says;
and whatever is executed then, at each moment of it the history has gone on, and the dictionary
answers as the longer log says. -/
theorem answers_as_ordered_map {id : Nat} {log : List Event} {s : State}
    (history : History id log s) :
    Answers id log s ∧ ∀ (x : Control.Execution) (n : Nat), ∃ later,
      History id (log ++ later) (x.moment s n).state ∧ Answers id (log ++ later)
        (x.moment s n).state := by
  refine ⟨history.answers, fun x n ↦ ?_⟩
  obtain ⟨later, continued⟩ := history.moment x n
  exact ⟨later, continued, continued.answers⟩

/-- A key that is stored again keeps its place; one that is removed and stored again comes last. -/
theorem answers_as_ordered_map_again :
    let log : List Event :=
      [.stored "a" (.text "1"), .stored "b" (.text "2"), .stored "a" (.text "3"), .removed "a",
        .stored "a" .empty]
    ∃ s, History 0 log s ∧ Answers 0 log s ∧ (s.heap.dictionary 0).keys = ["b", "a"] := by
  intro log
  let made := (Machine.onHeap Heap.Action.newDictionary).final State.initial
  let held := { made with env := made.env.assign "d" (.dictionary 0) }
  have start : History 0 [] held := (History.new State.initial rfl).elsewhere held rfl
  -- ADD with two arguments
  let s₁ := (Machine.callMember (.dictionary 0) "ADD" [.text "a", .text "1"]).final held
  have first := start.method "ADD" [.text "a", .text "1"]
  -- d("b") = "2"
  let s₂ := (Machine.assignTo (Machine.eval 1) (.call (.name "d") [.text "b"]) (.text "2")).final s₁
  have bound : s₁.env.get? "d" = some (.dictionary 0) := by decide +kernel
  have b : Machine.evalAll (Machine.eval 1) [.text "b"] s₁ = .ok [.text "b"] s₁ := rfl
  have second := History.assign (Machine.eval 1) (.name bound) b first (.text "2")
  -- d.item("a") = "3"
  have d : Machine.eval 1 (.name "d") s₂ = .ok (.dictionary 0) s₂ := rfl
  have a : Machine.evalAll (Machine.eval 1) [.text "a"] s₂ = .ok [.text "a"] s₂ := rfl
  have item : Text.sameWord "Item" "item" := by decide +kernel
  have third := History.assign (Machine.eval 1) (.item item d) a second (.text "3")
  -- and by a host
  have history : History 0 log _ := (third.host (.removed "a")).host (.stored "a" .empty)
  exact ⟨_, history, (answers_as_ordered_map history).1, by decide +kernel⟩

end MiniBasic.Dictionary
