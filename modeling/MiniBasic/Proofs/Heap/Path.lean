import MiniBasic.Proofs.Control.Growth

/-!
# Writing along a path

A write with several indices walks from array to array as long as it finds arrays. Where it finds
none it puts a new array in the place, and from there on it meets new arrays only. Each index is
checked when the walk comes to it, and nothing is taken back when one is refused. So a write that
fails has changed nothing, or it has put one new array into one array that it had come to.
-/

namespace MiniBasic.Heap

open MiniBasic.Heap.Action

/-- The indices lead from array to array, through elements that are arrays already. -/
inductive Leads (h : Heap) : Nat → List Value → Nat → Prop
  | nil (id : Nat) : Leads h id [] id
  | cons {id i inner target : Nat} {index : Value} {rest : List Value}
    (checked : writeIndex index = .ok i) (there : h.element? id i = some (.array inner))
    (more : Leads h inner rest target) :
    Leads h id (index :: rest) target

/-- The element of an array is no array, or there is no such element. -/
def Lacks (h : Heap) (id i : Nat) : Prop :=
  ∀ inner, h.element? id i ≠ some (.array inner)

/-- The heap with a new array as the element of another one. -/
def withInner (h : Heap) (id i : Nat) : Heap :=
  { h with arrays := (h.arrays.push #[]).modify id (writeElement · i (.array h.arrays.size)) }

/-- Of what the first heap holds, only one element of one array is different in the second: it was
no array, and a new array has taken its place. -/
structure Opened (h : Heap) (id i : Nat) (h' : Heap) : Prop where
  lacked : h.Lacks id i
  here : id < h.arrays.size →
    h'.arrays[id]? = some (writeElement (h.array id) i (.array h.arrays.size))
  others : ∀ k < h.arrays.size, k ≠ id → h'.arrays[k]? = h.arrays[k]?
  dictionaries : h'.dictionaries = h.dictionaries
  collections : h'.collections = h.collections

/-- The dictionaries and collections and the first `n` arrays are the same. -/
structure SameBelow (n : Nat) (h h' : Heap) : Prop where
  dictionaries : h'.dictionaries = h.dictionaries
  collections : h'.collections = h.collections
  arrays : ∀ id < n, h'.arrays[id]? = h.arrays[id]?

/-- The arrays from number `n` on hold no array below it. -/
def Apart (n : Nat) (h : Heap) : Prop :=
  ∀ ⦃id i inner⦄, n ≤ id → h.element? id i = some (.array inner) → n ≤ inner

theorem SameBelow.refl (n : Nat) (h : Heap) : SameBelow n h h :=
  ⟨rfl, rfl, fun _ _ ↦ rfl⟩

theorem SameBelow.trans {n : Nat} {h h' h'' : Heap} (first : SameBelow n h h')
    (second : SameBelow n h' h'') :
    SameBelow n h h'' :=
  ⟨second.dictionaries.trans first.dictionaries, second.collections.trans first.collections,
    fun id small ↦ (second.arrays id small).trans (first.arrays id small)⟩

/-! ## Single writes -/

/-- An element after a write is the one written, one that the array has grown by, or was there
before. -/
theorem writeElement_cases {items : Array Value} {i j : Nat} {v w : Value}
    (found : (writeElement items i v)[j]? = some w) : w = v ∨ w = .empty ∨ items[j]? = some w := by
  unfold writeElement at found
  split at found
  · rw [Array.getElem?_setIfInBounds] at found
    grind
  · rw [Array.getElem?_push, Array.getElem?_append, Array.getElem?_replicate] at found
    grind

theorem lt_of_writeIndex {index : Value} {i : Nat} (checked : writeIndex index = .ok i) :
    i < maxArrayLength := by
  rcases writeIndex_cases index with ⟨-, j, small, accepted⟩ | ⟨-, refused⟩
  · rw [accepted] at checked
    cases checked
    exact small
  · rw [refused] at checked
    cases checked

theorem setElement_ok {index : Value} {i : Nat} (checked : writeIndex index = .ok i) (id : Nat)
    (v : Value) (h : Heap) :
    setElement id i v h = .ok () { h with arrays := h.arrays.modify id (writeElement · i v) } := by
  rw [setElement, if_pos (lt_of_writeIndex checked)]
  rfl

theorem writePath_last {last : Value} {i : Nat} (checked : writeIndex last = .ok i) (v : Value)
    (id : Nat) (h : Heap) :
    writePath v last id [] h = .ok ()
      { h with arrays := h.arrays.modify id (writeElement · i v) } := by
  rw [writePath, checked]
  exact setElement_ok checked id v h

theorem sameBelow_setElement {n id : Nat} (beyond : n ≤ id) (i : Nat) (v : Value) (h : Heap) :
    SameBelow n h { h with arrays := h.arrays.modify id (writeElement · i v) } := by
  refine ⟨rfl, rfl, fun k small ↦ ?_⟩
  rw [Array.getElem?_modify, if_neg (by omega)]

/-! ## One index of a path -/

section Step

variable {v last index : Value} {rest : List Value} {id i inner : Nat} {h : Heap} {e : RuntimeError}

theorem writePath_last_refused (refused : writeIndex last = .error e) :
    writePath v last id [] h = .error e h := by
  rw [writePath, refused]
  rfl

theorem writePath_refused (refused : writeIndex index = .error e) :
    writePath v last id (index :: rest) h = .error e h := by
  rw [writePath, refused]
  rfl

theorem writePath_array (checked : writeIndex index = .ok i)
    (there : h.element? id i = some (.array inner)) :
    writePath v last id (index :: rest) h = writePath v last inner rest h := by
  rw [writePath, checked, bind_ok (rfl : ofExcept (.ok i) h = .ok i h),
    bind_ok (rfl : (get : Action Heap) h = .ok h h), there]

theorem writePath_opened (checked : writeIndex index = .ok i) (lacks : h.Lacks id i) :
    writePath v last id (index :: rest) h = writePath v last h.arrays.size rest
      (h.withInner id i) := by
  rw [writePath, checked, bind_ok (rfl : ofExcept (.ok i) h = .ok i h),
    bind_ok (rfl : (get : Action Heap) h = .ok h h)]
  have inserted : (do
      let inner ← allocArray #[]
      setElement id i (.array inner)
      writePath v last inner rest) h = writePath v last h.arrays.size rest (h.withInner id i) := by
    rw [bind_ok (rfl : allocArray #[] h = .ok h.arrays.size { h with arrays := h.arrays.push #[] }),
      bind_ok (setElement_ok checked id _ _)]
    rfl
  cases found : h.element? id i with
  | none => exact inserted
  | some element =>
    cases element with
    | array inner => exact absurd found (lacks inner)
    | _ => exact inserted

/-- What a path can meet at its first index. -/
theorem step_cases (h : Heap) (id : Nat) (index : Value) :
    (∃ e, writeIndex index = .error e) ∨ ∃ i, writeIndex index = .ok i ∧
      (h.Lacks id i ∨ ∃ inner, h.element? id i = some (.array inner)) := by
  cases checked : writeIndex index with
  | error e => exact .inl ⟨e, rfl⟩
  | ok i =>
    refine .inr ⟨i, rfl, ?_⟩
    by_cases there : ∃ inner, h.element? id i = some (.array inner)
    · exact .inr there
    · exact .inl fun inner found ↦ there ⟨inner, found⟩

end Step

/-! ## New arrays -/

theorem le_size_withInner {n : Nat} {h : Heap} (size : n ≤ h.arrays.size) (id i : Nat) :
    n ≤ (h.withInner id i).arrays.size := by
  rw [withInner, Array.size_modify, Array.size_push]
  exact Nat.le_succ_of_le size

theorem getElem?_withInner (h : Heap) (id i k : Nat) :
    (h.withInner id i).arrays[k]? =
      if id = k then (h.arrays.push #[])[k]?.map (writeElement · i (.array h.arrays.size))
      else (h.arrays.push #[])[k]? :=
  Array.getElem?_modify ..

theorem getElem?_withInner_of_ne {h : Heap} {id k : Nat} (other : k ≠ id) (size : k < h.arrays.size)
    (i : Nat) :
    (h.withInner id i).arrays[k]? = h.arrays[k]? := by
  rw [getElem?_withInner, if_neg other.symm, Array.getElem?_push, if_neg (Nat.ne_of_lt size)]

theorem getElem?_withInner_self {h : Heap} {id : Nat} (size : id < h.arrays.size) (i : Nat) :
    (h.withInner id i).arrays[id]? = some (writeElement (h.array id) i (.array h.arrays.size)) := by
  rw [getElem?_withInner, if_pos rfl, Array.getElem?_push, if_neg (Nat.ne_of_lt size), array,
    Array.getD_eq_getD_getElem?, Array.getElem?_eq_getElem size]
  rfl

/-- The elements of a heap with a new array are that array, those that another array has grown by,
and the old ones. -/
theorem element?_withInner_cases {h : Heap} {id i k j : Nat} {w : Value}
    (found : (h.withInner id i).element? k j = some w) :
    w = .array h.arrays.size ∨ w = .empty ∨ h.element? k j = some w := by
  have pushed : (h.arrays.push #[]).getD k #[] = h.array k := by
    rw [array, Array.getD_eq_getD_getElem?, Array.getD_eq_getD_getElem?, Array.getElem?_push]
    split
    next last => rw [last, Array.getElem?_eq_none (Nat.le_refl _)]; rfl
    next => rfl
  rw [element?, array, Array.getD_eq_getD_getElem?, getElem?_withInner] at found
  split at found
  · cases there : (h.arrays.push #[])[k]? with
    | none =>
      rw [there] at found
      cases found
    | some items =>
      have same : items = h.array k := by
        rw [← pushed, Array.getD_eq_getD_getElem?, there]
        rfl
      rw [there] at found
      cases same
      exact writeElement_cases found
  · rw [← Array.getD_eq_getD_getElem?, pushed] at found
    exact .inr (.inr found)

theorem sameBelow_withInner {n id : Nat} {h : Heap} (beyond : n ≤ id) (size : n ≤ h.arrays.size)
    (i : Nat) :
    SameBelow n h (h.withInner id i) :=
  ⟨rfl, rfl, fun k small ↦ getElem?_withInner_of_ne (by omega) (by omega) i⟩

theorem Apart.withInner {n : Nat} {h : Heap} (apart : Apart n h) (size : n ≤ h.arrays.size)
    (id i : Nat) :
    Apart n (h.withInner id i) := by
  intro k j inner large found
  rcases element?_withInner_cases found with new | grown | old
  · cases new
    exact size
  · cases grown
  · exact apart large old

theorem apart_size (h : Heap) : Apart h.arrays.size h := by
  intro id i inner large found
  have missing : h.array id = #[] := by
    rw [array, Array.getD_eq_getD_getElem?, Array.getElem?_eq_none large]
    rfl
  rw [element?, missing] at found
  cases found

/-- A write that starts among arrays apart from the others changes none of the others. -/
theorem sameBelow_writePath {n id : Nat} {h : Heap} (beyond : n ≤ id) (size : n ≤ h.arrays.size)
    (apart : Apart n h) (v last : Value) (path : List Value) :
    SameBelow n h ((writePath v last id path).after h) := by
  induction path generalizing id h with
  | nil =>
    cases checked : writeIndex last with
    | error e =>
      rw [after, writePath_last_refused checked]
      exact .refl n h
    | ok i =>
      rw [after, writePath_last checked]
      exact sameBelow_setElement beyond i v h
  | cons index rest ih =>
    rcases step_cases h id index with ⟨e, refused⟩ | ⟨i, checked, lacks | ⟨inner, there⟩⟩
    · rw [after, writePath_refused refused]
      exact .refl n h
    · rw [after, writePath_opened checked lacks, ← after]
      have larger := le_size_withInner size id i
      exact (sameBelow_withInner beyond size i).trans (ih size larger (apart.withInner size id i))
    · rw [after, writePath_array checked there, ← after]
      exact ih (apart beyond there) size apart

theorem opened_writePath {h : Heap} {id i : Nat} (lacks : h.Lacks id i) (v last : Value)
    (path : List Value) :
    h.Opened id i ((writePath v last h.arrays.size path).after (h.withInner id i)) := by
  have larger := le_size_withInner (Nat.le_refl h.arrays.size) id i
  have same :=
    sameBelow_writePath (Nat.le_refl _) larger (h.apart_size.withInner (Nat.le_refl _) id i)
      v last path
  exact {
    lacked := lacks
    here := fun size ↦ (same.arrays id size).trans (getElem?_withInner_self size i)
    others := fun k size other ↦ (same.arrays k size).trans (getElem?_withInner_of_ne other size i)
    dictionaries := same.dictionaries
    collections := same.collections }

/-! ## Failed writes -/

theorem eq_or_opened_of_writePath_error {v last : Value} {path : List Value} {id : Nat}
    {h h' : Heap} {e : RuntimeError} (failed : writePath v last id path h = .error e h') :
    h' = h ∨ ∃ before index rest target i, path = before ++ index :: rest ∧
      h.Leads id before target ∧
      writeIndex index = .ok i ∧ h.Opened target i h' := by
  induction path generalizing id with
  | nil =>
    cases checked : writeIndex last with
    | error e =>
      rw [writePath_last_refused checked] at failed
      cases failed
      exact .inl rfl
    | ok i =>
      rw [writePath_last checked] at failed
      cases failed
  | cons index rest ih =>
    rcases step_cases h id index with ⟨e, refused⟩ | ⟨i, checked, lacks | ⟨inner, there⟩⟩
    · rw [writePath_refused refused] at failed
      cases failed
      exact .inl rfl
    · have final := opened_writePath lacks v last rest
      rw [writePath_opened checked lacks] at failed
      rw [after, failed] at final
      exact .inr ⟨[], index, rest, id, i, rfl, .nil id, checked, final⟩
    · rw [writePath_array checked there] at failed
      rcases ih failed with same | ⟨before, index', rest', target, j, rfl, leads, checked', final⟩
      · exact .inl same
      · exact .inr ⟨index :: before, index', rest', target, j, rfl, .cons checked there leads,
          checked', final⟩

/-- A write that fails has changed nothing, or it is a write into an array with an index behind the
one where it has put a new array. -/
theorem eq_or_opened_of_write_error {name : String} {container : Value} {indices : List Value}
    {v : Value} {h h' : Heap} {e : RuntimeError}
    (failed : write name container indices v h = .error e h') :
    h' = h ∨ ∃ root before index behind target i, container = .array root ∧
      indices = before ++ index :: behind ∧
      behind ≠ [] ∧ h.Leads root before target ∧ writeIndex index = .ok i ∧
      h.Opened target i h' := by
  have unchanged (e' : RuntimeError) (failed : (throw e' : Action Unit) h = .error e h') :
      h' = h := by
    cases failed
    rfl
  cases container with
  | array root =>
    unfold write at failed
    cases hlast : indices.getLast? with
    | none =>
      rw [hlast] at failed
      exact .inl (unchanged _ failed)
    | some last =>
      rw [hlast] at failed
      rcases eq_or_opened_of_writePath_error failed with
        same | ⟨before, index, rest, target, i, path, leads, checked, final⟩
      · exact .inl same
      · have split : indices = before ++ index :: (rest ++ [last]) := by
          rw [← List.dropLast_append_getLast? _ hlast, path, List.append_assoc, List.cons_append]
        exact .inr ⟨root, before, index, rest ++ [last], target, i, rfl, split,
          by simp, leads, checked, final⟩
  | dictionary id =>
    unfold write at failed
    cases key : onlyIndex name indices with
    | error e' =>
      rw [key] at failed
      exact .inl (unchanged e' failed)
    | ok index =>
      rw [key] at failed
      cases failed
  | _ => exact .inl (unchanged _ failed)

/-- `a(0, 2, 1, -1) = True` where `a(0)` is an array with one element: that array grows and gets a
new array. -/
theorem eq_or_opened_of_write_error_nested :
    ∃ h', write "a" (.array 0) [.number 0, .number 2, .number 1, .number (-1)] (.boolean true)
        ⟨#[#[.array 1], #[.empty]], #[], #[]⟩ = .error (.indexOutOfRange (-1)) h' ∧
      h'.arrays = #[#[.array 1], #[.empty, .empty, .array 2], #[.empty, .array 3], #[]] ∧
      (h' = ⟨#[#[.array 1], #[.empty]], #[], #[]⟩ ∨ ∃ root before index behind target i,
        Value.array 0 = .array root ∧
        [Value.number 0, .number 2, .number 1, .number (-1)] = before ++ index :: behind ∧
        behind ≠ [] ∧
        Leads ⟨#[#[.array 1], #[.empty]], #[], #[]⟩ root before target ∧ writeIndex index = .ok i ∧
        Opened ⟨#[#[.array 1], #[.empty]], #[], #[]⟩ target i h') := by
  have failed : write "a" (.array 0) [.number 0, .number 2, .number 1, .number (-1)] (.boolean true)
      ⟨#[#[.array 1], #[.empty]], #[], #[]⟩ = .error (.indexOutOfRange (-1))
        ⟨#[#[.array 1], #[.empty, .empty, .array 2], #[.empty, .array 3], #[]], #[], #[]⟩ := rfl
  exact ⟨_, failed, rfl, eq_or_opened_of_write_error failed⟩

/-- `a(0, -1) = 5` fails, and the first element of `a` has become an array. -/
theorem array_changes_in_failed_write :
    ∃ h', write "a" (.array 0) [.number 0, .number (-1)] (.number 5)
      ⟨#[#[.empty, .empty, .empty]], #[], #[]⟩ =
      .error (.indexOutOfRange (-1)) h' ∧ h'.array 0 = #[.array 1, .empty, .empty] :=
  ⟨⟨#[#[.array 1, .empty, .empty], #[]], #[], #[]⟩, rfl, rfl⟩

end MiniBasic.Heap
