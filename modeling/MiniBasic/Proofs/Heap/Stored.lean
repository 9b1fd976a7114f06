import MiniBasic.Proofs.Heap.Path

/-!
# Writes that succeed

A write with several indices ends by storing the value: in the array that the indices before the
last lead to, or, if one of them has led to no array, in the last of the new arrays. Of what was
there before, only one element of one array is affected. Reading takes the same way, as long as that
one element is not on it a second time.
-/

namespace MiniBasic.Heap

open MiniBasic.Heap.Action

/-- The arrays that are met on the way along indices. -/
def met (h : Heap) : Nat → List Value → List Nat
  | id, [] => [id]
  | id, index :: rest =>
    id ::
      match h.readElement id index with
      | .array inner => met h inner rest
      | _ => []

/-- Of what the first heap holds, at most one element of one array is different in the second, and
the array may have grown by empty elements in front of it. -/
structure StoredAt (h : Heap) (target i : Nat) (w : Value) (h' : Heap) : Prop where
  present : target < h.arrays.size
  elements : ∀ j, h'.element? target j =
    if j = i then some w else if (h.array target).size ≤ j ∧ j < i then some .empty
      else h.element? target j
  others : ∀ k < h.arrays.size, k ≠ target → h'.arrays[k]? = h.arrays[k]?
  dictionaries : h'.dictionaries = h.dictionaries
  collections : h'.collections = h.collections

/-! ## Elements -/

theorem getElem?_writeElement (items : Array Value) (i j : Nat) (v : Value) :
    (writeElement items i v)[j]? =
      if j = i then some v else if items.size ≤ j ∧ j < i then some .empty else items[j]? := by
  unfold writeElement
  split
  · rw [Array.getElem?_setIfInBounds]
    grind
  · rw [Array.getElem?_push, Array.getElem?_append, Array.getElem?_replicate]
    grind

theorem writeIndex_eq_ok {index : Value} {i : Nat} :
    writeIndex index = .ok i ↔ readIndex index = some i ∧ i < maxArrayLength := by
  unfold writeIndex
  cases readIndex index with
  | none => simp
  | some j =>
    dsimp only
    split <;> grind

theorem lt_size_of_element? {h : Heap} {id i : Nat} {v : Value}
    (element : h.element? id i = some v) :
    i < (h.array id).size := by
  rw [element?] at element
  exact (Array.getElem?_eq_some_iff.mp element).1

theorem readElement_of_checked {index : Value} {i : Nat} (checked : writeIndex index = .ok i)
    (h : Heap) (id : Nat) :
    h.readElement id index = (h.element? id i).getD .empty := by
  rw [readElement, (writeIndex_eq_ok.mp checked).1]
  rfl

theorem array_of_getElem? {h : Heap} {id : Nat} {items : Array Value}
    (there : h.arrays[id]? = some items) :
    h.array id = items := by
  rw [array, Array.getD_eq_getD_getElem?, there]
  rfl

theorem array_congr {h h' : Heap} {id : Nat} (same : h'.arrays[id]? = h.arrays[id]?) :
    h'.array id = h.array id := by
  rw [array, array, Array.getD_eq_getD_getElem?, Array.getD_eq_getD_getElem?, same]

theorem readElement_congr {h h' : Heap} {id : Nat} (same : h'.array id = h.array id)
    (index : Value) :
    h'.readElement id index = h.readElement id index := by
  have elements : h'.element? id = h.element? id := by
    funext i
    rw [element?, element?, same]
  rw [readElement, readElement, elements]

/-! ## Arrays on the way -/

theorem mem_met_self (h : Heap) (id : Nat) (path : List Value) : id ∈ h.met id path := by
  cases path with
  | nil => exact List.mem_singleton_self id
  | cons index rest => exact List.mem_cons_self

theorem met_cons_of_array {h : Heap} {id inner : Nat} {index : Value}
    (there : h.readElement id index = .array inner) (rest : List Value) :
    h.met id (index :: rest) = id :: h.met inner rest := by
  rw [met, there]

theorem met_of_empty {h : Heap} {id : Nat} (bare : h.array id = #[]) (path : List Value) :
    h.met id path = [id] := by
  cases path with
  | nil => rfl
  | cons index rest =>
    have nothing : h.readElement id index = .empty := by
      rw [readElement]
      cases readIndex index with
      | none => rfl
      | some i =>
        rw [Option.bind_some, element?, bare]
        rfl
    rw [met, nothing]

theorem lt_size_withInner (h : Heap) (id i : Nat) :
    h.arrays.size < (h.withInner id i).arrays.size := by
  rw [withInner, Array.size_modify, Array.size_push]
  exact Nat.lt_succ_self _

theorem array_withInner_size {h : Heap} {id : Nat} (present : id < h.arrays.size) (i : Nat) :
    (h.withInner id i).array h.arrays.size = #[] := by
  apply array_of_getElem?
  rw [getElem?_withInner, if_neg (Nat.ne_of_lt present), Array.getElem?_push_size]

/-! ## What is stored -/

theorem storedAt_of_writeElement {h h' : Heap} {target i : Nat} {w : Value}
    (present : target < h.arrays.size)
    (here : h'.arrays[target]? = some (writeElement (h.array target) i w))
    (others : ∀ k < h.arrays.size, k ≠ target → h'.arrays[k]? = h.arrays[k]?)
    (dictionaries : h'.dictionaries = h.dictionaries)
    (collections : h'.collections = h.collections) :
    h.StoredAt target i w h' where
  present := present
  elements j := by
    rw [element?, array_of_getElem? here, getElem?_writeElement]
    rfl
  others := others
  dictionaries := dictionaries
  collections := collections

theorem getElem?_setElement {h : Heap} {target : Nat} (present : target < h.arrays.size) (i : Nat)
    (w : Value) :
    (h.arrays.modify target (writeElement · i w))[target]? =
      some (writeElement (h.array target) i w) := by
  rw [Array.getElem?_modify, if_pos rfl, Array.getElem?_eq_getElem present, array,
    Array.getD_eq_getD_getElem?, Array.getElem?_eq_getElem present]
  rfl

theorem storedAt_setElement {h : Heap} {target : Nat} (present : target < h.arrays.size) (i : Nat)
    (w : Value) :
    h.StoredAt target i w { h with arrays := h.arrays.modify target (writeElement · i w) } := by
  refine storedAt_of_writeElement present (getElem?_setElement present i w)
    (fun k _ other ↦ ?_) rfl rfl
  rw [Array.getElem?_modify, if_neg other.symm]

theorem Opened.storedAt {h h' : Heap} {target i : Nat} (opened : h.Opened target i h')
    (present : target < h.arrays.size) : h.StoredAt target i (.array h.arrays.size) h' :=
  storedAt_of_writeElement present (opened.here present)
    opened.others opened.dictionaries opened.collections

/-- The array changes, unless the value was there already. -/
theorem StoredAt.array_eq_iff {h h' : Heap} {target i : Nat} {w : Value}
    (stored : h.StoredAt target i w h') :
    h'.array target = h.array target ↔ h.element? target i = some w := by
  constructor
  · intro same
    have here := stored.elements i
    rw [if_pos rfl, element?, same] at here
    exact here
  · intro already
    have inside := lt_size_of_element? already
    apply Array.ext_getElem?
    intro j
    have element := stored.elements j
    rw [element?] at element
    rw [element]
    split
    next here => rw [here, ← already, element?]
    next => rw [if_neg (by omega), element?]

theorem write_append (name : String) (root : Nat) (path : List Value) (last v : Value) :
    write name (.array root) (path ++ [last]) v = writePath v last root path := by
  unfold write
  dsimp only
  rw [List.getLast?_concat, List.dropLast_concat]

/-- What a write stores, and where: the value itself behind indices that lead through arrays, or a
new array in the first place where there was none. -/
theorem exists_storedAt_of_writePath {v last : Value} {path : List Value} {id : Nat} {h h' : Heap}
    (present : ∀ k ∈ h.met id path, k < h.arrays.size)
    (done : writePath v last id path h = .ok () h') :
    ∃ before index behind target i w, path ++ [last] = before ++ index :: behind ∧
      h.Leads id before target ∧
      target ∈ h.met id path ∧ writeIndex index = .ok i ∧
      (behind = [] ∧ w = v ∨ behind ≠ [] ∧ h.Lacks target i ∧ w = .array h.arrays.size) ∧
      h.StoredAt target i w h' := by
  induction path generalizing id with
  | nil =>
    cases checked : writeIndex last with
    | error e =>
      rw [writePath_last_refused checked] at done
      cases done
    | ok i =>
      rw [writePath_last checked] at done
      cases done
      have here := h.mem_met_self id []
      exact ⟨[], last, [], id, i, v, rfl, .nil id, here, checked, .inl ⟨rfl, rfl⟩,
        storedAt_setElement (present id here) i v⟩
  | cons index rest ih =>
    rcases step_cases h id index with ⟨e, refused⟩ | ⟨i, checked, lacks | ⟨inner, there⟩⟩
    · rw [writePath_refused refused] at done
      cases done
    · have here := h.mem_met_self id (index :: rest)
      have opened := opened_writePath lacks v last rest
      rw [writePath_opened checked lacks] at done
      rw [after, done] at opened
      exact ⟨[], index, rest ++ [last], id, i, _, rfl, .nil id, here, checked,
        .inr ⟨by simp, lacks, rfl⟩, opened.storedAt (present id here)⟩
    · have way := h.readElement_of_checked checked id
      rw [there] at way
      rw [met_cons_of_array way] at present ⊢
      rw [writePath_array checked there] at done
      obtain ⟨before, index', behind, target, j, w, split, leads, mem, checked', what, stored⟩ :=
        ih (fun k hk ↦ present k (List.mem_cons_of_mem id hk)) done
      refine ⟨index :: before, index', behind, target, j, w, ?_, .cons checked there leads,
        List.mem_cons_of_mem id mem, checked', what, stored⟩
      rw [List.cons_append, split, List.cons_append]

/-- What has been written along a path of different arrays is read along it. -/
theorem readPath_of_writePath {v last : Value} {path : List Value} {id : Nat} {h h' : Heap}
    (present : ∀ k ∈ h.met id path, k < h.arrays.size) (distinct : (h.met id path).Nodup)
    (done : writePath v last id path h = .ok () h') (called : String) :
    h'.readPath called (.array id) (path ++ [last]) = .ok v := by
  induction path generalizing id h with
  | nil =>
    cases checked : writeIndex last with
    | error e =>
      rw [writePath_last_refused checked] at done
      cases done
    | ok i =>
      rw [writePath_last checked] at done
      cases done
      have stored := storedAt_setElement (present id (h.mem_met_self id [])) i v
      rw [List.nil_append, readPath, readElement_of_checked checked, stored.elements, if_pos rfl]
      rfl
  | cons index rest ih =>
    rcases step_cases h id index with ⟨e, refused⟩ | ⟨i, checked, lacks | ⟨inner, there⟩⟩
    · rw [writePath_refused refused] at done
      cases done
    · -- from the new array on the arrays on the way are new as well
      have inside := present id (h.mem_met_self id _)
      have opened := opened_writePath lacks v last rest
      rw [writePath_opened checked lacks] at done
      rw [after, done] at opened
      have way : h'.readElement id index = .array h.arrays.size := by
        rw [readElement_of_checked checked, (opened.storedAt inside).elements, if_pos rfl]
        rfl
      have only := met_of_empty (array_withInner_size inside i) rest
      rw [List.cons_append, readPath, way]
      apply ih _ _ done
      · intro k hk
        rw [only] at hk
        rw [List.mem_singleton.mp hk]
        exact h.lt_size_withInner id i
      · rw [only]
        simp
    · have way := h.readElement_of_checked checked id
      rw [there] at way
      rw [met_cons_of_array way] at present distinct
      obtain ⟨first, distinct⟩ := List.nodup_cons.mp distinct
      have present' : ∀ k ∈ h.met inner rest, k < h.arrays.size :=
        fun k hk ↦ present k (List.mem_cons_of_mem id hk)
      rw [writePath_array checked there] at done
      obtain ⟨_, _, _, target, _, _, _, _, mem, _, _, stored⟩ :=
        exists_storedAt_of_writePath present' done
      have same : h'.array id = h.array id := by
        apply array_congr
        apply stored.others id (present id List.mem_cons_self)
        rintro rfl
        exact first mem
      rw [List.cons_append, readPath, readElement_congr same, way]
      exact ih present' distinct done

/-- A write into an array that succeeds stores in one place: of all that was there before, at most
one element of one array is different afterwards. It is the value that is stored there if the
indices before the last lead through arrays; else it is a new array, in the first place where there
was none. And if the arrays on the way are different ones, the same indices read the value. (The
arrays on the way are in the heap, as all arrays are that a value names.) -/
theorem write_stores {name : String} {root : Nat} {indices : List Value} {v : Value} {h h' : Heap}
    (present : ∀ k ∈ h.met root indices.dropLast, k < h.arrays.size)
    (done : write name (.array root) indices v h = .ok () h') :
    (∃ before index behind target i w, indices = before ++ index :: behind ∧
      h.Leads root before target ∧
        writeIndex index = .ok i ∧
        (behind = [] ∧ w = v ∨ behind ≠ [] ∧ h.Lacks target i ∧ w = .array h.arrays.size) ∧
        h.StoredAt target i w h' ∧
        (h'.array target = h.array target ↔ h.element? target i = some w)) ∧
      ((h.met root indices.dropLast).Nodup → ∀ called, h'.read called (.array root) indices =
        .ok v) := by
  rcases List.eq_nil_or_concat' indices with rfl | ⟨path, last, rfl⟩
  · cases done
  rw [write_append] at done
  rw [List.dropLast_concat] at present ⊢
  constructor
  · obtain ⟨before, index, behind, target, i, w, parts, leads, -, checked, what, stored⟩ :=
      exists_storedAt_of_writePath present done
    exact ⟨before, index, behind, target, i, w, parts, leads, checked, what, stored,
      stored.array_eq_iff⟩
  · intro distinct called
    exact readPath_of_writePath present distinct done called

/-- `a(1, "2", 3) = "x"` where `a(0)` and `a(1)` are one array, which holds `a` again: that array
gets a new array as its third element, and nothing else is touched. -/
theorem write_stores_cyclic :
    let h : Heap := ⟨#[#[.array 1, .array 1], #[.array 0]], #[], #[]⟩
    let indices : List Value := [.number 1, .text "2", .number 3]
    ∃ h', write "a" (.array 0) indices (.text "x") h = .ok () h' ∧ h.met 0 indices.dropLast =
      [0, 1] ∧
      (∃ before index behind target i w, indices = before ++ index :: behind ∧
        h.Leads 0 before target ∧
        writeIndex index = .ok i ∧
        (behind = [] ∧ w = .text "x" ∨ behind ≠ [] ∧ h.Lacks target i ∧ w = .array h.arrays.size) ∧
        h.StoredAt target i w h' ∧
        (h'.array target = h.array target ↔ h.element? target i = some w)) ∧
      h'.read "a" (.array 0) indices = .ok (.text "x") := by
  intro h indices
  have done : write "a" (.array 0) indices (.text "x") h =
      .ok ()
        ⟨#[#[.array 1, .array 1], #[.array 0, .empty, .array 2],
          #[.empty, .empty, .empty, .text "x"]], #[], #[]⟩ := rfl
  have way : h.met 0 indices.dropLast = [0, 1] := rfl
  have present : ∀ k ∈ h.met 0 indices.dropLast, k < h.arrays.size := by
    rw [way]
    decide
  obtain ⟨place, reads⟩ := write_stores present done
  exact ⟨_, done, way, place, reads (by rw [way]; decide) "a"⟩

end MiniBasic.Heap
