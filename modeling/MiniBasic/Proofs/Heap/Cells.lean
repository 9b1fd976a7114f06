import MiniBasic.Proofs.Heap.Slots

/-!
# The cells of a grid

The elements of the last dimension of a grid are its cells, one for each tuple of indices in range.
Reading with such a tuple gives the value of the cell, and writing changes the cell and no other,
since no two rows are one array. The upper bounds are those of the lengths: the first array in a row
stands for all of them.
-/

namespace MiniBasic.Heap

open MiniBasic.Heap.Action

/-- The whole numbers that values stand for as indices. -/
def tuple? : List Value → Option (List Nat)
  | [] => some []
  | index :: indices => (readIndex index).bind fun i ↦ (tuple? indices).map (i :: ·)

/-- What is at a tuple of indices after writes, each with its indices and its value: the value of
the last write there, or what was there before. -/
def lastAt (writes : List (List Value × Value)) (is : List Nat) (v : Value) : Value :=
  writes.foldl (fun v w ↦ if tuple? w.1 = some is then w.2 else v) v

/-- The array is a grid, and `cell` says what it holds. -/
structure Cells (h : Heap) (lengths : List Nat) (lo hi id : Nat) (cell : List Nat → Value) :
    Prop where
  grid : h.Grid lengths lo hi id
  present : hi ≤ h.arrays.size
  holds : ∀ is, Within is lengths [] → h.at? (.array id) is = some (cell is)

variable {h h' : Heap} {lengths : List Nat} {n lo hi id : Nat}

/-! ## Tuples of indices -/

theorem tuple?_cons_eq_some {index : Value} {indices : List Value} {is : List Nat} :
    tuple? (index :: indices) = some is ↔
      ∃ j js, is = j :: js ∧ readIndex index = some j ∧ tuple? indices = some js := by
  rw [tuple?]
  cases readIndex index with
  | none => simp
  | some i =>
    cases tuple? indices with
    | none => simp
    | some js => simp [eq_comm]

theorem exists_of_tuple?_concat {indices : List Value} {is : List Nat} {i : Nat}
    (tuple : tuple? indices = some (is ++ [i])) :
    ∃ path last, indices = path ++ [last] ∧ tuple? path = some is ∧ readIndex last = some i := by
  induction is generalizing indices with
  | nil =>
    cases indices with
    | nil => cases tuple
    | cons last indices =>
      obtain ⟨j, js, same, read, rest⟩ := tuple?_cons_eq_some.mp tuple
      cases same
      cases indices with
      | nil => exact ⟨[], last, rfl, rfl, read⟩
      | cons index indices =>
        obtain ⟨_, _, same, -⟩ := tuple?_cons_eq_some.mp rest
        cases same
  | cons k is ih =>
    cases indices with
    | nil => cases tuple
    | cons index indices =>
      obtain ⟨j, js, same, read, rest⟩ := tuple?_cons_eq_some.mp tuple
      cases same
      obtain ⟨path, last, rfl, path', last'⟩ := ih rest
      exact ⟨index :: path, last, rfl, tuple?_cons_eq_some.mpr ⟨_, _, rfl, read, path'⟩, last'⟩

theorem Within.lt {is rest : List Nat} (within : Within is lengths rest) {limit : Nat}
    (small : ∀ n ∈ lengths, n ≤ limit) : ∀ i ∈ is, i < limit := by
  induction within with
  | nil _ => simp
  | cons less more ih =>
    intro j hj
    rcases List.mem_cons.mp hj with rfl | hj
    · exact Nat.lt_of_lt_of_le less (small _ List.mem_cons_self)
    · exact ih (fun n hn ↦ small n (List.mem_cons_of_mem _ hn)) j hj

theorem at?_cons_eq_some {v w : Value} {i : Nat} {is : List Nat}
    (there : h.at? v (i :: is) = some w) :
    ∃ id u, v = .array id ∧ h.element? id i = some u ∧ h.at? u is = some w := by
  cases v with
  | array id =>
    rw [at?] at there
    obtain ⟨u, element, onward⟩ := Option.bind_eq_some_iff.mp there
    exact ⟨id, u, rfl, element, onward⟩
  | _ => cases there

/-- Reading with a tuple of indices gives what it leads to. -/
theorem readPath_of_at? {indices : List Value} {is : List Nat} {v w : Value}
    (tuple : tuple? indices = some is) (there : h.at? v is = some w) (called : String) :
    h.readPath called v indices = .ok w := by
  induction indices generalizing is v with
  | nil =>
    cases tuple
    cases there
    rfl
  | cons index indices ih =>
    obtain ⟨j, js, rfl, read, rest⟩ := tuple?_cons_eq_some.mp tuple
    obtain ⟨id, u, rfl, element, onward⟩ := at?_cons_eq_some there
    rw [readPath, readElement, read, Option.bind_some, element]
    exact ih rest onward

/-- A write goes along a tuple of indices, as long as they are below the limit. -/
theorem leads_of_at? {path : List Value} {is : List Nat} {row : Nat} (tuple : tuple? path = some is)
    (small : ∀ i ∈ is, i < maxArrayLength) (there : h.at? (.array id) is = some (.array row)) :
    h.Leads id path row := by
  induction path generalizing is id with
  | nil =>
    cases tuple
    cases there
    exact .nil row
  | cons index path ih =>
    obtain ⟨j, js, rfl, read, rest⟩ := tuple?_cons_eq_some.mp tuple
    obtain ⟨_, u, same, element, onward⟩ := at?_cons_eq_some there
    cases same
    obtain ⟨inner, rfl⟩ : ∃ inner, u = .array inner := by
      cases js with
      | nil =>
        cases onward
        exact ⟨row, rfl⟩
      | cons k js =>
        obtain ⟨inner, _, same, -⟩ := at?_cons_eq_some onward
        exact ⟨inner, same⟩
    have checked := writeIndex_eq_ok.mpr ⟨read, small j List.mem_cons_self⟩
    exact .cons checked element (ih rest (fun i hi ↦ small i (List.mem_cons_of_mem j hi)) onward)

theorem Leads.writePath {before : List Value} {target : Nat} (leads : h.Leads id before target)
    (v last : Value) :
    Action.writePath v last id before h = Action.writePath v last target [] h := by
  induction leads with
  | nil id => rfl
  | cons checked there more ih => rw [writePath_array checked there, ih]

/-! ## Writing -/

/-- An array does not grow by a write inside it. -/
theorem StoredAt.size_eq {target i : Nat} {w : Value} (stored : h.StoredAt target i w h')
    (inside : i < (h.array target).size) : (h'.array target).size = (h.array target).size := by
  have same (j : Nat) : (h'.array target).size ≤ j ↔ (h.array target).size ≤ j := by
    rw [← Array.getElem?_eq_none_iff, ← Array.getElem?_eq_none_iff, ← element?, ← element?,
      stored.elements]
    split
    next here =>
      rw [here, element?]
      simp [inside]
    next => rw [if_neg (by omega)]
  have below := same (h'.array target).size
  have above := same (h.array target).size
  omega

namespace Grid

variable {is : List Nat} {i row : Nat} {v : Value}

section Stored

variable (grid : h.Grid lengths lo hi id) (present : hi ≤ h.arrays.size)
  (last : Within is lengths [n]) (there : h.at? (.array id) is = some (.array row))
  (stored : h.StoredAt row i v h')

include grid present last there stored

/-- A write in a row of the last dimension leaves the other rows alone. -/
theorem array_eq_of_ne {js rest : List Nat} {m other : Nat} (within : Within js lengths (m :: rest))
    (there' : h.at? (.array id) js = some (.array other)) (ne : js ≠ is) :
    h'.array other = h.array other := by
  obtain ⟨row', found, -, high, -⟩ := grid.rows within
  cases there'.symm.trans found
  apply array_congr
  apply stored.others other (Nat.lt_of_lt_of_le high present)
  rintro rfl
  exact ne (grid.distinct within last there' there)

/-- So it leads to the same rows. -/
theorem at?_of_storedAt {js rest : List Nat} {m : Nat} (within : Within js lengths (m :: rest)) :
    h'.at? (.array id) js = h.at? (.array id) js := by
  apply grid.at?_congr within
  intro ks k rest' other within' shorter there'
  apply grid.array_eq_of_ne present last there stored within' there'
  rintro rfl
  have long := last.length_eq
  rw [within.length_eq, List.length_cons, List.length_singleton] at long
  omega

theorem of_storedAt (less : i < n) : h'.Grid lengths lo hi id := by
  have led {js rest : List Nat} {m : Nat} (within : Within js lengths (m :: rest)) :=
    grid.at?_of_storedAt present last there stored within
  constructor
  · intro js m rest within
    obtain ⟨other, there', low, high, size⟩ := grid.rows within
    refine ⟨other, (led within).trans there', low, high, ?_⟩
    by_cases same : js = is
    · subst same
      cases there.symm.trans there'
      obtain ⟨_, found, -, -, size'⟩ := grid.rows last
      cases there.symm.trans found
      rw [stored.size_eq (size'.symm ▸ less), size]
    · rw [grid.array_eq_of_ne present last there stored within there' same, size]
  · intro js ks m k rest rest' other first second there' there''
    rw [led first] at there'
    rw [led second] at there''
    exact grid.distinct first second there' there''

end Stored

end Grid

namespace Cells

variable {cell : List Nat → Value}

/-- A write with a tuple of indices in range changes that cell and no other. -/
theorem write (cells : h.Cells lengths lo hi id cell) (small : ∀ n ∈ lengths, n ≤ maxArrayLength)
    (dimensions : lengths ≠ []) {indices : List Value} {is : List Nat}
    (tuple : tuple? indices = some is) (within : Within is lengths []) (name : String) (v : Value) :
    ∃ h', Action.write name (.array id) indices v h = .ok () h' ∧
      h'.Cells lengths lo hi id fun js ↦ if js = is then v else cell js := by
  obtain ⟨grid, present, holds⟩ := cells
  rcases List.eq_nil_or_concat' is with rfl | ⟨is, i, rfl⟩
  · cases within
    exact absurd rfl dimensions
  obtain ⟨path, last, rfl, before, read⟩ := exists_of_tuple?_concat tuple
  obtain ⟨n, first, less⟩ := within.exists_of_concat
  obtain ⟨row, there, -, high, size⟩ := grid.rows first
  have limits := within.lt small
  have leads := leads_of_at? before (fun j hj ↦ limits j (List.mem_append_left _ hj)) there
  have checked := writeIndex_eq_ok.mpr ⟨read, limits i (by simp)⟩
  have stored := storedAt_setElement (Nat.lt_of_lt_of_le high present) i v
  refine ⟨{ h with arrays := h.arrays.modify row (writeElement · i v) }, ?_,
    grid.of_storedAt present first there stored less, ?_, ?_⟩
  · rw [write_append, leads.writePath, writePath_last checked]
  · rw [Array.size_modify]
    exact present
  · intro js within'
    rcases List.eq_nil_or_concat' js with rfl | ⟨js, j, rfl⟩
    · cases within'
      exact absurd rfl dimensions
    obtain ⟨m, first', less'⟩ := within'.exists_of_concat
    obtain ⟨row', there', -, -, size'⟩ := grid.rows first'
    have led := grid.at?_of_storedAt present first there stored first'
    have old := holds (js ++ [j]) within'
    rw [at?_concat there'] at old
    rw [at?_concat (led.trans there')]
    by_cases same : js = is
    · subst same
      cases there.symm.trans there'
      rw [stored.elements, size']
      split
      next here => rw [here, if_pos rfl]
      next other => rw [if_neg (by omega), if_neg (by simpa using other), old]
    · have other : js ++ [j] ≠ is ++ [i] := fun equal ↦ same (List.append_inj_left' equal rfl)
      rw [if_neg other, element?, grid.array_eq_of_ne present first there stored first' there' same,
        ← element?, old]

/-- After writes with tuples of indices in range every cell holds what was last written to it. -/
theorem writeAll (cells : h.Cells lengths lo hi id cell) (small : ∀ n ∈ lengths, n ≤ maxArrayLength)
    (dimensions : lengths ≠ []) {writes : List (List Value × Value)}
    (inRange : ∀ w ∈ writes, ∃ is, tuple? w.1 = some is ∧ Within is lengths []) (name : String) :
    ∃ h', (writes.forM fun w ↦ Action.write name (.array id) w.1 w.2) h = .ok () h' ∧
      h'.Cells lengths lo hi id fun is ↦ lastAt writes is (cell is) := by
  induction writes generalizing h cell with
  | nil => exact ⟨h, rfl, cells⟩
  | cons w writes ih =>
    obtain ⟨is, tuple, within⟩ := inRange w List.mem_cons_self
    obtain ⟨h₁, first, cells⟩ := cells.write small dimensions tuple within name w.2
    obtain ⟨h', rest, cells⟩ := ih cells fun w hw ↦ inRange w (List.mem_cons_of_mem _ hw)
    refine ⟨h', (bind_ok first).trans rest, cells.grid, cells.present, fun js within' ↦ ?_⟩
    have same : (if tuple? w.1 = some js then w.2 else cell js) = if js = is then w.2
        else cell js := by
      rw [tuple]
      simp [eq_comm]
    rw [cells.holds js within', lastAt, lastAt, List.foldl_cons, same]

theorem bare (cells : h.Cells lengths lo hi id cell) (plain : ∀ is, (cell is).arrayId? = none) :
    h.Bare lengths id := by
  intro is inner within there
  rw [cells.holds is within, Option.some.injEq] at there
  have none := plain is
  rw [there] at none
  cases none

end Cells

theorem arrayId?_lastAt {writes : List (List Value × Value)}
    (plain : ∀ w ∈ writes, w.2.arrayId? = none) {v : Value} (before : v.arrayId? = none)
    (is : List Nat) : (lastAt writes is v).arrayId? = none := by
  induction writes generalizing v with
  | nil => exact before
  | cons w writes ih =>
    rw [lastAt, List.foldl_cons]
    apply ih fun w hw ↦ plain w (List.mem_cons_of_mem _ hw)
    split
    · exact plain w List.mem_cons_self
    · exact before

/-! ## Upper bounds -/

theorem firstInner?_eq (h : Heap) (id : Nat) : h.firstInner? id = (h.inners id).head? := by
  rw [firstInner?, inners, List.head?_filterMap]
  rfl

theorem mem_inners_of_firstInner? {inner : Nat} (first : h.firstInner? id = some inner) :
    inner ∈ h.inners id :=
  List.mem_of_head? ((firstInner?_eq h id).symm.trans first)

namespace Grid

/-- Descending into the first rows meets each dimension, as long as none has the length zero. -/
theorem exists_descend? (grid : h.Grid lengths lo hi id) (positive : 0 ∉ lengths) {level m : Nat}
    (length : lengths[level]? = some m) :
    ∃ row, h.descend? level id = some row ∧ (h.array row).size = m := by
  induction level generalizing lengths id with
  | zero =>
    cases lengths with
    | nil => cases length
    | cons n lengths =>
      cases length
      exact ⟨id, rfl, grid.size_eq⟩
  | succ level ih =>
    rcases lengths with _ | ⟨n, _ | ⟨k, lengths⟩⟩
    · cases length
    · cases length
    · rw [List.mem_cons, not_or] at positive
      have rows := grid.length_inners (List.cons_ne_nil k lengths)
      obtain ⟨inner, first⟩ : ∃ inner, h.firstInner? id = some inner := by
        rw [firstInner?_eq]
        cases found : h.inners id with
        | nil =>
          rw [found] at rows
          exact absurd rows positive.1
        | cons inner inners => exact ⟨inner, rfl⟩
      obtain ⟨i, less, found⟩ := grid.row_of_mem_inners (mem_inners_of_firstInner? first)
      rw [descend?, first]
      exact ih (grid.row less found) positive.2 length

/-- If no cell is an array, there is nothing to descend into behind the last dimension. -/
theorem descend?_eq_none (grid : h.Grid lengths lo hi id) (bare : h.Bare lengths id)
    (dimensions : lengths ≠ []) {level : Nat} (beyond : lengths.length ≤ level) :
    h.descend? level id = none := by
  induction level generalizing lengths id with
  | zero => exact absurd (List.length_eq_zero_iff.mp (Nat.le_zero.mp beyond)) dimensions
  | succ level ih =>
    rw [descend?]
    cases first : h.firstInner? id with
    | none => rfl
    | some inner =>
      have inside := mem_inners_of_firstInner? first
      rcases lengths with _ | ⟨n, _ | ⟨k, lengths⟩⟩
      · exact absurd rfl dimensions
      · rw [grid.inners_eq_nil bare] at inside
        cases inside
      · obtain ⟨i, less, found⟩ := grid.row_of_mem_inners inside
        apply ih (grid.row less found) (bare.row less found) (List.cons_ne_nil k lengths)
        exact Nat.le_of_succ_le_succ beyond

section UpperBound

variable {x : Float}

/-- The upper bound in a dimension is one less than its length. -/
theorem upperBound_eq (grid : h.Grid lengths lo hi id) (positive : 0 ∉ lengths) (counted : 1 ≤ x)
    {b : Nat} (length : lengths[Number.toWord Number.nearestWhole x - 1]? = some (b + 1)) :
    h.upperBound (.array id) x = .ok (.number (Number.ofNat b)) := by
  obtain ⟨row, descends, size⟩ := grid.exists_descend? positive length
  have last : ((b + 1 : Nat) : Int) - 1 = b := by omega
  rw [upperBound, if_pos counted, descends]
  dsimp only
  rw [size, last]
  rfl

theorem upperBound_eq_error (grid : h.Grid lengths lo hi id) (bare : h.Bare lengths id)
    (dimensions : lengths ≠ [])
    (beyond : lengths.length ≤ Number.toWord Number.nearestWhole x - 1) :
    h.upperBound (.array id) x = .error (.indexOutOfRange x) := by
  rw [upperBound, grid.descend?_eq_none bare dimensions beyond]
  exact ite_self _

/-- So the lengths alone decide about the upper bounds. -/
theorem upperBound_congr (grid : h.Grid lengths lo hi id) (bare : h.Bare lengths id)
    (grid' : h'.Grid lengths lo hi id) (bare' : h'.Bare lengths id) (dimensions : lengths ≠ [])
    (positive : 0 ∉ lengths) (x : Float) :
    h'.upperBound (.array id) x = h.upperBound (.array id) x := by
  by_cases counted : 1 ≤ x
  · cases length : lengths[Number.toWord Number.nearestWhole x - 1]? with
    | none =>
      have beyond := List.getElem?_eq_none_iff.mp length
      rw [grid.upperBound_eq_error bare dimensions beyond,
        grid'.upperBound_eq_error bare' dimensions beyond]
    | some n =>
      cases n with
      | zero => exact absurd (List.mem_of_getElem? length) positive
      | succ b =>
        rw [grid.upperBound_eq positive counted length, grid'.upperBound_eq positive counted length]
  · rw [upperBound, upperBound, if_neg counted, if_neg counted]

end UpperBound

end Grid

end MiniBasic.Heap
