import Mathlib.Data.List.Induction
import MiniBasic.Proofs.Heap.Stored

/-!
# Grids

An array with several dimensions is an array of arrays. It is a grid if every tuple of indices in
range leads to an array of the length of the next dimension, and different tuples lead to different
arrays. What `allocate` makes is a grid of arrays that were not there before, with nothing in it.
-/

namespace MiniBasic.Heap

open MiniBasic.Heap.Action

/-- What whole numbers as indices lead to from a value, through arrays. -/
def at? (h : Heap) : Value → List Nat → Option Value
  | v, [] => some v
  | .array id, i :: is => (h.element? id i).bind fun v ↦ h.at? v is
  | _, _ :: _ => none

/-- Indices in range of the first of the given lengths, and the lengths that are left. -/
inductive Within : List Nat → List Nat → List Nat → Prop
  | nil (lengths : List Nat) : Within [] lengths lengths
  | cons {i n : Nat} {is lengths rest : List Nat} (small : i < n) (more : Within is lengths rest) :
    Within (i :: is) (n :: lengths) rest

/-- The array `id` has the given lengths of its dimensions, and no two of its rows are one array.
All rows are numbered from `lo` on and below `hi`. -/
structure Grid (h : Heap) (lengths : List Nat) (lo hi id : Nat) : Prop where
  rows : ∀ {is n rest}, Within is lengths (n :: rest) →
    ∃ row, h.at? (.array id) is = some (.array row) ∧ lo ≤ row ∧ row < hi ∧ (h.array row).size = n
  distinct : ∀ {is js n m rest rest' row}, Within is lengths (n :: rest) →
    Within js lengths (m :: rest') →
    h.at? (.array id) is = some (.array row) → h.at? (.array id) js = some (.array row) → is = js

/-- No element of the last dimension holds anything. -/
def Blank (h : Heap) (lengths : List Nat) (id : Nat) : Prop :=
  ∀ is, Within is lengths [] → h.at? (.array id) is = some .empty

/-- No element of the last dimension is an array. -/
def Bare (h : Heap) (lengths : List Nat) (id : Nat) : Prop :=
  ∀ is inner, Within is lengths [] → h.at? (.array id) is ≠ some (.array inner)

theorem Blank.bare {h : Heap} {lengths : List Nat} {id : Nat} (blank : h.Blank lengths id) :
    h.Bare lengths id := by
  intro is inner within there
  rw [blank is within] at there
  cases there

/-! ## Indices -/

theorem at?_append (h : Heap) (v : Value) (is js : List Nat) :
    h.at? v (is ++ js) = (h.at? v is).bind fun w ↦ h.at? w js := by
  induction is generalizing v with
  | nil => rfl
  | cons i is ih =>
    cases v with
    | array id =>
      rw [List.cons_append, at?, at?, Option.bind_assoc]
      congr 1
      funext w
      exact ih w
    | _ => rfl

theorem at?_singleton (h : Heap) (id i : Nat) : h.at? (.array id) [i] = h.element? id i := by
  rw [at?]
  cases h.element? id i <;> rfl

theorem at?_concat {h : Heap} {v : Value} {is : List Nat} {row : Nat}
    (there : h.at? v is = some (.array row)) (i : Nat) :
    h.at? v (is ++ [i]) = h.element? row i := by
  rw [at?_append, there, Option.bind_some, at?_singleton]

theorem at?_cons {h : Heap} {id i : Nat} {v : Value} (element : h.element? id i = some v)
    (is : List Nat) :
    h.at? (.array id) (i :: is) = h.at? v is := by
  rw [at?, element, Option.bind_some]

namespace Within

theorem length_eq {is lengths rest : List Nat} (within : Within is lengths rest) :
    lengths.length = is.length + rest.length := by
  induction within with
  | nil _ => exact (Nat.zero_add _).symm
  | cons small more ih => rw [List.length_cons, List.length_cons, ih, Nat.add_right_comm]

theorem exists_of_concat {is lengths rest : List Nat} {i : Nat}
    (within : Within (is ++ [i]) lengths rest) :
    ∃ n, Within is lengths (n :: rest) ∧ i < n := by
  induction is generalizing lengths with
  | nil =>
    cases within with
    | cons small more =>
      cases more
      exact ⟨_, .nil _, small⟩
  | cons j is ih =>
    cases within with
    | cons small more =>
      obtain ⟨n, first, last⟩ := ih more
      exact ⟨n, .cons small first, last⟩

end Within

/-! ## Rows -/

section Row

variable {h : Heap} {lengths : List Nat} {n lo hi id i inner : Nat}

theorem Grid.size_eq (grid : h.Grid (n :: lengths) lo hi id) : (h.array id).size = n := by
  obtain ⟨row, there, -, -, size⟩ := grid.rows (.nil _)
  cases there
  exact size

theorem Grid.exists_row (grid : h.Grid (n :: lengths) lo hi id) (more : lengths ≠ [])
    (small : i < n) :
    ∃ row, h.element? id i = some (.array row) := by
  obtain ⟨m, rest, rfl⟩ := List.exists_cons_of_ne_nil more
  obtain ⟨row, there, -⟩ := grid.rows (.cons small (.nil _))
  rw [at?_singleton] at there
  exact ⟨row, there⟩

/-- A row of a grid is a grid with one dimension less. -/
theorem Grid.row (grid : h.Grid (n :: lengths) lo hi id) (small : i < n)
    (element : h.element? id i = some (.array inner)) : h.Grid lengths lo hi inner := by
  constructor
  · intro is m rest within
    have rows := grid.rows (within.cons small)
    rwa [at?_cons element] at rows
  · intro is js m m' rest rest' row first second there there'
    rw [← at?_cons element] at there there'
    exact (List.cons.inj (grid.distinct (first.cons small) (second.cons small) there there')).2

theorem Bare.row (bare : h.Bare (n :: lengths) id) (small : i < n)
    (element : h.element? id i = some (.array inner)) :
    h.Bare lengths inner := by
  intro is row within there
  rw [← at?_cons element] at there
  exact bare _ row (within.cons small) there

end Row

/-! ## What grids depend on -/

namespace Grid

variable {h h' : Heap} {lengths : List Nat} {lo hi id : Nat}

/-- Indices lead to the same in a heap that has the same rows in front of it. -/
theorem at?_congr (grid : h.Grid lengths lo hi id) {is rest : List Nat}
    (within : Within is lengths rest)
    (same : ∀ {js n rest row}, Within js lengths (n :: rest) → js.length < is.length →
      h.at? (.array id) js = some (.array row) → h'.array row = h.array row) :
    h'.at? (.array id) is = h.at? (.array id) is := by
  induction is using List.reverseRecOn generalizing rest with
  | nil => rfl
  | append_singleton is i ih =>
    obtain ⟨n, first, -⟩ := within.exists_of_concat
    obtain ⟨row, there, -⟩ := grid.rows first
    have shorter : is.length < (is ++ [i]).length := by
      rw [List.length_append]
      exact Nat.lt_succ_self _
    have there' : h'.at? (.array id) is = some (.array row) := by
      rw [ih first fun within less ↦ same within (Nat.lt_trans less shorter)]
      exact there
    rw [at?_concat there, at?_concat there', element?, element?, same first shorter there]

/-- A grid depends on its rows only. -/
theorem congr (grid : h.Grid lengths lo hi id)
    (same : ∀ k, lo ≤ k → k < hi → h'.array k = h.array k) :
    h'.Grid lengths lo hi id ∧ ∀ {is rest}, Within is lengths rest →
      h'.at? (.array id) is = h.at? (.array id) is := by
  have rows {is : List Nat} {n : Nat} {rest : List Nat} {row : Nat}
      (within : Within is lengths (n :: rest)) (there : h.at? (.array id) is = some (.array row)) :
      h'.array row = h.array row := by
    obtain ⟨row', there', low, high, -⟩ := grid.rows within
    cases there.symm.trans there'
    exact same row low high
  have led {is rest : List Nat} (within : Within is lengths rest) :
      h'.at? (.array id) is = h.at? (.array id) is :=
    grid.at?_congr within fun within _ ↦ rows within
  refine ⟨⟨fun within ↦ ?_, fun first second there there' ↦ ?_⟩, led⟩
  · obtain ⟨row, there, low, high, size⟩ := grid.rows within
    refine ⟨row, ?_, low, high, ?_⟩
    · rw [led within, there]
    · rw [rows within there, size]
  · rw [led first] at there
    rw [led second] at there'
    exact grid.distinct first second there there'

end Grid

/-! ## Making grids -/

/-- A grid in the making: its rows are numbered from `lo` on and below `hi`. -/
structure Block where
  lo : Nat
  hi : Nat
  id : Nat

/-- The elements of an array are grids, one behind the other. -/
structure Stacked (h : Heap) (lengths : List Nat) (lo hi : Nat) (blocks : List Block) : Prop where
  grids : ∀ b ∈ blocks, lo ≤ b.lo ∧ b.hi ≤ hi ∧ h.Grid lengths b.lo b.hi b.id ∧ h.Blank lengths b.id
  apart : blocks.Pairwise fun a b ↦ a.hi ≤ b.lo

/-- The values of the elements. -/
def Block.values (blocks : List Block) : Array Value :=
  (blocks.map fun b ↦ Value.array b.id).toArray

theorem Stacked.congr {h h' : Heap} {lengths : List Nat} {lo hi : Nat} {blocks : List Block}
    (stacked : h.Stacked lengths lo hi blocks) (same : ∀ k < hi, h'.array k = h.array k) :
    h'.Stacked lengths lo hi blocks where
  grids b hb := by
    obtain ⟨low, high, grid, blank⟩ := stacked.grids b hb
    obtain ⟨grid', led⟩ := grid.congr fun k _ small ↦ same k (Nat.lt_of_lt_of_le small high)
    refine ⟨low, high, grid', fun is within ↦ ?_⟩
    rw [led within]
    exact blank is within
  apart := stacked.apart

theorem Stacked.apart_of_lt {h : Heap} {lengths : List Nat} {lo hi i j : Nat} {blocks : List Block}
    {a b : Block} (stacked : h.Stacked lengths lo hi blocks) (ha : blocks[i]? = some a)
    (hb : blocks[j]? = some b) (less : i < j) :
    a.hi ≤ b.lo := by
  obtain ⟨hi, rfl⟩ := List.getElem?_eq_some_iff.mp ha
  obtain ⟨hj, rfl⟩ := List.getElem?_eq_some_iff.mp hb
  exact List.pairwise_iff_getElem.mp stacked.apart i j hi hj less

section Nest

variable {h : Heap} {lengths : List Nat} {lo id : Nat} {blocks : List Block}

theorem at?_values (items : h.array id = Block.values blocks) {i : Nat}
    (small : i < blocks.length) :
    ∃ b, blocks[i]? = some b ∧ b ∈ blocks ∧ ∀ is, h.at? (.array id)
      (i :: is) = h.at? (.array b.id) is := by
  refine ⟨blocks[i], List.getElem?_eq_getElem small, List.getElem_mem small, fun is ↦ ?_⟩
  rw [at?, element?, items, Block.values, List.getElem?_toArray, List.getElem?_map,
    List.getElem?_eq_getElem small, Option.map_some, Option.bind_some]

variable (stacked : h.Stacked lengths lo id blocks) (items : h.array id = Block.values blocks)

include stacked items

/-- An array of grids is a grid with one dimension more. -/
theorem Stacked.grid (low : lo ≤ id) : h.Grid (blocks.length :: lengths) lo (id + 1) id := by
  have inside {b : Block} (hb : b ∈ blocks) {is : List Nat} {n : Nat} {rest : List Nat} {row : Nat}
      (within : Within is lengths (n :: rest))
      (there : h.at? (.array b.id) is = some (.array row)) :
      b.lo ≤ row ∧ row < b.hi ∧ b.hi ≤ id := by
    obtain ⟨-, high, grid, -⟩ := stacked.grids b hb
    obtain ⟨row', there', low', high', -⟩ := grid.rows within
    cases there.symm.trans there'
    exact ⟨low', high', high⟩
  constructor
  · intro is n rest within
    cases within with
    | nil _ =>
      refine ⟨id, rfl, low, Nat.lt_succ_self id, ?_⟩
      rw [items, Block.values, List.size_toArray, List.length_map]
    | cons small more =>
      obtain ⟨b, -, hb, onward⟩ := at?_values items small
      obtain ⟨low', high', grid, -⟩ := stacked.grids b hb
      obtain ⟨row, there, low'', high'', size⟩ := grid.rows more
      rw [onward]
      exact ⟨row, there, Nat.le_trans low' low'', by omega, size⟩
  · intro is js n m rest rest' row first second there there'
    cases first with
    | nil _ =>
      cases second with
      | nil _ => rfl
      | cons small more =>
        obtain ⟨b, -, hb, onward⟩ := at?_values items small
        rw [onward] at there'
        cases there
        have := inside hb more there'
        omega
    | @cons i _ is _ _ small more =>
      obtain ⟨b, found, hb, onward⟩ := at?_values items small
      rw [onward] at there
      have place := inside hb more there
      cases second with
      | nil _ =>
        cases there'
        omega
      | @cons j _ js _ _ small' more' =>
        obtain ⟨b', found', hb', onward'⟩ := at?_values items small'
        rw [onward'] at there'
        have place' := inside hb' more' there'
        rcases Nat.lt_trichotomy i j with less | rfl | greater
        · have := stacked.apart_of_lt found found' less
          omega
        · cases found.symm.trans found'
          rw [(stacked.grids b hb).2.2.1.distinct more more' there there']
        · have := stacked.apart_of_lt found' found greater
          omega

theorem Stacked.blank : h.Blank (blocks.length :: lengths) id := by
  intro is within
  cases within with
  | cons small more =>
    obtain ⟨b, -, hb, onward⟩ := at?_values items small
    rw [onward]
    exact (stacked.grids b hb).2.2.2 _ more

end Nest

/-- What `allocate` has made of a heap: new arrays only, and they make up a grid with nothing in
it. -/
structure Laid (h : Heap) (lengths : List Nat) (id : Nat) (h' : Heap) : Prop where
  more : h.arrays.size ≤ h'.arrays.size
  below : SameBelow h.arrays.size h h'
  grid : h'.Grid lengths h.arrays.size h'.arrays.size id
  blank : h'.Blank lengths id

theorem SameBelow.mono {n m : Nat} {h h' : Heap} (same : SameBelow m h h') (le : n ≤ m) :
    SameBelow n h h' :=
  ⟨same.dictionaries, same.collections, fun k small ↦ same.arrays k (Nat.lt_of_lt_of_le small le)⟩

theorem SameBelow.array_eq {n k : Nat} {h h' : Heap} (same : SameBelow n h h') (small : k < n) :
    h'.array k = h.array k :=
  array_congr (same.arrays k small)

theorem sameBelow_push (h : Heap) (items : Array Value) :
    SameBelow h.arrays.size h { h with arrays := h.arrays.push items } := by
  refine ⟨rfl, rfl, fun k small ↦ ?_⟩
  rw [Array.getElem?_push, if_neg (Nat.ne_of_lt small)]

theorem array_push (h : Heap) (items : Array Value) :
    { h with arrays := h.arrays.push items }.array h.arrays.size = items :=
  array_of_getElem? Array.getElem?_push_size

/-- As many grids as asked for, one behind the other. -/
theorem exists_repeated {lengths : List Nat}
    (each : ∀ h, ∃ id h', allocate lengths h = .ok (.array id) h' ∧ h.Laid lengths id h') (n : Nat)
    (made : Array Value) (h : Heap) :
    ∃ blocks h', repeated (allocate lengths) n made h = .ok (made ++ Block.values blocks) h' ∧
      blocks.length = n ∧
      h.arrays.size ≤ h'.arrays.size ∧ SameBelow h.arrays.size h h' ∧
      h'.Stacked lengths h.arrays.size h'.arrays.size blocks := by
  induction n generalizing made h with
  | zero =>
    refine ⟨[], h, ?_, rfl, Nat.le_refl _, .refl _ h, ⟨by simp, .nil⟩⟩
    rw [Block.values, List.map_nil, Array.append_empty]
    rfl
  | succ n ih =>
    obtain ⟨id, h₁, run, laid⟩ := each h
    obtain ⟨blocks, h', runs, count, more, below, stacked⟩ := ih (made.push (.array id)) h₁
    have values : made.push (.array id) ++ Block.values blocks =
        made ++ Block.values (⟨h.arrays.size, h₁.arrays.size, id⟩ :: blocks) := by
      simp [Block.values]
    obtain ⟨grid, led⟩ := laid.grid.congr fun k _ small ↦ below.array_eq small
    refine ⟨⟨h.arrays.size, h₁.arrays.size, id⟩ :: blocks, h', ?_, congrArg Nat.succ count,
      Nat.le_trans laid.more more, ?_, ⟨?_, ?_⟩⟩
    · rw [repeated, bind_ok run, runs, values]
    · exact laid.below.trans (below.mono laid.more)
    · intro b hb
      rcases List.mem_cons.mp hb with rfl | hb
      · refine ⟨Nat.le_refl _, more, grid, fun is within ↦ ?_⟩
        rw [led within]
        exact laid.blank is within
      · obtain ⟨low, rest⟩ := stacked.grids b hb
        exact ⟨Nat.le_trans laid.more low, rest⟩
    · exact .cons (fun b hb ↦ (stacked.grids b hb).1) stacked.apart

theorem laid_row (n : Nat) (h : Heap) :
    h.Laid [n] h.arrays.size { h with arrays := h.arrays.push (Array.replicate n .empty) } := by
  have here := h.array_push (Array.replicate n .empty)
  have larger : h.arrays.size < (h.arrays.push (Array.replicate n Value.empty)).size := by
    rw [Array.size_push]
    exact Nat.lt_succ_self _
  refine ⟨Nat.le_of_lt larger, sameBelow_push h _, ⟨?_, ?_⟩, ?_⟩
  · intro is m rest within
    cases within with
    | nil _ =>
      refine ⟨h.arrays.size, rfl, Nat.le_refl _, larger, ?_⟩
      rw [here, Array.size_replicate]
    | cons small more => cases more
  · intro is js m m' rest rest' row first second _ _
    cases first with
    | nil _ =>
      cases second with
      | nil _ => rfl
      | cons small more => cases more
    | cons small more => cases more
  · intro is within
    cases within with
    | cons small more =>
      cases more
      rw [at?_singleton, element?, here, Array.getElem?_replicate, if_pos small]

/-- Whatever the lengths, `allocate` makes a new grid with nothing in it. -/
theorem exists_allocate {lengths : List Nat} (dimensions : lengths ≠ []) (h : Heap) :
    ∃ id h', allocate lengths h = .ok (.array id) h' ∧ h.Laid lengths id h' := by
  induction lengths generalizing h with
  | nil => exact absurd rfl dimensions
  | cons n rest ih =>
    cases rest with
    | nil => exact ⟨h.arrays.size, _, rfl, laid_row n h⟩
    | cons m rest =>
      obtain ⟨blocks, h₁, run, rfl, more, below, stacked⟩ :=
        exists_repeated (ih (List.cons_ne_nil m rest)) n #[] h
      have made :=
        stacked.congr fun k small ↦ (sameBelow_push h₁ (Block.values blocks)).array_eq small
      have items := h₁.array_push (Block.values blocks)
      refine ⟨h₁.arrays.size, { h₁ with arrays := h₁.arrays.push (Block.values blocks) }, ?_, ?_,
        ?_, ?_, ?_⟩
      · rw [Array.empty_append] at run
        rw [allocate, bind_ok run]
        · rfl
        · simp
      · rw [Array.size_push]
        exact Nat.le_succ_of_le more
      · exact below.trans ((sameBelow_push h₁ _).mono more)
      · rw [Array.size_push]
        exact made.grid items more
      · exact made.blank items

end MiniBasic.Heap
