import MiniBasic.Proofs.Heap.Grid

/-!
# The size of declared arrays

A declaration is refused if the product of the lengths of all dimensions is above the limit. So in
the last dimension there are never more elements than the limit allows, and in no dimension if no
length is zero. A length of zero makes the product zero, whatever the other lengths are: then the
dimensions in front of it are held to nothing but the limit for each single array, and a product of
machine words.
-/

namespace MiniBasic

/-- The number of the array that a value names. -/
def Value.arrayId? : Value → Option Nat
  | .array id => some id
  | _ => none

namespace Heap

/-- The arrays among the elements of an array. -/
def inners (h : Heap) (id : Nat) : List Nat :=
  (h.array id).toList.filterMap Value.arrayId?

/-- The arrays at a level of nesting below an array, which is alone at level zero. -/
def arraysAt (h : Heap) : Nat → Nat → List Nat
  | 0, id => [id]
  | level + 1, id => (h.inners id).flatMap (h.arraysAt level)

/-- The number of elements that the arrays at a level have together. -/
def slotsAt (h : Heap) (level id : Nat) : Nat :=
  ((h.arraysAt level id).flatMap fun k ↦ (h.array k).toList).length

/-- How many elements there are at a level, going by the lengths of the dimensions. -/
def levelCount : List Nat → Nat → Nat
  | [], _ => 0
  | n :: _, 0 => n
  | n :: lengths, level + 1 => n * levelCount lengths level

variable {h : Heap} {lengths : List Nat} {n lo hi id : Nat}

theorem slotsAt_zero (h : Heap) (id : Nat) : h.slotsAt 0 id = (h.array id).size := by
  rw [slotsAt, arraysAt, List.flatMap_singleton, Array.length_toList]

/-- Where all inner arrays have equally many elements at a level, a product counts them. -/
theorem slotsAt_succ {level count : Nat}
    (each : ∀ inner ∈ h.inners id, h.slotsAt level inner = count) :
    h.slotsAt (level + 1) id = (h.inners id).length * count := by
  have counts :
      (h.inners id).map (fun k ↦ ((h.arraysAt level k).flatMap fun k ↦ (h.array k).toList).length) =
      (h.inners id).map fun _ ↦ count := List.map_congr_left each
  rw [slotsAt, arraysAt, List.flatMap_assoc, List.length_flatMap, counts, List.map_const',
    List.sum_replicate_nat]

/-! ## Levels of a grid -/

theorem mem_inners {inner : Nat} :
    inner ∈ h.inners id ↔ ∃ i, h.element? id i = some (.array inner) := by
  rw [inners, List.mem_filterMap]
  constructor
  · rintro ⟨v, hv, named⟩
    obtain ⟨i, found⟩ := List.mem_iff_getElem?.mp hv
    cases v with
    | array k =>
      cases named
      rw [Array.getElem?_toList] at found
      exact ⟨i, found⟩
    | _ => cases named
  · rintro ⟨i, found⟩
    refine ⟨.array inner, ?_, rfl⟩
    rw [element?, ← Array.getElem?_toList] at found
    exact List.mem_of_getElem? found

namespace Grid

/-- Every element of a grid is a row, if there is a further dimension. -/
theorem length_inners (grid : h.Grid (n :: lengths) lo hi id) (more : lengths ≠ []) :
    (h.inners id).length = n := by
  have all : ∀ v ∈ (h.array id).toList, v.arrayId?.isSome = true := by
    intro v hv
    obtain ⟨i, found⟩ := List.mem_iff_getElem?.mp hv
    rw [Array.getElem?_toList] at found
    have small := lt_size_of_element? found
    rw [grid.size_eq] at small
    obtain ⟨row, there⟩ := grid.exists_row more small
    cases found.symm.trans there
    rfl
  rw [inners, List.filterMap_length_eq_length.mpr all, Array.length_toList, grid.size_eq]

theorem row_of_mem_inners (grid : h.Grid (n :: lengths) lo hi id) {inner : Nat}
    (hi : inner ∈ h.inners id) :
    ∃ i < n, h.element? id i = some (.array inner) := by
  obtain ⟨i, found⟩ := mem_inners.mp hi
  have small := lt_size_of_element? found
  rw [grid.size_eq] at small
  exact ⟨i, small, found⟩

theorem inners_eq_nil (grid : h.Grid [n] lo hi id) (bare : h.Bare [n] id) : h.inners id = [] := by
  apply List.eq_nil_iff_forall_not_mem.mpr
  intro inner hi
  obtain ⟨i, small, found⟩ := grid.row_of_mem_inners hi
  rw [← at?_singleton] at found
  exact bare [i] inner (.cons small (.nil [])) found

/-- At each level of a grid there are as many elements as its lengths say. -/
theorem slotsAt_eq (grid : h.Grid (n :: lengths) lo hi id) (bare : h.Bare (n :: lengths) id)
    (level : Nat) :
    h.slotsAt level id = levelCount (n :: lengths) level := by
  induction level generalizing n lengths id with
  | zero => rw [slotsAt_zero, levelCount, grid.size_eq]
  | succ level ih =>
    rw [levelCount]
    cases lengths with
    | nil =>
      rw [slotsAt, arraysAt, grid.inners_eq_nil bare]
      rfl
    | cons m lengths =>
      have each (inner : Nat) (hi : inner ∈ h.inners id) :
          h.slotsAt level inner = levelCount (m :: lengths) level := by
        obtain ⟨i, small, found⟩ := grid.row_of_mem_inners hi
        exact ih (grid.row small found) (bare.row small found)
      rw [slotsAt_succ each, grid.length_inners (List.cons_ne_nil m lengths)]

/-- Every array of a grid has one of the lengths. -/
theorem size_mem (grid : h.Grid (n :: lengths) lo hi id) (bare : h.Bare (n :: lengths) id)
    {level k : Nat} (hk : k ∈ h.arraysAt level id) : (h.array k).size ∈ n :: lengths := by
  induction level generalizing n lengths id with
  | zero =>
    rw [List.mem_singleton.mp hk, grid.size_eq]
    exact List.mem_cons_self
  | succ level ih =>
    obtain ⟨inner, hi, hk⟩ := List.mem_flatMap.mp hk
    cases lengths with
    | nil =>
      rw [grid.inners_eq_nil bare] at hi
      cases hi
    | cons m lengths =>
      obtain ⟨i, small, found⟩ := grid.row_of_mem_inners hi
      exact List.mem_cons_of_mem n (ih (grid.row small found) (bare.row small found) hk)

end Grid

/-- What `allocate` makes has the lengths that were asked for, at every level. -/
theorem slotsAt_allocate (lengths : List Nat) (h : Heap) :
    ∃ id h', Action.allocate lengths h = .ok (.array id) h' ∧
      (∀ level, h'.slotsAt level id = levelCount lengths level) ∧
      ∀ level, ∀ k ∈ h'.arraysAt level id, (h'.array k).size = 0 ∨ (h'.array k).size ∈ lengths := by
  cases lengths with
  | nil =>
    -- without any bound the array is made as with the length zero
    obtain ⟨id, h', run, laid⟩ := exists_allocate (List.cons_ne_nil 0 []) h
    refine ⟨id, h', run, fun level ↦ ?_, fun level k hk ↦ ?_⟩
    · rw [laid.grid.slotsAt_eq laid.blank.bare]
      cases level with
      | zero => rfl
      | succ level => exact Nat.zero_mul _
    · exact .inl (List.mem_singleton.mp (laid.grid.size_mem laid.blank.bare hk))
  | cons n lengths =>
    obtain ⟨id, h', run, laid⟩ := exists_allocate (List.cons_ne_nil n lengths) h
    exact ⟨id, h', run, laid.grid.slotsAt_eq laid.blank.bare, fun _ k hk ↦
      .inr (laid.grid.size_mem laid.blank.bare hk)⟩

end Heap

namespace Machine

/-! ## Declarations -/

section Product

variable {lengths : List Nat} {acc total : Nat}

/-- Lengths that are not zero make a product no smaller. -/
theorem le_of_product
    (product : lengths.foldlM
      (fun acc n ↦ if acc * n ≤ Number.maxWord then some (acc * n) else none) acc = some total)
    (positive : 0 ∉ lengths) : acc ≤ total := by
  induction lengths generalizing acc with
  | nil =>
    cases product
    exact Nat.le_refl _
  | cons n lengths ih =>
    rw [List.mem_cons, not_or] at positive
    rw [List.foldlM_cons] at product
    split at product
    next =>
      have larger := Nat.le_mul_of_pos_right acc (Nat.pos_of_ne_zero (Ne.symm positive.1))
      exact Nat.le_trans larger (ih product positive.2)
    next => cases product

/-- A product in machine words says how many elements there are at each level, as far as no zero
follows. -/
theorem levelCount_le_of_product
    (product : lengths.foldlM
      (fun acc n ↦ if acc * n ≤ Number.maxWord then some (acc * n) else none) acc = some total)
    (level : Nat) :
    acc * Heap.levelCount lengths level ≤ Number.maxWord ∧
      (0 ∉ lengths.drop (level + 1) → acc * Heap.levelCount lengths level ≤ total) := by
  induction lengths generalizing acc level with
  | nil => exact ⟨Nat.zero_le _, fun _ ↦ Nat.zero_le _⟩
  | cons n lengths ih =>
    rw [List.foldlM_cons] at product
    split at product
    next small =>
      cases level with
      | zero => exact ⟨small, le_of_product product⟩
      | succ level =>
        rw [Heap.levelCount, ← Nat.mul_assoc]
        exact ih product level
    next => cases product

end Product

theorem le_of_boundLength {upper : Float} {n : Nat} (done : boundLength upper = .ok n) :
    n ≤ maxArrayLength := by
  unfold boundLength at done
  split at done
  next i _ =>
    split at done
    next small =>
      cases done
      exact small
    next => cases done
  next =>
    cases done
    exact Nat.zero_le _

theorem exists_of_onHeap_eq_ok {α : Type} {action : Heap.Action α} {a : α} {s s' : State}
    (done : onHeap action s = .ok a s') :
    ∃ h', action s.heap = .ok a h' ∧ s' = { s with heap := h' } := by
  obtain ⟨env, heap, arrayBase, output, notices⟩ := s
  unfold onHeap at done
  cases run : action heap with
  | ok b h' =>
    simp only [run] at done
    cases done
    exact ⟨h', rfl, rfl⟩
  | error e h' =>
    simp only [run] at done
    cases done

theorem le_of_evalBounds {eval : Expr → Machine Value} {bounds : List Expr} {lengths : List Nat}
    {s s' : State} (done : evalBounds eval bounds s = .ok lengths s') :
    ∀ n ∈ lengths, n ≤ maxArrayLength := by
  induction bounds generalizing lengths s with
  | nil =>
    cases done
    simp
  | cons bound bounds ih =>
    obtain ⟨n, s₁, first, rest⟩ := exists_of_bind_eq_ok done
    obtain ⟨ns, s₂, rest, last⟩ := exists_of_bind_eq_ok rest
    cases last
    obtain ⟨upper, s₀, -, checked⟩ := exists_of_bind_eq_ok first
    obtain ⟨h', checked, -⟩ := exists_of_onHeap_eq_ok checked
    intro m hm
    rcases List.mem_cons.mp hm with rfl | hm
    case inr => exact ih rest m hm
    cases length : boundLength upper.toNumber with
    | ok m =>
      rw [length] at checked
      cases checked
      exact le_of_boundLength length
    | error e =>
      rw [length] at checked
      cases checked

/-- What an array declaration makes, if it succeeds: an array with the lengths of its bounds, none
of them above the limit. At each level of nesting the elements are within the limit all together,
unless a length behind that level is zero, since a bound is negative or not finite; then they are as
many as a machine word allows. -/
theorem slotsAt_declaredValue {eval : Expr → Machine Value} {d : Declarator} {bounds : List Expr}
    {v : Value} {s s' : State} (array : d.bounds = some bounds)
    (done : declaredValue eval d s = .ok v s') :
    ∃ lengths s₁ id, evalBounds eval bounds s = .ok lengths s₁ ∧ v = .array id ∧
      (∀ level, s'.heap.slotsAt level id = Heap.levelCount lengths level) ∧
      (∀ level, s'.heap.slotsAt level id ≤ maxArrayLength ∨
        0 ∈ lengths.drop (level + 1) ∧ s'.heap.slotsAt level id ≤ Number.maxWord) ∧
      ∀ level, ∀ k ∈ s'.heap.arraysAt level id, (s'.heap.array k).size ≤ maxArrayLength := by
  unfold declaredValue at done
  rw [array] at done
  obtain ⟨lengths, s₁, evaluated, allocated⟩ := exists_of_bind_eq_ok done
  obtain ⟨h', made, rfl⟩ := exists_of_onHeap_eq_ok allocated
  obtain ⟨id, h'', run, counts, sizes⟩ := Heap.slotsAt_allocate lengths s₁.heap
  unfold allocate at made
  cases product : wordProduct? lengths with
  | none =>
    rw [product] at made
    cases made
  | some total =>
    rw [product] at made
    dsimp only at made
    split at made
    next small =>
      cases made.symm.trans run
      refine ⟨lengths, s₁, id, evaluated, rfl, counts, fun level ↦ ?_, fun level k hk ↦ ?_⟩
      · change h'.slotsAt level id ≤ _ ∨ _ ∧ h'.slotsAt level id ≤ _
        obtain ⟨word, within⟩ := levelCount_le_of_product product level
        rw [Nat.one_mul, ← counts level] at word within
        by_cases zero : 0 ∈ lengths.drop (level + 1)
        · exact .inr ⟨zero, word⟩
        · exact .inl (Nat.le_trans (within zero) small)
      · rcases sizes level k hk with none | size
        · exact none ▸ Nat.zero_le _
        · exact le_of_evalBounds evaluated _ size
    next => cases made

/-- `Dim a(1, "2", 0.5)`. -/
theorem slotsAt_declaredValue_nested :
    let d : Declarator := ⟨"a", some [.number 1, .text "2", .number 0.5], none⟩
    ∃ id s', declaredValue (eval 1) d .initial = .ok (.array id) s' ∧ s'.heap.slotsAt 2 id = 12 ∧
      ∀ level, s'.heap.slotsAt level id ≤ maxArrayLength := by
  intro d
  obtain ⟨v, s', done⟩ : ∃ v s', declaredValue (eval 1) d .initial = .ok v s' := ⟨_, _, rfl⟩
  have bounds : evalBounds (eval 1) [.number 1, .text "2", .number 0.5] .initial =
      .ok [2, 3, 2] .initial := rfl
  obtain ⟨lengths, s₁, id, evaluated, rfl, counts, within, -⟩ := slotsAt_declaredValue rfl done
  cases bounds.symm.trans evaluated
  refine ⟨id, s', done, counts 2, fun level ↦ ?_⟩
  rcases within level with small | ⟨zero, -⟩
  · exact small
  · exact absurd (List.mem_of_mem_drop zero) (by decide)

theorem onHeap_of_eq_ok {α : Type} {action : Heap.Action α} {a : α} {s : State} {h' : Heap}
    (run : action s.heap = .ok a h') : onHeap action s = .ok a { s with heap := h' } := by
  obtain ⟨env, heap, arrayBase, output, notices⟩ := s
  unfold onHeap
  dsimp only at run ⊢
  rw [run]

theorem allocate_of_product {lengths : List Nat} {total : Nat}
    (product : wordProduct? lengths = some total) (small : total ≤ maxArrayLength) :
    allocate lengths = Heap.Action.allocate lengths := by
  rw [allocate, product]
  exact if_pos small

/-- `Dim a(4096, 4095, -1)` makes more than the limit of elements at its second level: the product
of the lengths is zero. -/
theorem declared_beyond_limit :
    let d : Declarator := ⟨"a", some [.number 4096, .number 4095, .unary .neg (.number 1)], none⟩
    ∃ id s', declaredValue (eval 2) d .initial = .ok (.array id) s' ∧ maxArrayLength <
      s'.heap.slotsAt 1 id := by
  intro d
  obtain ⟨id, h', run, counts, -⟩ := Heap.slotsAt_allocate [4097, 4096, 0] State.initial.heap
  have bounds : evalBounds (eval 2) [.number 4096, .number 4095, .unary .neg (.number 1)] .initial =
    .ok [4097, 4096, 0] .initial := rfl
  have made : onHeap (allocate [4097, 4096, 0]) .initial = .ok (.array id)
      { State.initial with heap := h' } := by
    rw [allocate_of_product (by decide) (Nat.zero_le _)]
    exact onHeap_of_eq_ok run
  refine ⟨id, { State.initial with heap := h' }, ?_, ?_⟩
  · change (evalBounds (eval 2) [.number 4096, .number 4095, .unary .neg (.number 1)] >>=
        fun lengths ↦
      onHeap (allocate lengths)) .initial = _
    rw [bind_ok bounds, made]
  · change _ < h'.slotsAt 1 id
    rw [counts 1]
    decide

end Machine

end MiniBasic
