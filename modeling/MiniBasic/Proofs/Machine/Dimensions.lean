import MiniBasic.Proofs.Control.CopyBack
import MiniBasic.Proofs.Heap.Cells
import MiniBasic.Proofs.Number.Whole

/-!
# Declared dimensions

An array declared with upper bounds has these bounds: `UBound` reports them, and every tuple of
indices up to the bounds has an element of its own, which is empty at first. This stays so under all
writes to such tuples, as far as the declared dimensions go. Behind the last dimension `UBound`
finds something only if an array was written there.
-/

namespace MiniBasic

namespace Heap

/-- The dimension that a value asks for, counted from zero. -/
def dimension? (w : Value) : Option Nat :=
  if 1 ≤ w.toNumber then some (Number.toWord Number.nearestWhole w.toNumber - 1) else none

/-- How many elements there are up to the given upper bounds. -/
def elementCount : List Nat → Nat
  | [] => 1
  | b :: bounds => (b + 1) * elementCount bounds

/-- What indices and `UBound` tell about an array with the given upper bounds. -/
structure Dimensioned (h : Heap) (bounds : List Nat) (id : Nat) (cell : List Nat → Value) :
    Prop where
  reads : ∀ called indices u, tuple? indices = some u → List.Forall₂ (· ≤ ·) u bounds →
    h.read called (.array id) indices = .ok (cell u)
  upper : ∀ base w d b, dimension? w = some d → bounds[d]? = some b →
    Action.callNative base .uBound [.array id, w] h = .ok (.number (Number.ofNat b)) h

theorem dimension?_eq_some {w : Value} {d : Nat} :
    dimension? w = some d ↔
      1 ≤ w.toNumber ∧ Number.toWord Number.nearestWhole w.toNumber - 1 = d := by
  rw [dimension?]
  split <;> simp [*]

theorem dimension?_ofNat {d : Nat} (small : d + 1 < 2 ^ 53) :
    dimension? (.number (Number.ofNat (d + 1))) = some d := by
  apply dimension?_eq_some.mpr
  exact ⟨Number.one_le_ofNat d.succ_pos small, congrArg (· - 1) (Number.toWord_ofNat small)⟩

theorem elementCount_pos (bounds : List Nat) : 0 < elementCount bounds := by
  induction bounds with
  | nil => exact Nat.one_pos
  | cons b bounds ih => exact Nat.mul_pos b.succ_pos ih

theorem lt_elementCount {bounds : List Nat} {b : Nat} (hb : b ∈ bounds) :
    b < elementCount bounds := by
  induction bounds with
  | nil => cases hb
  | cons c bounds ih =>
    rw [elementCount]
    rcases List.mem_cons.mp hb with rfl | hb
    · exact Nat.le_mul_of_pos_right (b + 1) (elementCount_pos bounds)
    · exact Nat.lt_of_lt_of_le (ih hb) (Nat.le_mul_of_pos_left _ c.succ_pos)

theorem Within.of_le {is bounds : List Nat} (le : List.Forall₂ (· ≤ ·) is bounds) :
    Within is (bounds.map (· + 1)) [] := by
  induction le with
  | nil => exact .nil []
  | cons le _ ih => exact .cons (Nat.lt_succ_of_le le) ih

theorem tuple?_ofNat {is : List Nat} (small : ∀ i ∈ is, i < 2 ^ 53) :
    tuple? (is.map fun i ↦ .number (Number.ofNat i)) = some is := by
  induction is with
  | nil => rfl
  | cons i is ih =>
    have first : readIndex (.number (Number.ofNat i)) = some i :=
      Number.index?_ofNat (small i List.mem_cons_self)
    have rest := ih fun j hj ↦ small j (List.mem_cons_of_mem i hj)
    exact tuple?_cons_eq_some.mpr ⟨i, is, rfl, first, rest⟩

theorem callNative_uBound {h : Heap} {id : Nat} {w : Value} {r : Except RuntimeError Value}
    (bound : h.upperBound (.array id) w.toNumber = r) (base : Nat) :
    Action.callNative base .uBound [.array id, w] h = Action.ofExcept r h := by
  subst bound
  rfl

theorem Cells.dimensioned {h : Heap} {bounds : List Nat} {lo hi id : Nat} {cell : List Nat → Value}
    (cells : h.Cells (bounds.map (· + 1)) lo hi id cell) : h.Dimensioned bounds id cell where
  reads called indices u tuple le := readPath_of_at? tuple (cells.holds u (.of_le le)) called
  upper base w d b asked bound := by
    obtain ⟨counted, rfl⟩ := dimension?_eq_some.mp asked
    have length : (bounds.map (· + 1))[Number.toWord Number.nearestWhole w.toNumber - 1]? =
        some (b + 1) := by
      rw [List.getElem?_map, bound, Option.map_some]
    rw [callNative_uBound (cells.grid.upperBound_eq (by simp) counted length)]
    rfl

end Heap

namespace Machine

open Heap (elementCount Within tuple? tuple?_ofNat lastAt dimension? callNative_uBound)
open Heap.Action (write callNative)

theorem boundLength_ofNat {b : Nat} (small : b < maxArrayLength) :
    boundLength (Number.ofNat b) = .ok (b + 1) := by
  have exact : b < 2 ^ 53 := Nat.lt_trans small (by decide)
  rw [boundLength, Number.index?_ofNat exact]
  exact if_pos small

theorem evalBounds_of_evalAll {eval : Expr → Machine Value} {es : List Expr} {vs : List Value}
    {bounds : List Nat} {s s' : State} (small : ∀ b ∈ bounds, b < maxArrayLength)
    (evaluated : evalAll eval es s = .ok vs s')
    (numbers : vs.map Value.toNumber = bounds.map Number.ofNat) :
    evalBounds eval es s = .ok (bounds.map (· + 1)) s' := by
  induction es generalizing vs bounds s with
  | nil =>
    cases evaluated
    cases bounds with
    | nil => rfl
    | cons b bounds => cases numbers
  | cons e es ih =>
    obtain ⟨v, s₁, first, rest⟩ := exists_of_bind_eq_ok evaluated
    obtain ⟨vs, s₂, rest, last⟩ := exists_of_bind_eq_ok rest
    cases last
    cases bounds with
    | nil => cases numbers
    | cons b bounds =>
      obtain ⟨number, numbers⟩ := List.cons.inj numbers
      have length : evalBound eval e s = .ok (b + 1) s₁ := by
        rw [evalBound, bind_ok first, number, boundLength_ofNat (small b List.mem_cons_self)]
        exact onHeap_of_eq_ok rfl
      have lengths := ih (fun c hc ↦ small c (List.mem_cons_of_mem b hc)) rest numbers
      rw [evalBounds, bind_ok length, bind_ok lengths]
      rfl

theorem product_eq {bounds : List Nat} {acc : Nat}
    (fits : acc * elementCount bounds ≤ Number.maxWord) :
    (bounds.map (· + 1)).foldlM
      (fun acc n ↦ if acc * n ≤ Number.maxWord then some (acc * n) else none) acc =
      some (acc * elementCount bounds) := by
  induction bounds generalizing acc with
  | nil =>
    rw [elementCount, Nat.mul_one]
    rfl
  | cons b bounds ih =>
    rw [elementCount, ← Nat.mul_assoc] at fits ⊢
    have first :=
      Nat.le_trans (Nat.le_mul_of_pos_right (acc * (b + 1)) (Heap.elementCount_pos bounds)) fits
    rw [List.map_cons, List.foldlM_cons, if_pos first]
    exact ih fits

theorem allocate_of_bounds {bounds : List Nat} (size : elementCount bounds ≤ maxArrayLength) :
    allocate (bounds.map (· + 1)) = Heap.Action.allocate (bounds.map (· + 1)) := by
  apply allocate_of_product (product_eq _) _
  · rw [Nat.one_mul]
    exact Nat.le_trans size (by decide)
  · rwa [Nat.one_mul]

theorem declaredValue_of_bounds {eval : Expr → Machine Value} {d : Declarator} {es : List Expr}
    {vs : List Value} {bounds : List Nat} {s s₁ : State} (array : d.bounds = some es)
    (size : elementCount bounds ≤ maxArrayLength) (evaluated : evalAll eval es s = .ok vs s₁)
    (numbers : vs.map Value.toNumber = bounds.map Number.ofNat) {v : Value} {h : Heap}
    (made : Heap.Action.allocate (bounds.map (· + 1)) s₁.heap = .ok v h) :
    declaredValue eval d s = .ok v { s₁ with heap := h } := by
  have small (b : Nat) (hb : b ∈ bounds) := Nat.lt_of_lt_of_le (Heap.lt_elementCount hb) size
  rw [declaredValue, array]
  dsimp only
  rw [bind_ok (evalBounds_of_evalAll small evaluated numbers), allocate_of_bounds size]
  exact onHeap_of_eq_ok made

/-- An array declared with upper bounds, all together within the limit, has these bounds. Its
elements are empty, and after any writes to tuples of indices up to the bounds each such tuple has
the last value written there, and `UBound` still reports the bounds. As long as no array was
written, `UBound` fails behind the last dimension, and no writes have changed it. -/
theorem dim_has_bounds {name : String} {es : List Expr} {vs : List Value} {bounds : List Nat}
    {fuel : Nat} {s s₁ : State} (dimensions : bounds ≠ [])
    (size : elementCount bounds ≤ maxArrayLength) (evaluated : evalAll (eval fuel) es s = .ok vs s₁)
    (numbers : vs.map Value.toNumber = bounds.map Number.ofNat) :
    (∀ u, List.Forall₂ (· ≤ ·) u bounds → tuple? (u.map fun i ↦ .number (Number.ofNat i)) =
      some u) ∧
      (∀ d, d + 1 < 2 ^ 53 → dimension? (.number (Number.ofNat (d + 1))) = some d) ∧
      ∃ id h, exec (fuel + 1) (.dim [⟨name, some es, none⟩]) s =
          .ok () { s₁ with env := s₁.env.assign name (.array id), heap := h } ∧
        (s₁.env.assign name (.array id)).get? name = some (.array id) ∧
        ∀ called (writes : List (List Value × Value)),
          (∀ w ∈ writes, ∃ u, tuple? w.1 = some u ∧ List.Forall₂ (· ≤ ·) u bounds) →
          ∃ h', (writes.forM fun w ↦ write called (.array id) w.1 w.2) h = .ok () h' ∧
            h'.Dimensioned bounds id (fun u ↦ lastAt writes u .empty) ∧
            ((∀ w ∈ writes, w.2.arrayId? = none) →
              (∀ base w d, dimension? w = some d → bounds.length ≤ d →
                callNative base .uBound [.array id, w] h' =
                  .error (.indexOutOfRange w.toNumber) h') ∧
              ∀ x, h'.upperBound (.array id) x = h.upperBound (.array id) x) := by
  have small (b : Nat) (hb : b ∈ bounds) := Nat.lt_of_lt_of_le (Heap.lt_elementCount hb) size
  have lengths : bounds.map (· + 1) ≠ [] := by simpa using dimensions
  have limits : ∀ n ∈ bounds.map (· + 1), n ≤ maxArrayLength := List.forall_mem_map.mpr small
  refine ⟨fun u le ↦ tuple?_ofNat fun i hi ↦ ?_, fun d ↦ Heap.dimension?_ofNat, ?_⟩
  · exact Nat.lt_trans ((Within.of_le le).lt limits i hi) (by decide)
  obtain ⟨id, h, made, laid⟩ := Heap.exists_allocate lengths s₁.heap
  refine ⟨id, h, ?_, Environment.get?_assign_self _ _ _, ?_⟩
  · have declared :=
      declaredValue_of_bounds (d := ⟨name, some es, none⟩) rfl size evaluated numbers made
    rw [exec, execStmt, declareAll, bind_ok declared]
    rfl
  intro called writes inRange
  have fresh : h.Cells (bounds.map (· + 1)) _ _ id fun _ ↦ .empty :=
    ⟨laid.grid, Nat.le_refl _, laid.blank⟩
  obtain ⟨h', done, cells⟩ := fresh.writeAll limits lengths
    (fun w hw ↦ (inRange w hw).imp fun u within ↦ ⟨within.1, .of_le within.2⟩) called
  refine ⟨h', done, cells.dimensioned, fun plain ↦ ?_⟩
  have bare := cells.bare (Heap.arrayId?_lastAt plain rfl)
  refine ⟨fun base w d asked beyond ↦ ?_, ?_⟩
  · obtain ⟨-, rfl⟩ := Heap.dimension?_eq_some.mp asked
    rw [callNative_uBound (cells.grid.upperBound_eq_error bare lengths (by simpa using beyond))]
    rfl
  · exact laid.grid.upperBound_congr laid.blank.bare cells.grid bare lengths (by simp)

/-- `Dim a(1, "2")`, then `a(1, 2) = 7`, `a(0, "2") = "x"` and `a(1, 2) = 9`. -/
theorem dim_has_bounds_written :
    let writes : List (List Value × Value) :=
      [([.number 1, .number 2], .number 7), ([.number 0, .text "2"], .text "x"),
        ([.number 1, .number 2], .number 9)]
    ∃ id s' h', exec 2 (.dim [⟨"a", some [.number 1, .text "2"], none⟩]) .initial = .ok () s' ∧
      s'.env.get? "a" = some (.array id) ∧ (writes.forM fun w ↦ write "a" (.array id) w.1 w.2)
        s'.heap = .ok () h' ∧
      h'.read "a" (.array id) [.number 1, .number 2] = .ok (.number 9) ∧
      h'.read "a" (.array id) [.number 1, .number 1] = .ok .empty ∧
      callNative 0 .uBound [.array id, .number 2] h' = .ok (.number (Number.ofNat 2)) h' ∧
      callNative 0 .uBound [.array id, .number 3] h' = .error (.indexOutOfRange 3) h' ∧
      ∀ x, h'.upperBound (.array id) x = s'.heap.upperBound (.array id) x := by
  intro writes
  have evaluated : evalAll (eval 1) [.number 1, .text "2"] .initial = .ok [.number 1, .text "2"]
      .initial := rfl
  obtain ⟨-, -, id, h, declared, bound, answers⟩ :=
    @dim_has_bounds "a" _ _ [1, 2] _ _ _ (by decide) (by decide) evaluated rfl
  have last : List.Forall₂ (· ≤ ·) [1, 2] [1, 2] := by decide
  have row : List.Forall₂ (· ≤ ·) [0, 2] [1, 2] := by decide
  have between : List.Forall₂ (· ≤ ·) [1, 1] [1, 2] := by decide
  have inRange : ∀ w ∈ writes, ∃ u, tuple? w.1 = some u ∧ List.Forall₂ (· ≤ ·) u [1, 2] := by
    simp only [writes, List.forall_mem_cons]
    exact ⟨⟨_, rfl, last⟩, ⟨_, rfl, row⟩, ⟨_, rfl, last⟩, by simp⟩
  obtain ⟨h', done, dimensioned, plain⟩ := answers "a" writes inRange
  obtain ⟨beyond, same⟩ := plain (by decide)
  exact ⟨id, _, h', declared, bound, done, dimensioned.reads "a" _ [1, 2] rfl last,
    dimensioned.reads "a" _ [1, 1] rfl between, dimensioned.upper 0 (.number 2) 1 2 rfl rfl,
    beyond 0 (.number 3) 2 rfl (Nat.le_refl 2), same⟩

end Machine

end MiniBasic
