import Mathlib.Algebra.Order.Floor.Semifield
import Mathlib.Data.Rat.Floor
import MiniBasic.Proofs.Number.Whole

/-!
# Positions

A position counts from one. A finite number that is at least one is a position, and it stands for
the whole number nearest to it, which is at least one too.
-/

namespace MiniBasic.Number

open Float.Model Float.Model.UnpackedFloat

/-- The exact value of a finite number; of the others it is zero. -/
def value (x : Float) : ℚ :=
  match parts x with
  | .finite s m e _ => s.apply m * 2 ^ e
  | _ => 0

/-- The whole number nearest to a number that is not negative, a half going up. -/
def rounded (x : Float) : ℕ :=
  ⌊value x + 1 / 2⌋₊

section Whole

variable (m : ℕ) (e : ℤ)

/-- The exact value as a quotient of whole numbers. -/
theorem mul_zpow_eq_div : (m * 2 ^ e : ℚ) = (m * 2 ^ e.toNat : ℕ) / (2 ^ (-e).toNat : ℕ) := by
  rw [eq_div_iff (by positivity)]
  push_cast
  rw [pow_toNat (by norm_num) e, mul_assoc]

theorem wholePart_eq_floor : wholePart m e = ⌊(m * 2 ^ e : ℚ)⌋₊ := by
  rw [mul_zpow_eq_div, Nat.floor_div_eq_div]
  rfl

theorem nearestWhole_eq_floor : nearestWhole m e = ⌊(m * 2 ^ e + 1 / 2 : ℚ)⌋₊ := by
  have halves : (m * 2 ^ e + 1 / 2 : ℚ) =
      (2 * (m * 2 ^ e.toNat) + 2 ^ (-e).toNat : ℕ) / (2 * 2 ^ (-e).toNat : ℕ) := by
    rw [mul_zpow_eq_div]
    push_cast
    field_simp
  rw [halves, Nat.floor_div_eq_div]
  rfl

end Whole

theorem mul_zpow_lt_one {m b : ℕ} {e : ℤ} (hm : m < 2 ^ b) (he : e ≤ -b) : (m * 2 ^ e : ℚ) < 1 := by
  have hm : (m : ℚ) < 2 ^ b := mod_cast hm
  calc (m * 2 ^ e : ℚ) < 2 ^ b * 2 ^ e := mul_lt_mul_of_pos_right hm (two_zpow_pos e)
    _ ≤ 2 ^ b * 2 ^ (-b : ℤ) := mul_le_mul_of_nonneg_left (zpow_le_zpow_right₀ (by norm_num) he)
      (by positivity)
    _ = 1 := by rw [zpow_neg, zpow_natCast, mul_inv_cancel₀ (by positivity)]

/-- Comparing a positive number with one is comparing its exact value. -/
theorem one_le_iff {x : Float} {m : ℕ} {e : ℤ} {hm : 0 < m}
    (h : parts x = .finite .positive m e hm) :
    1 ≤ x ↔ (1 : ℚ) ≤ m * 2 ^ e := by
  obtain ⟨hc, -⟩ := canonical_of_parts h
  rw [le_iff, parts_one, h, le_finite_iff]
  constructor
  · intro le
    -- a number with a larger exponent than that of one is not subnormal
    obtain ⟨normal, exponent⟩ : 2 ^ 52 ≤ m ∧ -52 ≤ e := by
      rcases le with less | ⟨rfl, le⟩
      · exact ⟨hc.normal.resolve_right (by omega), less.le⟩
      · exact ⟨le, le_rfl⟩
    calc (1 : ℚ) = (2 ^ 52 : ℕ) * 2 ^ (-52 : ℤ) := by norm_num
      _ ≤ m * 2 ^ e := by
        gcongr
        norm_num
  · intro one
    rcases lt_trichotomy (-52) e with less | rfl | greater
    · exact .inl less
    · refine .inr ⟨rfl, ?_⟩
      by_contra small
      exact (mul_zpow_lt_one (not_le.mp small) le_rfl).not_ge one
    · exact absurd one (mul_zpow_lt_one hc.small (by omega)).not_ge

/-- Of finite numbers, those that are not below one are at least one. -/
theorem one_le_iff_not_lt {x : Float} (finite : x.isFinite = true) : 1 ≤ x ↔ ¬x < 1 := by
  change (parts x).isFinite = true at finite
  rw [le_iff, lt_iff, parts_one]
  cases h : parts x with
  | notANumber =>
    rw [h] at finite
    cases finite
  | infinity s =>
    rw [h] at finite
    cases finite
  | zero s => exact iff_of_false Bool.false_ne_true fun above ↦ above rfl
  | finite s m e hm =>
    cases s with
    | negative => exact iff_of_false Bool.false_ne_true fun above ↦ above rfl
    | positive =>
      have swapped : ((compare (-52) e).then (compare (2 ^ 52) m)).swap =
          (compare e (-52)).then (compare m (2 ^ 52)) := by
        rw [Ordering.swap_then, Int.compare_swap, Nat.compare_swap]
      change (Ordering.then _ _).isLE = true ↔
        ¬(some (Ordering.then _ _) == some Ordering.lt) = true
      rw [← swapped, Option.some_beq_some, beq_iff_eq]
      cases (compare (-52) e).then (compare (2 ^ 52) m) <;> simp

theorem outside_iff {x : Float} :
    x < 1 ∨ ¬x.isFinite = true ↔ ¬(x.isFinite = true ∧ 1 ≤ x) := by
  by_cases finite : x.isFinite = true
  · rw [one_le_iff_not_lt finite]
    simp [finite]
  · simp [finite]

/-- The finite numbers from one on are positive. -/
theorem exists_parts_of_one_le {x : Float} (finite : x.isFinite = true) (one : 1 ≤ x) :
    ∃ m e hm, parts x = .finite .positive m e hm := by
  change (parts x).isFinite = true at finite
  rw [le_iff, parts_one] at one
  cases h : parts x with
  | notANumber =>
    rw [h] at finite
    cases finite
  | infinity s =>
    rw [h] at finite
    cases finite
  | zero s =>
    rw [h] at one
    cases one
  | finite s m e hm =>
    cases s with
    | positive => exact ⟨m, e, hm, rfl⟩
    | negative =>
      rw [h] at one
      cases one

section Positive

variable {x : Float} {m : ℕ} {e : ℤ} {hm : 0 < m} (h : parts x = .finite .positive m e hm)

include h

theorem value_of_positive : value x = m * 2 ^ e := by
  rw [value, h]
  rfl

theorem place_of_positive : place x = rounded x := by
  rw [place, h, rounded, value_of_positive h]
  exact nearestWhole_eq_floor m e

end Positive

section Position

variable {x : Float} (finite : x.isFinite = true) (one : 1 ≤ x)

include finite one

/-- A finite number from one on stands for the whole number nearest to it. -/
theorem place_eq_rounded : place x = rounded x := by
  obtain ⟨m, e, hm, hx⟩ := exists_parts_of_one_le finite one
  exact place_of_positive hx

/-- Cut to a machine word, it stands for the same place, as long as the word is wide enough. -/
theorem toWord_nearestWhole : toWord nearestWhole x = min (rounded x) maxWord := by
  obtain ⟨m, e, hm, hx⟩ := exists_parts_of_one_le finite one
  rw [← place_of_positive hx, toWord, place, hx]

/-- No position stands for zero. -/
theorem rounded_pos : 0 < rounded x := by
  obtain ⟨m, e, hm, hx⟩ := exists_parts_of_one_le finite one
  have : 1 ≤ value x := by
    rw [value_of_positive hx]
    exact (one_le_iff hx).mp one
  rw [rounded, Nat.floor_pos]
  linarith

end Position

end MiniBasic.Number
