import MiniBasic.Proofs.Number.Display

/-!
# Whole numbers as doubles

A whole number of at most 53 bits is a double. As an index it stands for itself, and so it does as a
count of dimensions.
-/

namespace MiniBasic.Number

open Float.Model Float.Model.UnpackedFloat

theorem round_whole {n k : ℕ} (pos : 0 < n) (hk : k + n.log2 = 52) :
    UnpackedFloat.round .binary64 .positive n 0 = .finite .positive (n * 2 ^ k) (-k)
      (canonical_shift pos hk).pos := by
  have hc := canonical_shift pos hk
  have exponent : Format.binary64.targetExponent (totalExponent n 0) = -k := by
    rw [targetExponent_binary64, totalExponent]
    omega
  have shifted : decreaseExponent n 0 (-k) = (n * 2 ^ k, -(k : ℤ)) := by
    rw [decreaseExponent]
    simp [Nat.shiftLeft_eq]
  have bits : 2 ^ 52 ≤ n * 2 ^ k := by
    rcases hc.normal with normal | least
    · exact normal
    · omega
  unfold UnpackedFloat.round
  dsimp only
  rw [exponent, shifted]
  exact roundWithAccuracy_exact (roundsTo_self _ _) hc rfl bits _

/-- The parts of a whole number. -/
theorem parts_ofNat {n k : ℕ} (pos : 0 < n) (hk : k + n.log2 = 52) :
    parts (ofNat n) = .finite .positive (n * 2 ^ k) (-k) (canonical_shift pos hk).pos := by
  have normal : UnpackedFloat.normalize .binary64 n 0 .positive =
      .finite .positive (n * 2 ^ k) (-k) (canonical_shift pos hk).pos := by
    rw [UnpackedFloat.normalize, Std.compare_eq_gt.mpr (by omega)]
    exact round_whole pos hk
  rw [ofNat, ofInt, nearest, normal]
  exact parts_pack .positive (canonical_shift pos hk) (by omega)

theorem nearestWhole_shift (n k : ℕ) : nearestWhole (n * 2 ^ k) (-k) = n := by
  have pos : 0 < 2 ^ k := by positivity
  rw [nearestWhole, neg_neg, Int.toNat_natCast, Int.toNat_neg_natCast]
  change (2 * (n * 2 ^ k * 1) + 2 ^ k) / (2 * 2 ^ k) = n
  apply Nat.div_eq_of_lt_le
  · linarith
  · linarith

theorem index?_ofNat {n : ℕ} (hn : n < 2 ^ 53) : index? (ofNat n) = some n := by
  rcases Nat.eq_zero_or_pos n with rfl | pos
  · rfl
  obtain ⟨k, hk⟩ := exists_shift pos hn
  rw [index?, parts_ofNat pos hk]
  exact congrArg some (nearestWhole_shift n k)

theorem toWord_ofNat {n : ℕ} (hn : n < 2 ^ 53) : toWord nearestWhole (ofNat n) = n := by
  rcases Nat.eq_zero_or_pos n with rfl | pos
  · rfl
  obtain ⟨k, hk⟩ := exists_shift pos hn
  rw [toWord, parts_ofNat pos hk]
  dsimp only
  rw [nearestWhole_shift]
  refine min_eq_left ?_
  change n ≤ 2 ^ 64 - 1
  omega

theorem le_iff {x y : Float} : x ≤ y ↔ (parts x).le (parts y) = true :=
  decide_eq_true_iff

theorem lt_iff {x y : Float} : x < y ↔ (parts x).lt (parts y) = true :=
  decide_eq_true_iff

theorem parts_one : parts 1 = .finite .positive (2 ^ 52) (-52) (by decide) :=
  rfl

/-- Positive numbers are compared by their exponents, and then by their mantissas. -/
theorem le_finite_iff {m m' : ℕ} {e e' : ℤ} (hm : 0 < m) (hm' : 0 < m') :
    UnpackedFloat.le (.finite .positive m e hm) (.finite .positive m' e' hm') = true ↔
      e < e' ∨ e = e' ∧ m ≤ m' := by
  change ((compare e e').then (compare m m')).isLE = true ↔ _
  rcases lt_trichotomy e e' with less | rfl | greater
  · rw [Int.compare_eq_lt.mpr less]
    exact iff_of_true rfl (.inl less)
  · rw [Int.compare_eq_eq.mpr rfl]
    refine Nat.isLE_compare.trans ⟨fun le ↦ .inr ⟨rfl, le⟩, ?_⟩
    rintro (less | ⟨-, le⟩)
    · exact absurd less (lt_irrefl e)
    · exact le
  · rw [Int.compare_eq_gt.mpr greater]
    refine iff_of_false Bool.false_ne_true ?_
    rintro (less | ⟨rfl, -⟩)
    · exact greater.not_gt less
    · exact lt_irrefl e greater

theorem one_le_ofNat {n : ℕ} (pos : 0 < n) (hn : n < 2 ^ 53) : 1 ≤ ofNat n := by
  obtain ⟨k, hk⟩ := exists_shift pos hn
  rw [le_iff, parts_one, parts_ofNat pos hk, le_finite_iff]
  rcases Nat.lt_or_eq_of_le (show k ≤ 52 by omega) with less | rfl
  · exact .inl (by omega)
  · exact .inr ⟨rfl, Nat.le_mul_of_pos_left _ pos⟩

end MiniBasic.Number
