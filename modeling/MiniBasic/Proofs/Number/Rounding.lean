import Mathlib.Algebra.Order.Field.Power
import Mathlib.Tactic.FieldSimp
import Mathlib.Tactic.Linarith
import Mathlib.Tactic.Positivity
import Mathlib.Tactic.Ring
import MiniBasic.Number.Decimal

/-!
# Rounding to doubles

A mantissa with its two residual bits describes a positive rational as far as rounding to the
nearest double needs to know it. Shifting keeps the description, so rounding finds the double whose
interval the rational lies in, whatever mantissa and exponent it was given by.
-/

namespace MiniBasic.Number

open Float.Model Float.Model.UnpackedFloat

theorem two_zpow_pos (e : ℤ) : (0 : ℚ) < 2 ^ e :=
  zpow_pos (by norm_num) e

/-! ## Descriptions -/

/-- The rational `x` lies above `em.mantissa · 2 ^ e` by a part `r < 1` of the last place, and the
two residual bits tell whether `r` is at least one half, and whether it is neither zero nor one
half. -/
def Describes (em : ExtendedMantissa) (e : ℤ) (x : ℚ) : Prop :=
  ∃ r : ℚ, x = (em.mantissa + r) * 2 ^ e ∧ 0 ≤ r ∧ r < 1 ∧ (em.roundBit = true ↔ 1 / 2 ≤ r) ∧
    (em.stickyBit = true ↔ r ≠ 0 ∧ r ≠ 1 / 2)

theorem Describes.shiftRightOne {em : ExtendedMantissa} {e : ℤ} {x : ℚ} (h : Describes em e x) :
    Describes em.shiftRightOne (e + 1) x := by
  obtain ⟨r, hx, hr, hr1, hround, hsticky⟩ := h
  have rest : (em.roundBit || em.stickyBit) = true ↔ r ≠ 0 := by
    rw [Bool.or_eq_true, hround, hsticky]
    constructor
    · rintro (half | ⟨h, -⟩)
      · linarith
      · exact h
    · intro h
      by_cases half : r = 1 / 2
      · exact .inl half.ge
      · exact .inr ⟨h, half⟩
  have split : (em.mantissa : ℚ) = 2 * (em.mantissa / 2 : ℕ) + (em.mantissa % 2 : ℕ) := by
    exact_mod_cast (Nat.div_add_mod em.mantissa 2).symm
  -- the last bit of the mantissa goes into the part of the last place
  rcases Nat.mod_two_eq_zero_or_one em.mantissa with last | last
  · rw [last, Nat.cast_zero, add_zero] at split
    refine ⟨r / 2, ?_, by linarith, by linarith, ?_, ?_⟩
    · rw [hx, split, zpow_add_one₀ (by norm_num), ExtendedMantissa.shiftRightOne]
      ring
    · simp only [ExtendedMantissa.shiftRightOne, last, bne_self_eq_false, Bool.false_eq_true,
        false_iff]
      linarith
    · simp only [ExtendedMantissa.shiftRightOne, rest]
      refine ⟨fun h ↦ ⟨fun h' ↦ h (by linarith), fun h' ↦ by linarith⟩, fun h h' ↦
        h.1 (by linarith)⟩
  · rw [last, Nat.cast_one] at split
    refine ⟨(1 + r) / 2, ?_, by linarith, by linarith, ?_, ?_⟩
    · rw [hx, split, zpow_add_one₀ (by norm_num), ExtendedMantissa.shiftRightOne]
      ring
    · simp only [ExtendedMantissa.shiftRightOne, last, bne_iff_ne, ne_eq, one_ne_zero,
        not_false_eq_true, true_iff]
      linarith
    · simp only [ExtendedMantissa.shiftRightOne, rest]
      refine ⟨fun h ↦ ⟨fun h' ↦ by linarith, fun h' ↦ h (by linarith)⟩, fun h h' ↦
        h.2 (by linarith)⟩

theorem Describes.shiftRight {em : ExtendedMantissa} {e : ℤ} {x : ℚ} (h : Describes em e x)
    (n : ℕ) :
    Describes (em >>> n) (e + n) x := by
  induction n with
  | zero =>
    rw [Nat.cast_zero, add_zero]
    exact h
  | succ n ih =>
    rw [Nat.cast_succ, ← add_assoc]
    exact ih.shiftRightOne

theorem describes_exact (m : ℕ) (e : ℤ) :
    Describes (.ofMantissaAndAccuracy m .exact) e (m * 2 ^ e) := by
  refine ⟨0, ?_, le_rfl, one_pos, ?_, ?_⟩
  · simp [ExtendedMantissa.ofMantissaAndAccuracy]
  · simp [ExtendedMantissa.ofMantissaAndAccuracy]
  · simp [ExtendedMantissa.ofMantissaAndAccuracy]

/-- A quotient that is cut off, with the accuracy of its remainder. -/
theorem describes_quotient (n : ℕ) {d : ℕ} (hd : 0 < d) (e : ℤ) :
    Describes (.ofMantissaAndAccuracy (n / d) (accuracyOfFraction (n % d) d)) e
      ((n / d : ℚ) * 2 ^ e) := by
  have hd' : (0 : ℚ) < d := by exact_mod_cast hd
  have small : n % d < d := Nat.mod_lt n hd
  have quotient : (n / d : ℚ) = (n / d : ℕ) + (n % d : ℕ) / (d : ℚ) := by
    have : (n : ℚ) = d * (n / d : ℕ) + (n % d : ℕ) := by exact_mod_cast (Nat.div_add_mod n d).symm
    rw [this]
    field_simp
  have mantissa (a : Accuracy) : (ExtendedMantissa.ofMantissaAndAccuracy (n / d) a).mantissa =
      n / d := by
    cases a with
    | exact => rfl
    | inexact o => cases o <;> rfl
  refine ⟨(n % d : ℕ) / (d : ℚ), by rw [mantissa, quotient], by positivity, ?_, ?_⟩
  · rw [div_lt_one hd']
    exact_mod_cast small
  generalize n % d = r at small ⊢
  have half : 1 / 2 ≤ (r : ℚ) / d ↔ d ≤ 2 * r := by
    rw [div_le_div_iff₀ two_pos hd', one_mul, mul_comm]
    exact_mod_cast Iff.rfl
  have tie : (r : ℚ) / d = 1 / 2 ↔ 2 * r = d := by
    rw [div_eq_div_iff hd'.ne' two_ne_zero, one_mul, mul_comm]
    exact_mod_cast Iff.rfl
  have zero : (r : ℚ) / d = 0 ↔ r = 0 := by
    rw [div_eq_zero_iff]
    simp [hd.ne']
  rw [half, ne_eq, ne_eq, zero, tie]
  unfold accuracyOfFraction
  split
  case isTrue h =>
    exact ⟨iff_of_false Bool.false_ne_true (by omega), iff_of_false Bool.false_ne_true (by omega)⟩
  case isFalse h =>
    cases hc : compare (2 * r) d with
    | lt =>
      have := Nat.compare_eq_lt.mp hc
      exact ⟨iff_of_false Bool.false_ne_true (by omega), iff_of_true rfl (by omega)⟩
    | eq =>
      have := Nat.compare_eq_eq.mp hc
      exact ⟨iff_of_true rfl (by omega), iff_of_false Bool.false_ne_true (by omega)⟩
    | gt =>
      have := Nat.compare_eq_gt.mp hc
      exact ⟨iff_of_true rfl (by omega), iff_of_true rfl (by omega)⟩

/-! ## Rounding -/

/-- `x` lies within half a unit of `m` in the place `2 ^ e`, and only at the very end if `m` is
even. -/
structure Nearest (x : ℚ) (m : ℕ) (e : ℤ) : Prop where
  lower : (m - 1 / 2) * 2 ^ e ≤ x
  upper : x ≤ (m + 1 / 2) * 2 ^ e
  tie : x = (m - 1 / 2) * 2 ^ e ∨ x = (m + 1 / 2) * 2 ^ e → m % 2 = 0

theorem Describes.roundedMantissa {em : ExtendedMantissa} {e : ℤ} {x : ℚ}
    (h : Describes em e x) {m : ℕ} (hm : Nearest x m e) : em.roundedMantissa = m := by
  obtain ⟨r, hx, hr, hr1, hround, hsticky⟩ := h
  have pos := two_zpow_pos e
  have lower : (m : ℚ) - 1 / 2 ≤ em.mantissa + r := le_of_mul_le_mul_right (hx ▸ hm.lower) pos
  have upper : (em.mantissa : ℚ) + r ≤ m + 1 / 2 := le_of_mul_le_mul_right (hx ▸ hm.upper) pos
  obtain ⟨n, roundBit, stickyBit⟩ := em
  dsimp only at *
  have equal {a b : ℕ} (h : (a : ℚ) < b + 1) (h' : (b : ℚ) < a + 1) : a = b := by
    have : a < b + 1 := by exact_mod_cast h
    have : b < a + 1 := by exact_mod_cast h'
    omega
  cases roundBit with
  | false =>
    have low : r < 1 / 2 := by
      by_contra high
      exact Bool.false_ne_true (hround.mpr (by linarith))
    cases stickyBit with
    | false =>
      change n = m
      exact equal (by linarith) (by linarith)
    | true =>
      change n = m
      exact equal (by linarith) (by linarith)
  | true =>
    have high : 1 / 2 ≤ r := hround.mp rfl
    cases stickyBit with
    | false =>
      have half : r = 1 / 2 := by
        by_contra other
        exact Bool.false_ne_true (hsticky.mpr ⟨by linarith, other⟩)
      subst half
      have close : m = n ∨ m = n + 1 := by
        have : n ≤ m := by
          have : (n : ℚ) ≤ m := by linarith
          exact_mod_cast this
        have : m ≤ n + 1 := by
          have : (m : ℚ) ≤ n + 1 := by linarith
          exact_mod_cast this
        omega
      have even : m % 2 = 0 := by
        refine hm.tie ?_
        rw [hx]
        rcases close with rfl | rfl
        · exact .inr rfl
        · refine .inl ?_
          push_cast
          ring
      change n + n % 2 = m
      omega
    | true =>
      have above : 1 / 2 < r := lt_of_le_of_ne high (Ne.symm (hsticky.mp rfl).2)
      change n + 1 = m
      exact equal (by push_cast; linarith) (by push_cast; linarith)

/-- The mantissas and exponents of doubles: 53 bits, or fewer at the least exponent. -/
structure Canonical (m : ℕ) (e : ℤ) : Prop where
  pos : 0 < m
  small : m < 2 ^ 53
  least : -1074 ≤ e
  normal : 2 ^ 52 ≤ m ∨ e = -1074

/-- The quarters of a unit by which the interval of a double reaches down. -/
def quartersBelow (m : ℕ) (e : ℤ) : ℕ :=
  if m = 2 ^ 52 ∧ e ≠ -1074 then 1 else 2

/-- `x` lies in the interval of the rationals whose nearest double is `m · 2 ^ e`. -/
structure RoundsTo (x : ℚ) (m : ℕ) (e : ℤ) : Prop where
  lower : (m - quartersBelow m e / 4) * 2 ^ e ≤ x
  upper : x ≤ (m + 1 / 2) * 2 ^ e
  tie : x = (m - quartersBelow m e / 4) * 2 ^ e ∨ x = (m + 1 / 2) * 2 ^ e → m % 2 = 0

theorem targetExponent_binary64 (t : ℤ) :
    Format.binary64.targetExponent t = max (t - 53) (-1074) :=
  rfl

/-- Where a mantissa and exponent put a rational between powers of two. -/
theorem Describes.between {em : ExtendedMantissa} {e : ℤ} {x : ℚ} (h : Describes em e x)
    (hm : em.mantissa ≠ 0) :
    (2 : ℚ) ^ (totalExponent em.mantissa e - 1) ≤ x ∧ x < 2 ^ totalExponent em.mantissa e := by
  obtain ⟨r, hx, hr, hr1, -, -⟩ := h
  have pos := two_zpow_pos e
  have low : (2 : ℚ) ^ em.mantissa.log2 ≤ em.mantissa := by
    exact_mod_cast Nat.log2_self_le hm
  have high : (em.mantissa : ℚ) + 1 ≤ 2 ^ (em.mantissa.log2 + 1) := by
    exact_mod_cast Nat.lt_log2_self
  have shifted (n : ℕ) : (2 : ℚ) ^ ((n : ℤ) + e) = 2 ^ n * 2 ^ e := by
    rw [zpow_add₀ (by norm_num), zpow_natCast]
  have below : totalExponent em.mantissa e - 1 = (em.mantissa.log2 : ℤ) + e := by
    unfold totalExponent
    omega
  have above : totalExponent em.mantissa e = ((em.mantissa.log2 + 1 : ℕ) : ℤ) + e := by
    unfold totalExponent
    push_cast
    rfl
  rw [below, above, shifted, shifted, hx]
  constructor
  · exact mul_le_mul_of_nonneg_right (by linarith) pos.le
  · exact mul_lt_mul_of_pos_right (by linarith) pos

theorem mantissa_ofMantissaAndAccuracy (m : ℕ) (a : Accuracy) :
    (ExtendedMantissa.ofMantissaAndAccuracy m a).mantissa = m := by
  cases a with
  | exact => rfl
  | inexact o => cases o <;> rfl

namespace RoundsTo

variable {x : ℚ} {m : ℕ} {e : ℤ}

theorem half_le (hx : RoundsTo x m e) : (m - 1 / 2) * 2 ^ e ≤ x := by
  refine le_trans (mul_le_mul_of_nonneg_right ?_ (two_zpow_pos e).le) hx.lower
  unfold quartersBelow
  split
  · push_cast
    linarith
  · push_cast
    linarith

/-- In its own place, a rational is nearest to the mantissa of its double. -/
theorem nearest (hx : RoundsTo x m e) : Nearest x m e := by
  refine ⟨hx.half_le, hx.upper, ?_⟩
  rintro (tie | tie)
  · have low := hx.lower
    rw [tie] at low
    have quarters := le_of_mul_le_mul_right low (two_zpow_pos e)
    refine hx.tie (.inl ?_)
    unfold quartersBelow at quarters ⊢
    split at quarters
    case isTrue h =>
      push_cast at quarters
      linarith
    case isFalse h =>
      rw [if_neg h, tie]
      norm_num
  · exact hx.tie (.inr tie)

theorem lt_two_zpow (hx : RoundsTo x m e) (hc : Canonical m e) : x < 2 ^ (53 + e) := by
  have small : (m : ℚ) + 1 ≤ 2 ^ 53 := by exact_mod_cast hc.small
  rw [zpow_add₀ (by norm_num), zpow_ofNat]
  refine lt_of_le_of_lt hx.upper (mul_lt_mul_of_pos_right ?_ (two_zpow_pos e))
  linarith

/-- The exponent that a rational is rounded at is that of its double, or one less just below a power
of two. -/
theorem target (hx : RoundsTo x m e) (hc : Canonical m e) {n : ℕ} {k : ℤ} {a : Accuracy}
    (h : Describes (.ofMantissaAndAccuracy n a) k x)
    (hk : k ≤ Format.binary64.targetExponent (totalExponent n k)) :
    Format.binary64.targetExponent (totalExponent n k) = e ∨
      Format.binary64.targetExponent (totalExponent n k) = e - 1 ∧ m = 2 ^ 52 ∧ e ≠ -1074 ∧
        x < 2 ^ (52 + e) := by
  rw [targetExponent_binary64] at hk ⊢
  have least := hc.least
  have pos := two_zpow_pos e
  have low := hx.half_le
  by_cases hn : n = 0
  · -- nothing but the residual bits: this is below the least double
    subst hn
    obtain ⟨r, hr, -, hr1, -, -⟩ := h
    rw [mantissa_ofMantissaAndAccuracy, Nat.cast_zero, zero_add] at hr
    have total : totalExponent 0 k = 1 + k := by simp [totalExponent]
    rw [total] at hk ⊢
    have he : e = -1074 := by
      by_contra he
      have normal : (2 : ℚ) ^ 52 ≤ m := by exact_mod_cast hc.normal.resolve_right he
      have hke : (2 : ℚ) ^ k ≤ 2 ^ e := zpow_le_zpow_right₀ one_le_two (by omega)
      have : r * 2 ^ k < 2 ^ e := by
        calc r * 2 ^ k < 1 * 2 ^ k := mul_lt_mul_of_pos_right hr1 (two_zpow_pos k)
          _ ≤ 2 ^ e := by rwa [one_mul]
      have : (1 : ℚ) * 2 ^ e ≤ (m - 1 / 2) * 2 ^ e :=
        mul_le_mul_of_nonneg_right (by linarith) pos.le
      linarith
    omega
  · rw [← mantissa_ofMantissaAndAccuracy n a] at hn
    obtain ⟨lower, upper⟩ := h.between hn
    rw [mantissa_ofMantissaAndAccuracy] at lower upper
    generalize totalExponent n k = t at *
    have exponents {a b : ℤ} (h : (2 : ℚ) ^ a < 2 ^ b) : a < b :=
      (zpow_lt_zpow_iff_right₀ one_lt_two).mp h
    have ht := exponents (lower.trans_lt (hx.lt_two_zpow hc))
    by_cases he : e = -1074
    · omega
    · have normal := hc.normal.resolve_right he
      by_cases below : x < 2 ^ (52 + e)
      · have power : m = 2 ^ 52 := by
          by_contra other
          have : (2 : ℚ) ^ 52 + 1 ≤ m := by
            exact_mod_cast Nat.lt_of_le_of_ne normal (Ne.symm other)
          rw [zpow_add₀ (by norm_num), zpow_ofNat] at below
          have : (2 : ℚ) ^ 52 * 2 ^ e ≤ (m - 1 / 2) * 2 ^ e :=
            mul_le_mul_of_nonneg_right (by linarith) pos.le
          linarith
        have above : (2 : ℚ) ^ (51 + e) ≤ x := by
          refine le_trans ?_ low
          rw [zpow_add₀ (by norm_num), zpow_ofNat, power]
          refine mul_le_mul_of_nonneg_right ?_ pos.le
          norm_num
        have := exponents (lower.trans_lt below)
        have := exponents (above.trans_lt upper)
        refine .inr ⟨?_, power, he, below⟩
        omega
      · have := exponents ((not_lt.mp below).trans_lt upper)
        omega

/-- Just below a power of two, rounding happens one place further down, and up to that power. -/
theorem nearest_pred (hx : RoundsTo x (2 ^ 52) e) (he : e ≠ -1074) (below : x < 2 ^ (52 + e)) :
    Nearest x (2 ^ 53) (e - 1) := by
  have half : (2 : ℚ) ^ (e - 1) = 2 ^ e / 2 := zpow_sub_one₀ (by norm_num) e
  have pos := two_zpow_pos e
  have lower := hx.lower
  rw [quartersBelow, if_pos ⟨rfl, he⟩] at lower
  rw [zpow_add₀ (by norm_num), zpow_ofNat] at below
  refine ⟨?_, ?_, fun _ ↦ rfl⟩
  · rw [half]
    refine le_of_eq_of_le ?_ lower
    push_cast
    ring
  · rw [half]
    push_cast
    linarith

end RoundsTo

theorem shiftToTargetExponent_canonical {m : ℕ} {e : ℤ} (hc : Canonical m e) :
    shiftToTargetExponent Format.binary64 m e .exact = (⟨m, false, false⟩, e) := by
  have bits : m.log2 < 53 := (Nat.log2_lt hc.pos.ne').mpr hc.small
  have least := hc.least
  have none : (Format.binary64.targetExponent (totalExponent m e) - e).toNat = 0 := by
    rw [targetExponent_binary64, totalExponent]
    omega
  simp only [shiftToTargetExponent, shiftToExponent, none, Nat.cast_zero, add_zero]
  rfl

theorem shiftToTargetExponent_carry {e : ℤ} (he : -1074 < e) :
    shiftToTargetExponent Format.binary64 (2 ^ 53)
      (e - 1) .exact = (⟨2 ^ 52, false, false⟩, e) := by
  have one :
      (Format.binary64.targetExponent (totalExponent (2 ^ 53) (e - 1)) - (e - 1)).toNat = 1 := by
    rw [targetExponent_binary64, totalExponent, Nat.log2_two_pow]
    omega
  simp only [shiftToTargetExponent, shiftToExponent, one]
  refine Prod.ext rfl ?_
  push_cast
  omega

/-- Rounding a rational in the interval of a double gives that double. -/
theorem roundWithAccuracy_eq {x : ℚ} {m : ℕ} {e : ℤ} (hx : RoundsTo x m e)
    (hc : Canonical m e) {n : ℕ} {k : ℤ} {a : Accuracy}
    (h : Describes (.ofMantissaAndAccuracy n a) k x)
    (hk : k ≤ Format.binary64.targetExponent (totalExponent n k)) (s : Sign) :
    roundWithAccuracy Format.binary64 s n k a = .finite s m e hc.pos := by
  have target := hx.target hc h hk
  generalize ht : Format.binary64.targetExponent (totalExponent n k) = t at hk target
  have exponent : k + (t - k).toNat = t := by omega
  have first : shiftToTargetExponent Format.binary64 n k a =
      (ExtendedMantissa.ofMantissaAndAccuracy n a >>> (t - k).toNat, t) := by
    simp only [shiftToTargetExponent, shiftToExponent, ht, exponent]
  have shifted := h.shiftRight (t - k).toNat
  rw [exponent] at shifted
  unfold roundWithAccuracy
  rw [first]
  dsimp only
  rcases target with rfl | ⟨rfl, rfl, he, below⟩
  · rw [shifted.roundedMantissa hx.nearest, shiftToTargetExponent_canonical hc]
    exact dif_neg hc.pos.ne'
  · have least := hc.least
    rw [shifted.roundedMantissa (hx.nearest_pred he below), shiftToTargetExponent_carry (by omega)]
    rfl

/-! ## Decimals -/

/-- An exact mantissa that has bits enough. -/
theorem roundWithAccuracy_exact {x : ℚ} {m : ℕ} {e : ℤ} (hx : RoundsTo x m e)
    (hc : Canonical m e) {n : ℕ} {k : ℤ} (value : x = n * 2 ^ k) (bits : 2 ^ 52 ≤ n) (s : Sign) :
    roundWithAccuracy Format.binary64 s n k .exact = .finite s m e hc.pos := by
  refine roundWithAccuracy_eq hx hc (value ▸ describes_exact n k) ?_ s
  have : 52 ≤ n.log2 := (Nat.le_log2 (by omega)).mpr bits
  rw [targetExponent_binary64, totalExponent]
  omega

/-- The bits of a quotient are one fewer than those of its parts suggest, or just as many. -/
theorem log2_sub_le_log2_div {n d : ℕ} (hn : n ≠ 0) (hd : 0 < d) (shift : ℕ) :
    n.log2 + shift ≤ (n <<< shift / d).log2 + d.log2 + 1 := by
  have low : 2 ^ (n.log2 + shift) ≤ n <<< shift := by
    rw [Nat.shiftLeft_eq, pow_add]
    exact Nat.mul_le_mul_right _ (Nat.log2_self_le hn)
  have high : n <<< shift < 2 ^ ((n <<< shift / d).log2 + 1) * 2 ^ (d.log2 + 1) := by
    calc n <<< shift < (n <<< shift / d + 1) * d := by
          rw [mul_comm]
          exact Nat.lt_mul_div_succ _ hd
      _ ≤ _ := Nat.mul_le_mul Nat.lt_log2_self Nat.lt_log2_self.le
  rw [← pow_add] at high
  have := (Nat.pow_lt_pow_iff_right (by norm_num)).mp (low.trans_lt high)
  omega

/-- The quotient of two whole numbers. -/
theorem div_eq {n d : ℕ} (hn : 0 < n) (hd : 0 < d) {m : ℕ} {e : ℤ} (hx : RoundsTo (n / d) m e)
    (hc : Canonical m e) :
    UnpackedFloat.div Format.binary64 (.finite .positive n 0 hn) (.finite .positive d 0 hd) =
      .finite .positive m e hc.pos := by
  unfold UnpackedFloat.div divCore
  dsimp only
  have total : totalExponent n 0 - totalExponent d 0 = (n.log2 : ℤ) - d.log2 := by
    unfold totalExponent
    omega
  rw [total, targetExponent_binary64, sub_self]
  generalize ht : min (0 : ℤ) (max ((n.log2 : ℤ) - d.log2 - 53) (-1074)) = t
  obtain ⟨shift, rfl⟩ : ∃ shift : ℕ, t = -shift := ⟨(-t).toNat, by omega⟩
  have amount : ((0 : ℤ) - -(shift : ℤ)).toNat = shift := by omega
  rw [amount]
  have value : (n / d : ℚ) = ((n <<< shift : ℕ) / d : ℚ) * 2 ^ (-(shift : ℤ)) := by
    rw [Nat.shiftLeft_eq, zpow_neg, zpow_natCast]
    push_cast
    field_simp
  refine roundWithAccuracy_eq hx hc (value ▸ describes_quotient _ hd _) ?_ .positive
  rw [targetExponent_binary64, totalExponent]
  have := log2_sub_le_log2_div hn.ne' hd shift
  omega

/-- The double nearest to a decimal is the one whose interval it lies in. -/
theorem ofScientific_eq {d : ℕ} {k : ℤ} {m : ℕ} {e : ℤ} (hx : RoundsTo (d * 10 ^ k) m e)
    (hc : Canonical m e) (he : e ≤ 971) :
    UnpackedFloat.ofScientific Format.binary64 d k = .finite .positive m e hc.pos := by
  have one : (1 : ℚ) ≤ m := by exact_mod_cast hc.pos
  have low : (2 : ℚ) ^ (e - 1) ≤ d * 10 ^ k := by
    refine le_trans ?_ hx.half_le
    rw [zpow_sub_one₀ (by norm_num)]
    have := two_zpow_pos e
    nlinarith
  have hd : 0 < d := by
    by_contra zero
    rw [Nat.eq_zero_of_not_pos zero, Nat.cast_zero, zero_mul] at low
    exact absurd low (not_le.mpr (two_zpow_pos _))
  have hd' : (1 : ℚ) ≤ d := by exact_mod_cast hd
  have exponents {a b : ℤ} (h : (2 : ℚ) ^ a < 2 ^ b) : a < b :=
    (zpow_lt_zpow_iff_right₀ one_lt_two).mp h
  have notHuge : ¬k > 2 ^ Format.binary64.exponentBits := by
    change ¬k > 2048
    intro huge
    have : (2 : ℚ) ^ k ≤ d * 10 ^ k := by
      have : (2 : ℚ) ^ k ≤ 10 ^ k := zpow_le_zpow_left₀ (by omega) (by norm_num) (by norm_num)
      have : (0 : ℚ) < 10 ^ k := by positivity
      nlinarith
    have := exponents (this.trans_lt (hx.lt_two_zpow hc))
    omega
  have notTiny : ¬k < -((2 ^ Format.binary64.exponentBits : ℤ) + d.log2) := by
    change ¬k < -(2048 + (d.log2 : ℤ))
    intro tiny
    have : (d : ℚ) * 10 ^ k < 2 ^ ((d.log2 : ℤ) + 1 + k) := by
      have high : (d : ℚ) < 2 ^ ((d.log2 : ℤ) + 1) := by
        exact_mod_cast Nat.lt_log2_self (n := d)
      obtain ⟨j, rfl⟩ : ∃ j : ℕ, k = -j := ⟨(-k).toNat, by omega⟩
      have : (10 : ℚ) ^ (-j : ℤ) ≤ 2 ^ (-j : ℤ) := by
        rw [zpow_neg, zpow_neg, zpow_natCast, zpow_natCast]
        exact inv_anti₀ (by positivity) (pow_le_pow_left₀ (by norm_num) (by norm_num) j)
      rw [zpow_add₀ (by norm_num)]
      calc (d : ℚ) * 10 ^ (-j : ℤ) ≤ d * 2 ^ (-j : ℤ) := by gcongr
        _ < _ := mul_lt_mul_of_pos_right high (two_zpow_pos _)
    have := exponents (low.trans_lt this)
    have := hc.least
    omega
  unfold UnpackedFloat.ofScientific
  rw [dif_neg hd.ne', if_neg notHuge, if_neg notTiny]
  by_cases hk : 0 ≤ k
  · rw [if_pos hk]
    obtain ⟨k, rfl⟩ := Int.eq_ofNat_of_zero_le hk
    have mantissa : d <<< Format.binary64.mantissaBits * 10 ^ (k : ℤ).toNat =
        d * 2 ^ 53 * 10 ^ k := by
      rw [Nat.shiftLeft_eq, Int.toNat_natCast]
      rfl
    have ten : 0 < 10 ^ k := by positivity
    unfold UnpackedFloat.mul
    dsimp only
    rw [mantissa]
    refine roundWithAccuracy_exact hx hc ?_ ?_ .positive
    · change _ = _ * (2 : ℚ) ^ (-53 : ℤ)
      rw [zpow_natCast]
      push_cast
      norm_num
      ring
    · nlinarith
  · rw [if_neg hk]
    refine div_eq hd _ ?_ hc
    obtain ⟨j, rfl⟩ : ∃ j : ℕ, k = -j := ⟨(-k).toNat, by omega⟩
    rw [zpow_neg, zpow_natCast, ← div_eq_mul_inv] at hx
    rw [neg_neg, Int.toNat_natCast]
    exact_mod_cast hx

end MiniBasic.Number
