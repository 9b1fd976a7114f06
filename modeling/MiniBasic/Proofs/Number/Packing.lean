import MiniBasic.Number.Numeral
import MiniBasic.Proofs.Number.Rounding

/-!
# Doubles and their parts

A double and its parts determine each other: unpacking a double and packing its parts gives it back,
and what is packed with a mantissa and an exponent of the format unpacks to them.
-/

namespace MiniBasic.Number

open Float.Model Float.Model.UnpackedFloat

/-! ## Packing -/

theorem pack_normal (s : Sign) {m : ℕ} {e : ℤ} (hc : Canonical m e) (he : e ≤ 971)
    (normal : 2 ^ 52 ≤ m) :
    UnpackedFloat.pack .binary64 (.finite s m e hc.pos) =
      packComponents .binary64 s (BitVec.ofNat 11 (e + 1075).toNat) (BitVec.ofNat 52 m) := by
  have least := hc.least
  have bits : m.log2 = 52 := (Nat.log2_eq_iff hc.pos.ne').mpr ⟨normal, hc.small⟩
  have bias : (e + (Format.binary64.exponentBias : ℤ) + (52 : ℕ)).toNat = (e + 1075).toNat := by
    change (e + 1023 + 52).toNat = _
    omega
  unfold UnpackedFloat.pack
  dsimp only
  rw [bias, bits, if_neg (by change ¬2048 ≤ _; omega)]
  exact if_pos rfl

theorem pack_subnormal (s : Sign) {m : ℕ} (hm : 0 < m) (small : m < 2 ^ 52) :
    UnpackedFloat.pack .binary64 (.finite s m (-1074) hm) =
      packComponents .binary64 s 0#11 (BitVec.ofNat 52 m) := by
  have bits : m.log2 < 52 := (Nat.log2_lt hm.ne').mpr small
  unfold UnpackedFloat.pack
  dsimp only
  rw [if_neg (by decide), if_neg (by change ¬_ = 53; omega)]

section Unpack

theorem finite_congr {s s' : Sign} {m m' : ℕ} {e e' : ℤ} {hm : 0 < m} {hm' : 0 < m'} (hs : s = s')
    (mantissa : m = m') (exponent : e = e') :
    UnpackedFloat.finite s m e hm = .finite s' m' e' hm' := by
  subst hs mantissa exponent
  rfl

variable (s : Sign) {e : BitVec 11} {m : BitVec 52}

theorem ofBitVec_unpackSign :
    Sign.ofBitVec (unpackSign (packComponents .binary64 s e m)) = s := by
  change Sign.ofBitVec ((s.toBitVec ++ e ++ m).extractLsb' 63 1) = s
  rw [BitVec.extractLsb'_append_eq_of_le (by omega), BitVec.extractLsb'_append_eq_of_le (by omega)]
  cases s
  · rfl
  · rfl

theorem unpack_infinity :
    UnpackedFloat.unpack .binary64 (packComponents .binary64 s (-1#11) 0#52) = .infinity s := by
  unfold UnpackedFloat.unpack
  dsimp only
  rw [if_pos unpackExponent_packComponents, if_pos unpackMantissa_packComponents,
    ofBitVec_unpackSign]

theorem unpack_zero :
    UnpackedFloat.unpack .binary64 (packComponents .binary64 s 0#11 0#52) = .zero s := by
  have exponent : unpackExponent (packComponents .binary64 s 0#11 0#52) = 0#11 :=
    unpackExponent_packComponents
  unfold UnpackedFloat.unpack
  dsimp only
  rw [if_neg (by rw [exponent]; decide), if_pos exponent, dif_pos unpackMantissa_packComponents,
    ofBitVec_unpackSign]

theorem unpack_nan (hm : m ≠ 0#52) :
    UnpackedFloat.unpack .binary64 (packComponents .binary64 s (-1#11) m) = .notANumber := by
  unfold UnpackedFloat.unpack
  dsimp only
  rw [if_pos unpackExponent_packComponents, if_neg (by rwa [unpackMantissa_packComponents])]

theorem unpack_subnormal (hm : 0 < m.toNat) :
    UnpackedFloat.unpack .binary64 (packComponents .binary64 s 0#11 m) =
      .finite s m.toNat (-1074) hm := by
  have exponent : unpackExponent (packComponents .binary64 s 0#11 m) = 0#11 :=
    unpackExponent_packComponents
  have mantissa : unpackMantissa (packComponents .binary64 s 0#11 m) = m :=
    unpackMantissa_packComponents
  have some : m ≠ 0#52 := fun h ↦ hm.ne' (congrArg BitVec.toNat h)
  unfold UnpackedFloat.unpack
  dsimp only
  rw [if_neg (by rw [exponent]; decide), if_pos exponent, dif_neg (by rwa [mantissa])]
  refine finite_congr (ofBitVec_unpackSign s) (congrArg BitVec.toNat mantissa) ?_
  rw [exponent]
  rfl

theorem unpack_normal (he : e ≠ -1#11) (he' : e ≠ 0#11) :
    UnpackedFloat.unpack .binary64 (packComponents .binary64 s e m) =
      .finite s (2 ^ 52 + m.toNat) (e.toNat - 1075) (by omega) := by
  have exponent : unpackExponent (packComponents .binary64 s e m) = e :=
    unpackExponent_packComponents
  have mantissa : unpackMantissa (packComponents .binary64 s e m) = m :=
    unpackMantissa_packComponents
  have implicit : (1#1 ++ m).toNat = 2 ^ 52 + m.toNat := by
    rw [BitVec.toNat_append, Nat.shiftLeft_eq, Nat.mul_comm, ← Nat.two_pow_add_eq_or_of_lt m.isLt]
    rfl
  unfold UnpackedFloat.unpack
  dsimp only
  rw [if_neg (by rwa [exponent]), if_neg (by rwa [exponent])]
  refine finite_congr (ofBitVec_unpackSign s) (by rw [mantissa, implicit]) ?_
  rw [exponent]
  rfl

end Unpack

/-- A mantissa and an exponent of the format are unpacked as they were packed. -/
theorem unpack_pack (s : Sign) {m : ℕ} {e : ℤ} (hc : Canonical m e) (he : e ≤ 971) :
    UnpackedFloat.unpack .binary64 (UnpackedFloat.pack .binary64 (.finite s m e hc.pos)) =
      .finite s m e hc.pos := by
  have least := hc.least
  have small := hc.small
  by_cases normal : 2 ^ 52 ≤ m
  · have exponent : (BitVec.ofNat 11 (e + 1075).toNat).toNat = (e + 1075).toNat := by
      rw [BitVec.toNat_ofNat]
      omega
    have mantissa : (BitVec.ofNat 52 m).toNat = m - 2 ^ 52 := by
      rw [BitVec.toNat_ofNat]
      omega
    rw [pack_normal s hc he normal, unpack_normal]
    · exact finite_congr rfl (by omega) (by omega)
    · intro h
      have : (e + 1075).toNat = 2047 := exponent.symm.trans (congrArg BitVec.toNat h)
      omega
    · intro h
      have : (e + 1075).toNat = 0 := exponent.symm.trans (congrArg BitVec.toNat h)
      omega
  · obtain rfl := hc.normal.resolve_left normal
    have mantissa : (BitVec.ofNat 52 m).toNat = m := by
      rw [BitVec.toNat_ofNat]
      omega
    rw [pack_subnormal s hc.pos (by omega), unpack_subnormal s (by rw [mantissa]; exact hc.pos)]
    exact finite_congr rfl mantissa rfl

theorem exists_packComponents (b : BitVec 64) : ∃ s e m, packComponents .binary64 s e m = b := by
  refine ⟨.ofBitVec (b.extractLsb' 63 1), b.extractLsb' 52 11, b.extractLsb' 0 52, ?_⟩
  have sign : (Sign.ofBitVec (b.extractLsb' 63 1)).toBitVec = b.extractLsb' 63 1 := by
    generalize b.extractLsb' 63 1 = bit
    revert bit
    decide
  rw [packComponents, sign]
  change b.extractLsb' 63 1 ++ b.extractLsb' 52 11 ++ b.extractLsb' 0 52 = b
  rw [BitVec.extractLsb'_append_extractLsb'_eq_extractLsb' (show 63 = 52 + 11 from rfl),
    BitVec.extractLsb'_append_extractLsb'_eq_extractLsb' (show 52 = 0 + 52 from rfl)]
  exact BitVec.extractLsb'_eq_self

/-- The parts of a double, with a mantissa and an exponent of the format where there are any. -/
inductive OfFormat : UnpackedFloat → Prop where
  | notANumber : OfFormat .notANumber
  | infinity (s : Sign) : OfFormat (.infinity s)
  | zero (s : Sign) : OfFormat (.zero s)
  | finite (s : Sign) {m : ℕ} {e : ℤ} (hc : Canonical m e) (he : e ≤ 971) :
    OfFormat (.finite s m e hc.pos)

theorem OfFormat.unpack_pack {u : UnpackedFloat} (hu : OfFormat u) :
    UnpackedFloat.unpack .binary64 (UnpackedFloat.pack .binary64 u) = u := by
  cases hu with
  | notANumber => exact unpack_nan .positive (by decide)
  | infinity s => exact unpack_infinity s
  | zero s => exact unpack_zero s
  | finite s hc he => exact Number.unpack_pack s hc he

/-- Every double is packed from parts of the format. -/
theorem exists_pack {b : BitVec 64} (valid : Format.binary64.Valid b) :
    ∃ u, OfFormat u ∧ UnpackedFloat.pack .binary64 u = b := by
  obtain ⟨s, e, m, rfl⟩ := exists_packComponents b
  by_cases ones : e = -1#11
  · subst ones
    by_cases none : m = 0#52
    · subst none
      exact ⟨_, .infinity s, rfl⟩
    · exact ⟨_, .notANumber, (valid.eq_packedNaN unpackExponent_packComponents
        (unpackMantissa_packComponents ▸ none)).symm⟩
  by_cases zeros : e = 0#11
  · subst zeros
    by_cases none : m = 0#52
    · subst none
      exact ⟨_, .zero s, rfl⟩
    · have pos : 0 < m.toNat := Nat.pos_of_ne_zero fun h ↦ none (BitVec.eq_of_toNat_eq h)
      have small : m.toNat < 2 ^ 52 := m.isLt
      have hc : Canonical m.toNat (-1074) := ⟨pos, by omega, le_rfl, .inr rfl⟩
      refine ⟨_, .finite s hc (by norm_num), ?_⟩
      rw [pack_subnormal s pos small, BitVec.ofNat_toNat, BitVec.setWidth_eq]
  · have high : e.toNat < 2047 := by
      have : e.toNat ≠ 2047 := fun h ↦ ones (BitVec.eq_of_toNat_eq h)
      have : e.toNat < 2048 := e.isLt
      omega
    have low : 0 < e.toNat := Nat.pos_of_ne_zero fun h ↦ zeros (BitVec.eq_of_toNat_eq h)
    have small : m.toNat < 2 ^ 52 := m.isLt
    have hc : Canonical (2 ^ 52 + m.toNat) (e.toNat - 1075) :=
      ⟨by omega, by omega, by omega, .inl (by omega)⟩
    refine ⟨_, .finite s hc (by omega), ?_⟩
    rw [pack_normal s hc (by omega) (by omega)]
    congr 1
    · apply BitVec.eq_of_toNat_eq
      rw [BitVec.toNat_ofNat]
      omega
    · apply BitVec.eq_of_toNat_eq
      rw [BitVec.toNat_ofNat]
      omega

/-! ## Doubles -/

theorem pack_parts (x : Float) : (⟨.pack (parts x)⟩ : Float) = x := by
  obtain ⟨⟨bits, valid⟩⟩ := x
  obtain ⟨u, hu, packed⟩ := exists_pack valid
  have same : UnpackedFloat.pack .binary64 (UnpackedFloat.unpack .binary64 bits.toBitVec) =
      bits.toBitVec := by
    rw [← packed, hu.unpack_pack]
  have model : Float.Model.pack (parts ⟨⟨bits, valid⟩⟩) = ⟨bits, valid⟩ :=
    (Float.Model.mk.injEq ..).mpr (congrArg UInt64.ofBitVec same)
  rw [model]

theorem ofFormat_parts (x : Float) : OfFormat (parts x) := by
  obtain ⟨⟨bits, valid⟩⟩ := x
  obtain ⟨u, hu, packed⟩ := exists_pack valid
  have : parts ⟨⟨bits, valid⟩⟩ = u :=
    (congrArg (UnpackedFloat.unpack .binary64) packed.symm).trans hu.unpack_pack
  rwa [this]

theorem canonical_of_parts {x : Float} {s : Sign} {m : ℕ} {e : ℤ} {hm : 0 < m}
    (h : parts x = .finite s m e hm) : Canonical m e ∧ e ≤ 971 := by
  have format := ofFormat_parts x
  rw [h] at format
  cases format with
  | finite _ hc he => exact ⟨hc, he⟩

theorem parts_pack (s : Sign) {m : ℕ} {e : ℤ} (hc : Canonical m e) (he : e ≤ 971) :
    parts ⟨.pack (.finite s m e hc.pos)⟩ = .finite s m e hc.pos :=
  unpack_pack s hc he

/-! ## Signs -/

/-- Numbers without a minus sign. -/
def Positive : UnpackedFloat → Prop
  | .infinity s | .zero s | .finite s _ _ _ => s = .positive
  | .notANumber => False

theorem Positive.dite {c : Prop} [Decidable c] {u : c → UnpackedFloat} {v : ¬c → UnpackedFloat}
    (hu : ∀ h, Positive (u h)) (hv : ∀ h, Positive (v h)) :
    Positive (if h : c then u h else v h) := by
  by_cases h : c
  · rw [dif_pos h]
    exact hu h
  · rw [dif_neg h]
    exact hv h

theorem Positive.ite {c : Prop} [Decidable c] {u v : UnpackedFloat} (hu : Positive u)
    (hv : Positive v) : Positive (if c then u else v) := by
  by_cases h : c
  · rwa [if_pos h]
  · rwa [if_neg h]

theorem positive_roundWithAccuracy (spec : Format) (m : ℕ) (e : ℤ) (a : Accuracy) :
    Positive (roundWithAccuracy spec .positive m e a) := by
  unfold roundWithAccuracy
  exact .dite (fun _ ↦ rfl) fun _ ↦ rfl

theorem positive_ofScientific (spec : Format) (d : ℕ) (k : ℤ) :
    Positive (UnpackedFloat.ofScientific spec d k) := by
  unfold UnpackedFloat.ofScientific
  refine .dite (fun _ ↦ rfl) fun _ ↦ .ite rfl (.ite rfl (.ite ?_ ?_))
  · exact positive_roundWithAccuracy ..
  · exact positive_roundWithAccuracy ..

theorem positive_unpack {e : BitVec 11} {m : BitVec 52} (h : e = -1#11 → m = 0#52) :
    Positive (UnpackedFloat.unpack .binary64 (packComponents .binary64 .positive e m)) := by
  by_cases ones : e = -1#11
  · rw [h ones, ones, unpack_infinity]
    rfl
  by_cases zeros : e = 0#11
  · subst zeros
    by_cases none : m = 0#52
    · rw [none, unpack_zero]
      rfl
    · rw [unpack_subnormal _ (Nat.pos_of_ne_zero fun h ↦ none (BitVec.eq_of_toNat_eq h))]
      rfl
  · rw [unpack_normal _ ones zeros]
    rfl

theorem positive_unpack_pack {u : UnpackedFloat} (hu : Positive u) :
    Positive (UnpackedFloat.unpack .binary64 (UnpackedFloat.pack .binary64 u)) := by
  cases u with
  | notANumber => exact hu.elim
  | infinity s =>
    obtain rfl : s = .positive := hu
    exact positive_unpack fun _ ↦ rfl
  | zero s =>
    obtain rfl : s = .positive := hu
    exact positive_unpack fun _ ↦ rfl
  | finite s m e hm =>
    obtain rfl : s = .positive := hu
    unfold UnpackedFloat.pack
    dsimp only
    split
    case isTrue => exact positive_unpack fun _ ↦ rfl
    case isFalse bounded =>
      split
      · refine positive_unpack fun ones ↦ ?_
        have ones : _ % 2048 = 2047 := congrArg BitVec.toNat ones
        change ¬2048 ≤ _ at bounded
        omega
      · exact positive_unpack nofun

/-- What a numeral without a sign stands for. -/
theorem positive_ofDecimal (digits : ℕ) (exponent : ℤ) :
    Positive (parts (ofDecimal false digits exponent)) :=
  positive_unpack_pack (positive_ofScientific _ digits exponent)

/-- A finite number without a minus sign. -/
inductive Unsigned (x : Float) : Prop where
  | zero (h : parts x = .zero .positive)
  | finite {m : ℕ} {e : ℤ} {hm : 0 < m} (h : parts x = .finite .positive m e hm)

theorem unsigned_of_positive {x : Float} (hx : Positive (parts x)) (finite : x.isFinite = true) :
    Unsigned x := by
  change (parts x).isFinite = true at finite
  cases h : parts x with
  | notANumber =>
    rw [h] at hx
    exact hx.elim
  | infinity s =>
    rw [h] at finite
    exact absurd finite Bool.false_ne_true
  | zero s =>
    rw [h] at hx
    obtain rfl : s = .positive := hx
    exact .zero h
  | finite s m e hm =>
    rw [h] at hx
    obtain rfl : s = .positive := hx
    exact .finite h

end MiniBasic.Number
