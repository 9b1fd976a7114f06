import MiniBasic.Grammar.Expression
import MiniBasic.Proofs.Number.Packing
import MiniBasic.Proofs.Token.Piece

/-!
# Numbers read back as they were written

The shortest decimal of a double lies in the interval of that double, its positional text stands for
that decimal, and reading a decimal gives the double whose interval it lies in. The digits of a
whole number stand for the double itself.
-/

namespace MiniBasic.Number

open Float.Model Float.Model.UnpackedFloat

/-! ## The shortest decimal -/

/-- What a decimal stands for. -/
def Decimal.value (d : Decimal) : ℚ :=
  d.digits * 10 ^ d.exponent

theorem pow_toNat {b : ℚ} (hb : b ≠ 0) (e : ℤ) : b ^ e.toNat = b ^ e * b ^ (-e).toNat := by
  rcases le_total 0 e with he | he
  · obtain ⟨n, rfl⟩ := Int.eq_ofNat_of_zero_le he
    simp
  · obtain ⟨n, rfl⟩ : ∃ n : ℕ, e = -n := ⟨(-e).toNat, by omega⟩
    simp [hb]

/-- Comparing with quarters of the last place is comparing rationals. -/
theorem compareQuarter_eq (d : Decimal) (q : ℕ) (e : ℤ) :
    compareQuarter d q e = compare (4 * d.value) (q * 2 ^ e) := by
  have scale : (0 : ℚ) < 2 ^ (-e).toNat * 10 ^ (-d.exponent).toNat := by positivity
  have left : ((4 * d.digits * Nat.pow 10 d.exponent.toNat * Nat.pow 2 (-e).toNat : ℕ) : ℚ) =
      4 * d.value * (2 ^ (-e).toNat * 10 ^ (-d.exponent).toNat) := by
    simp only [Nat.pow_eq, Decimal.value]
    push_cast
    rw [pow_toNat (by norm_num) d.exponent]
    ring
  have right : ((q * Nat.pow 2 e.toNat * Nat.pow 10 (-d.exponent).toNat : ℕ) : ℚ) =
      q * 2 ^ e * (2 ^ (-e).toNat * 10 ^ (-d.exponent).toNat) := by
    simp only [Nat.pow_eq]
    push_cast
    rw [pow_toNat (by norm_num) e]
    ring
  cases h : compareQuarter d q e with
  | lt =>
    have : _ < _ := Nat.cast_lt (α := ℚ).mpr (Nat.compare_eq_lt.mp h)
    rw [left, right] at this
    exact (compare_lt_iff_lt.mpr (lt_of_mul_lt_mul_right this scale.le)).symm
  | eq =>
    have : _ = _ := congrArg (Nat.cast (R := ℚ)) (Nat.compare_eq_eq.mp h)
    rw [left, right] at this
    exact (compare_eq_iff_eq.mpr (mul_right_cancel₀ scale.ne' this)).symm
  | gt =>
    have : _ < _ := Nat.cast_lt (α := ℚ).mpr (Nat.compare_eq_gt.mp h)
    rw [left, right] at this
    exact (compare_gt_iff_gt.mpr (lt_of_mul_lt_mul_right this scale.le)).symm

/-- The test for reading back is the interval of a double. -/
theorem roundsTo_of_readsBackAs {d : Decimal} {m : ℕ} {e : ℤ} (hm : 0 < m)
    (h : readsBackAs d m e = true) : RoundsTo d.value m e := by
  have bound : quartersBelow m e ≤ 4 * m := by
    unfold quartersBelow
    split <;> omega
  have lower : ((m : ℚ) - quartersBelow m e / 4) * 2 ^ e =
      (4 * m - quartersBelow m e : ℕ) * 2 ^ e / 4 := by
    rw [Nat.cast_sub bound]
    push_cast
    ring
  have upper : ((m : ℚ) + 1 / 2) * 2 ^ e = (4 * m + 2 : ℕ) * 2 ^ e / 4 := by
    push_cast
    ring
  have gt (q : ℕ) (h : compareQuarter d q e = .gt) : q * 2 ^ e / 4 < d.value := by
    have := compare_gt_iff_gt.mp (compareQuarter_eq d q e ▸ h)
    linarith
  have lt (q : ℕ) (h : compareQuarter d q e = .lt) : d.value < q * 2 ^ e / 4 := by
    have := compare_lt_iff_lt.mp (compareQuarter_eq d q e ▸ h)
    linarith
  have eq (q : ℕ) (h : compareQuarter d q e = .eq) : d.value = q * 2 ^ e / 4 := by
    have := compare_eq_iff_eq.mp (compareQuarter_eq d q e ▸ h)
    linarith
  unfold readsBackAs at h
  dsimp only at h
  split at h
  case h_1 low high =>
    have low := gt (4 * m - quartersBelow m e) low
    have high := lt _ high
    rw [← lower] at low
    rw [← upper] at high
    exact ⟨low.le, high.le, fun tie ↦ absurd tie (not_or.mpr ⟨low.ne', high.ne⟩)⟩
  case h_2 low high =>
    have low := eq (4 * m - quartersBelow m e) low
    have high := lt _ high
    rw [← lower] at low
    rw [← upper] at high
    exact ⟨low.ge, high.le, fun _ ↦ eq_of_beq h⟩
  case h_3 low high =>
    have low := gt (4 * m - quartersBelow m e) low
    have high := eq _ high
    rw [← lower] at low
    rw [← upper] at high
    exact ⟨low.le, high.le, fun _ ↦ eq_of_beq h⟩
  case h_4 => cases h

/-- A double lies in its own interval. -/
theorem roundsTo_self (m : ℕ) (e : ℤ) : RoundsTo (m * 2 ^ e) m e := by
  have pos := two_zpow_pos e
  have below : (1 : ℚ) ≤ quartersBelow m e := by
    unfold quartersBelow
    split <;> norm_num
  have lower : ((m : ℚ) - quartersBelow m e / 4) * 2 ^ e < m * 2 ^ e :=
    mul_lt_mul_of_pos_right (by linarith) pos
  have upper : (m : ℚ) * 2 ^ e < (m + 1 / 2) * 2 ^ e := mul_lt_mul_of_pos_right (by linarith) pos
  exact ⟨lower.le, upper.le, fun tie ↦ absurd tie (not_or.mpr ⟨lower.ne', upper.ne⟩)⟩

theorem value_expansion (m : ℕ) (e : ℤ) : (expansion m e).value = m * 2 ^ e := by
  unfold expansion
  split
  case isTrue he =>
    obtain ⟨n, rfl⟩ := Int.eq_ofNat_of_zero_le he
    simp [Decimal.value]
  case isFalse he =>
    obtain ⟨n, rfl⟩ : ∃ n : ℕ, e = -n := ⟨(-e).toNat, by omega⟩
    have ten : (10 : ℚ) = 5 * 2 := by norm_num
    simp only [Decimal.value, Nat.pow_eq, neg_neg, Int.toNat_natCast, zpow_neg, zpow_natCast, ten,
      mul_pow]
    push_cast
    field_simp

/-- What `onGrid?` finds reads back. -/
theorem readsBackAs_of_onGrid? {m : ℕ} {e k : ℤ} {d : Decimal} (h : onGrid? m e k = some d) :
    readsBackAs d m e = true := by
  unfold onGrid? at h
  dsimp only at h
  split at h
  case h_1 lower upper =>
    split at h
    · exact Option.some.inj h ▸ lower
    · exact Option.some.inj h ▸ upper
  case h_2 lower _ => exact Option.some.inj h ▸ lower
  case h_3 _ upper => exact Option.some.inj h ▸ upper
  case h_4 => cases h

/-- The shortest decimal of a double reads back as that double. -/
theorem roundsTo_shortest {m : ℕ} (hm : 0 < m) (e : ℤ) : RoundsTo (shortest m e).value m e := by
  unfold shortest
  dsimp only
  cases h : (List.range 17).findSome? fun n : ℕ ↦ onGrid? m e (magnitude m e - (n + 1)) with
  | none =>
    rw [Option.getD_none, value_expansion]
    exact roundsTo_self m e
  | some d =>
    obtain ⟨n, -, found⟩ := List.exists_of_findSome?_eq_some h
    exact roundsTo_of_readsBackAs hm (readsBackAs_of_onGrid? found)

/-! ## Numerals -/

/-- Digits, and a fraction behind them. -/
structure Numeral (ds fs : List Char) : Prop where
  nonempty : ds ≠ []
  digits : ∀ d ∈ ds, d.isDigit = true
  fraction : Token.Fraction fs

/-- The number that a numeral stands for. -/
def numeralValue (ds fs : List Char) : Float :=
  ofDecimal false (digitsValue (ds ++ fs.tail)) (-fs.tail.length)

theorem takeSign_digit {d : Char} (hd : d.isDigit = true) (cs : List Char) :
    takeSign (d :: cs) = (false, d :: cs) := by
  unfold takeSign
  split
  case h_1 h =>
    rw [(List.cons.inj h).1] at hd
    exact absurd hd (by decide)
  case h_2 h =>
    rw [(List.cons.inj h).1] at hd
    exact absurd hd (by decide)
  case h_3 => rfl

theorem takeDigits_append {ds : List Char} (hds : ∀ d ∈ ds, d.isDigit = true) {cs : List Char}
    (hcs : ∀ c ∈ cs.head?, c.isDigit = false) : takeDigits (ds ++ cs) = (ds, cs) := by
  have rest : cs.takeWhile Char.isDigit = [] ∧ cs.dropWhile Char.isDigit = cs := by
    cases cs with
    | nil => exact ⟨rfl, rfl⟩
    | cons c cs =>
      have := hcs c rfl
      simp [this]
  rw [takeDigits, List.takeWhile_append_of_pos hds, List.dropWhile_append_of_pos hds,
    rest.1, rest.2, List.append_nil]

theorem takeFraction_eq {fs : List Char} (hfs : Token.Fraction fs) :
    takeFraction fs = (fs.tail, []) := by
  cases hfs with
  | none => rfl
  | point h =>
    have digits := @takeDigits_append _ h [] nofun
    rw [List.append_nil] at digits
    exact digits

theorem not_isTypeMark_of_isDigit {c : Char} (hc : c.isDigit = true) :
    Token.isTypeMark c = false := by
  by_contra mark
  simp only [Token.isTypeMark, Bool.not_eq_false, Bool.or_eq_true, beq_iff_eq] at mark
  rcases mark with (((rfl | rfl) | rfl) | rfl) | rfl <;> exact absurd hc (by decide)

namespace Numeral

variable {ds fs : List Char} (h : Numeral ds fs)

include h

theorem head_fraction {c : Char} (hc : c ∈ fs.head?) : c.isDigit = false := by
  cases h.fraction with
  | none => cases hc
  | point =>
    obtain rfl := Option.some.inj hc
    rfl

theorem read? : read? (ds ++ fs) = some (numeralValue ds fs) := by
  obtain ⟨d, ds', rfl⟩ := List.exists_cons_of_ne_nil h.nonempty
  have first : takeSign (d :: ds' ++ fs) = (false, d :: ds' ++ fs) :=
    takeSign_digit (h.digits d (List.mem_cons_self ..)) _
  have whole : takeDigits (d :: ds' ++ fs) = (d :: ds', fs) :=
    takeDigits_append h.digits fun c hc ↦ h.head_fraction hc
  simp only [Number.read?, leading?, first, whole, takeFraction_eq h.fraction]
  simp [takeExponent, numeralValue]

theorem not_isTypeMark {c : Char} (hc : c ∈ ds ++ fs) : Token.isTypeMark c = false := by
  rcases List.mem_append.mp hc with hc | hc
  · exact not_isTypeMark_of_isDigit (h.digits c hc)
  · cases h.fraction with
    | none => cases hc
    | point hfs =>
      rcases List.mem_cons.mp hc with rfl | hc
      · rfl
      · exact not_isTypeMark_of_isDigit (hfs c hc)

/-- A type mark behind a numeral is ignored. -/
theorem literal? {ms : List Char} (hms : Token.Mark ms) {text : String}
    (htext : text.toList = ds ++ fs ++ ms) : Parser.literal? text = some (numeralValue ds fs) := by
  have mark : ms.reverse.dropWhile Token.isTypeMark = [] := by
    cases hms with
    | none => rfl
    | mark hc => simp [hc]
  have numeral : (ds ++ fs).reverse.dropWhile Token.isTypeMark = (ds ++ fs).reverse := by
    cases last : (ds ++ fs).reverse with
    | nil => rfl
    | cons c cs =>
      have : c ∈ ds ++ fs := List.mem_reverse.mp (last ▸ List.mem_cons_self ..)
      rw [List.dropWhile_cons_of_neg (by simp [h.not_isTypeMark this])]
  have marks : (ds ++ fs ++ ms).reverse.dropWhile Token.isTypeMark = (ds ++ fs).reverse := by
    rw [List.reverse_append, List.dropWhile_append, mark]
    exact numeral
  rw [Parser.literal?, htext, marks, List.reverse_reverse, h.read?]

end Numeral

/-! ## The text of a decimal -/

theorem digitsValue_append (ds cs : List Char) :
    digitsValue (ds ++ cs) = 10 ^ cs.length * digitsValue ds + digitsValue cs := by
  have (ds : List Char) : digitsValue ds = Nat.ofDigitChars 10 ds 0 := rfl
  rw [this, this, this, Nat.ofDigitChars_append, Nat.ofDigitChars_eq_ofDigitChars_zero]

theorem digitsValue_replicate (n : ℕ) : digitsValue (List.replicate n '0') = 0 := by
  have : digitsValue (List.replicate n '0') = 10 ^ n * 0 := Nat.ofDigitChars_replicate_zero
  omega

theorem digitsValue_toDigits (n : ℕ) : digitsValue (Nat.toDigits 10 n) = n :=
  Nat.ofDigitChars_ten_toDigits

theorem isDigit_toDigits {n : ℕ} {d : Char} (hd : d ∈ Nat.toDigits 10 n) : d.isDigit = true :=
  Nat.isDigit_of_mem_toDigits (by norm_num) (by norm_num) hd

/-- Zeros at the end of a fraction do not count. -/
theorem exists_trailing_zeros (cs : List Char) :
    ∃ n, cs = (cs.reverse.dropWhile (· == '0')).reverse ++ List.replicate n '0' := by
  refine ⟨(cs.reverse.takeWhile (· == '0')).length, ?_⟩
  have zeros : cs.reverse.takeWhile (· == '0') =
      List.replicate (cs.reverse.takeWhile (· == '0')).length '0' :=
    List.eq_replicate_of_mem fun c hc ↦ eq_of_beq (List.mem_takeWhile_imp (p := (· == '0')) hc)
  rw [← List.reverse_replicate, ← zeros, ← List.reverse_append, List.takeWhile_append_dropWhile,
    List.reverse_reverse]

theorem Decimal.value_trailing_zeros (v n k : ℕ) :
    (⟨10 ^ n * v, -(k + n : ℕ)⟩ : Decimal).value = (⟨v, -k⟩ : Decimal).value := by
  simp only [value, zpow_neg, zpow_natCast, pow_add]
  push_cast
  field_simp

/-- Digits with a point before the last `n` of them, and without zeros at the end of the
fraction. -/
theorem exists_positional {ps : List Char} (all : ∀ d ∈ ps, d.isDigit = true) {n : ℕ}
    (long : n < ps.length) :
    ∃ ds fs,
      (match ((ps.drop (ps.length - n)).reverse.dropWhile (· == '0')).reverse with
        | [] => ps.take (ps.length - n)
        | fraction => ps.take (ps.length - n) ++ '.' :: fraction) = ds ++ fs ∧
      Numeral ds fs ∧
      (⟨digitsValue (ds ++ fs.tail), -fs.tail.length⟩ : Decimal).value =
        (⟨digitsValue ps, -n⟩ : Decimal).value := by
  obtain ⟨z, hz⟩ := exists_trailing_zeros (ps.drop (ps.length - n))
  generalize ((ps.drop (ps.length - n)).reverse.dropWhile (· == '0')).reverse = fs at hz ⊢
  have cut : ps = ps.take (ps.length - n) ++ fs ++ List.replicate z '0' := by
    rw [List.append_assoc, ← hz, List.take_append_drop]
  generalize hds : ps.take (ps.length - n) = ds at cut ⊢
  have whole : ds ≠ [] := by
    rintro rfl
    have := congrArg List.length hds
    rw [List.length_take, List.length_nil] at this
    omega
  have places : n = fs.length + z := by
    have := congrArg List.length hz
    rw [List.length_drop, List.length_append, List.length_replicate] at this
    omega
  have digits (c : Char) (hc : c ∈ ds ++ fs) : c.isDigit = true :=
    all c (cut ▸ List.mem_append_left _ hc)
  have value : (⟨digitsValue (ds ++ fs), -fs.length⟩ : Decimal).value =
      (⟨digitsValue ps, -n⟩ : Decimal).value := by
    rw [cut, digitsValue_append (ds ++ fs), digitsValue_replicate, List.length_replicate,
      Nat.add_zero, places, Decimal.value_trailing_zeros]
  cases fs with
  | nil =>
    exact ⟨ds, [], (List.append_nil ds).symm, ⟨whole, fun d hd ↦ digits d (by simp [hd]), .none⟩,
      value⟩
  | cons f fs =>
    refine ⟨ds, '.' :: f :: fs, rfl, ⟨whole, fun d hd ↦ digits d (by simp [hd]), ?_⟩, value⟩
    exact .point fun d hd ↦ digits d (List.mem_append_right _ hd)

/-- The text of a decimal is a numeral for its value. -/
theorem Decimal.exists_text (d : Decimal) :
    ∃ ds fs, d.text = ds ++ fs ∧ Numeral ds fs ∧
      (⟨digitsValue (ds ++ fs.tail), -fs.tail.length⟩ : Decimal).value = d.value := by
  obtain ⟨digits, exponent⟩ := d
  have zeros (n : ℕ) (c : Char) (hc : c ∈ List.replicate n '0') : c.isDigit = true := by
    rw [List.eq_of_mem_replicate hc]
    rfl
  unfold text
  dsimp only
  split
  case isTrue h =>
    obtain ⟨n, rfl⟩ := Int.eq_ofNat_of_zero_le h
    refine ⟨Nat.toDigits 10 digits ++ List.replicate n '0', [], by simp, ⟨?_, ?_, .none⟩, ?_⟩
    · simp
    · intro c hc
      exact (List.mem_append.mp hc).elim isDigit_toDigits (zeros n c)
    · rw [List.tail_nil, List.append_nil, digitsValue_append, digitsValue_toDigits,
        digitsValue_replicate, List.length_replicate, Nat.add_zero]
      simp [value, mul_comm]
  case isFalse h =>
    obtain ⟨n, rfl⟩ : ∃ n : ℕ, exponent = -n := ⟨(-exponent).toNat, by omega⟩
    rw [neg_neg, Int.toNat_natCast]
    have same : digitsValue (List.replicate (n + 1 - (Nat.toDigits 10 digits).length) '0' ++
        Nat.toDigits 10 digits) = digits := by
      rw [digitsValue_append, digitsValue_replicate, digitsValue_toDigits, Nat.mul_zero,
        Nat.zero_add]
    generalize hps : List.replicate (n + 1 - (Nat.toDigits 10 digits).length) '0' ++
      Nat.toDigits 10 digits = ps at same ⊢
    have all (c : Char) (hc : c ∈ ps) : c.isDigit = true := by
      rw [← hps] at hc
      exact (List.mem_append.mp hc).elim (zeros _ c) isDigit_toDigits
    have long : n < ps.length := by
      rw [← hps, List.length_append, List.length_replicate]
      omega
    have positional := exists_positional all long
    rwa [same] at positional

/-! ## Round trip -/

theorem ofDecimal_eq {d : Decimal} {x : Float} {m : ℕ} {e : ℤ} {hm : 0 < m}
    (hx : parts x = .finite .positive m e hm) (hd : RoundsTo d.value m e) :
    ofDecimal false d.digits d.exponent = x := by
  obtain ⟨hc, he⟩ := canonical_of_parts hx
  have nearest : UnpackedFloat.ofScientific .binary64 d.digits d.exponent = parts x := by
    rw [hx]
    exact ofScientific_eq hd hc he
  have : ofDecimal false d.digits d.exponent =
      ⟨.pack (.ofScientific .binary64 d.digits d.exponent)⟩ := rfl
  rw [this, nearest, pack_parts]

/-- The whole part of a whole number is the number. -/
theorem wholePart_of_isWhole {m : ℕ} {e : ℤ} (h : isWhole m e = true) :
    (wholePart m e : ℚ) = m * 2 ^ e := by
  have exact : wholePart m e * 2 ^ (-e).toNat = m * 2 ^ e.toNat :=
    Nat.div_mul_cancel (Nat.dvd_of_mod_eq_zero (eq_of_beq h))
  have scale : (2 ^ (-e).toNat : ℚ) ≠ 0 := by positivity
  apply mul_right_cancel₀ scale
  calc (wholePart m e : ℚ) * 2 ^ (-e).toNat = m * 2 ^ e.toNat := mod_cast exact
    _ = m * 2 ^ e * 2 ^ (-e).toNat := by rw [pow_toNat (by norm_num) e, mul_assoc]

theorem numeral_toDigits (n : ℕ) : Numeral (Nat.toDigits 10 n) [] :=
  ⟨by simp, fun _ hd ↦ isDigit_toDigits hd, .none⟩

/-- A number is written as a numeral that stands for it. -/
theorem exists_write {x : Float} (hx : Unsigned x) (style : Style) :
    ∃ ds fs, (write style x).toList = ds ++ fs ∧ Numeral ds fs ∧ numeralValue ds fs = x := by
  cases hx with
  | zero h =>
    refine ⟨['0'], [], ?_, ⟨nofun, List.forall_mem_singleton.mpr rfl, .none⟩, ?_⟩
    · rw [write, h]
      exact String.toList_ofList
    · rw [← pack_parts x, h]
      rfl
  | @finite m e hm h =>
    by_cases whole : isWhole m e ∧ wholePart m e < style.wholeBelow
    · refine ⟨Nat.toDigits 10 (wholePart m e), [], ?_, numeral_toDigits _, ?_⟩
      · rw [write, h, List.append_nil]
        exact (congrArg String.toList (if_pos whole)).trans String.toList_ofList
      · have value : (⟨wholePart m e, 0⟩ : Decimal).value = m * 2 ^ e := by
          rw [← wholePart_of_isWhole whole.1, Decimal.value, zpow_zero, mul_one]
        rw [numeralValue, List.tail_nil, List.append_nil, digitsValue_toDigits]
        exact ofDecimal_eq (d := ⟨_, _⟩) h (value ▸ roundsTo_self m e)
    · obtain ⟨ds, fs, text, numeral, value⟩ := (shortest m e).exists_text
      refine ⟨ds, fs, ?_, numeral, ofDecimal_eq (d := ⟨_, _⟩) h (value ▸ roundsTo_shortest hm e)⟩
      rw [write, h, ← text]
      exact (congrArg String.toList (if_neg whole)).trans String.toList_ofList

/-! ## Machine words -/

theorem toWord_ofDecimal_of_roundsTo {n m : ℕ} {e : ℤ} (hc : Canonical m e) (he : e ≤ 971)
    (hn : RoundsTo n m e) :
    toWord wholePart (ofDecimal false n 0) = min (wholePart m e) maxWord := by
  have : ofDecimal false n 0 = ⟨.pack (.ofScientific .binary64 n 0)⟩ := rfl
  rw [this, ofScientific_eq (by simpa using hn) hc he, toWord, parts_pack .positive hc he]

section Shift

variable {n k : ℕ}

/-- How far a whole number is shifted to have 53 bits. -/
theorem exists_shift (pos : 0 < n) (hn : n < 2 ^ 53) : ∃ k, k + n.log2 = 52 := by
  have bits : n.log2 < 53 := (Nat.log2_lt pos.ne').mpr hn
  exact ⟨52 - n.log2, by omega⟩

theorem canonical_shift (pos : 0 < n) (hk : k + n.log2 = 52) : Canonical (n * 2 ^ k) (-k) := by
  refine ⟨by positivity, ?_, by omega, .inl ?_⟩
  · calc n * 2 ^ k < 2 ^ (n.log2 + 1) * 2 ^ k :=
          Nat.mul_lt_mul_of_pos_right Nat.lt_log2_self (by positivity)
      _ = 2 ^ 53 := by rw [← pow_add]; congr 1; omega
  · calc 2 ^ 52 = 2 ^ n.log2 * 2 ^ k := by rw [← pow_add]; congr 1; omega
      _ ≤ n * 2 ^ k := Nat.mul_le_mul_right _ (Nat.log2_self_le pos.ne')

theorem shift_value (n k : ℕ) : (n : ℚ) = (n * 2 ^ k : ℕ) * 2 ^ (-(k : ℤ)) := by
  rw [zpow_neg, zpow_natCast]
  push_cast
  field_simp

end Shift

/-- Whole numbers of at most 53 bits are doubles. -/
theorem toWord_ofDecimal_of_lt {n : ℕ} (hn : n < 2 ^ 53) :
    toWord wholePart (ofDecimal false n 0) = n := by
  rcases Nat.eq_zero_or_pos n with rfl | pos
  · rfl
  obtain ⟨k, hk⟩ := exists_shift pos hn
  have hc := canonical_shift pos hk
  have value := shift_value n k
  have whole : wholePart (n * 2 ^ k) (-k) = n := by
    simp [wholePart]
  have := roundsTo_self (n * 2 ^ k) (-k)
  rw [← value] at this
  rw [toWord_ofDecimal_of_roundsTo hc (by omega) this, whole]
  refine min_eq_left ?_
  change n ≤ 2 ^ 64 - 1
  omega

/-- The largest word is no double, and the double nearest to it is larger. -/
theorem toWord_ofDecimal_maxWord : toWord wholePart (ofDecimal false maxWord 0) = maxWord := by
  have hc : Canonical (2 ^ 52) 12 := ⟨by norm_num, by norm_num, by norm_num, .inl le_rfl⟩
  have value : (maxWord : ℚ) = 2 ^ 64 - 1 := by norm_num [maxWord]
  have below : quartersBelow (2 ^ 52) 12 = 1 := if_pos ⟨rfl, by norm_num⟩
  refine toWord_ofDecimal_of_roundsTo hc (by norm_num) ⟨?_, ?_, fun _ ↦ by norm_num⟩
  · rw [below, value]
    norm_num
  · rw [value]
    norm_num

/-- The word that a number is cut to is cut to itself when it is read as a number again. -/
theorem toWord_ofDecimal_toWord (x : Float) :
    toWord wholePart (ofDecimal false (toWord wholePart x) 0) = toWord wholePart x := by
  generalize hw : toWord wholePart x = w
  unfold toWord at hw
  split at hw
  case h_1 m e hm h =>
    obtain ⟨hc, he⟩ := canonical_of_parts h
    by_cases large : maxWord ≤ wholePart m e
    · rw [min_eq_right large] at hw
      subst hw
      exact toWord_ofDecimal_maxWord
    rw [min_eq_left (not_le.mp large).le] at hw
    subst hw
    rcases le_or_gt 0 e with whole | fractional
    · obtain ⟨n, rfl⟩ := Int.eq_ofNat_of_zero_le whole
      have exact : (wholePart m n : ℚ) = m * 2 ^ (n : ℤ) := by simp [wholePart]
      have := roundsTo_self m n
      rw [← exact] at this
      exact (toWord_ofDecimal_of_roundsTo hc he this).trans (min_eq_left (not_le.mp large).le)
    · refine toWord_ofDecimal_of_lt (lt_of_le_of_lt ?_ hc.small)
      have none : e.toNat = 0 := by omega
      rw [wholePart, none]
      exact (Nat.div_le_self ..).trans_eq (mul_one m)
  case h_2 =>
    subst hw
    exact toWord_ofDecimal_maxWord
  case h_3 =>
    subst hw
    rfl

end MiniBasic.Number
