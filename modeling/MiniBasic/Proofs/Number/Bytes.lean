import MiniBasic.Number.Leading
import MiniBasic.Proofs.Token.Lossless

/-!
# Numerals in the bytes of a text

The functions that look for the end of a numeral go through bytes, and those that read one go
through characters. `Opens text offset rest` ties the two together: `rest` is what the text has from
a byte offset on, which is the offset of a character then. Each step along the bytes leads to where
the step along the characters leads.
-/

namespace MiniBasic.Number

open String (utf8EncodeChar)

/-! ## Bytes of characters -/

theorem toList_toUTF8 (text : String) :
    text.toUTF8.data.toList = text.toList.flatMap utf8EncodeChar := by
  have bytes : text.toUTF8 = text.toList.utf8Encode := String.utf8Encode_toList.symm
  rw [bytes, List.utf8Encode, List.data_toByteArray]

theorem length_flatMap_utf8EncodeChar (cs : List Char) :
    (cs.flatMap utf8EncodeChar).length = Token.byteLength cs := by
  induction cs with
  | nil => rfl
  | cons c cs ih =>
    rw [List.flatMap_cons, List.length_append, String.length_utf8EncodeChar, ih,
      Token.byteLength_cons]

theorem utf8Size_eq_one {c : Char} (h : c.toNat < 128) : c.utf8Size = 1 :=
  Char.utf8Size_eq_one_iff.mpr (UInt32.le_iff_toNat_le.mpr (Nat.le_of_lt_succ h))

/-- A character is a single byte with the same code, or its first byte is no code of a single
byte. -/
theorem utf8EncodeChar_cases (c : Char) :
    c.toNat < 128 ∧ utf8EncodeChar c = [c.toUInt8] ∨
      128 ≤ c.toNat ∧ ∃ b bs, utf8EncodeChar c = b :: bs ∧ 128 ≤ b.toNat := by
  have high {n : Nat} (low : 128 ≤ n) (top : n < 256) : 128 ≤ (UInt8.ofNat n).toNat := by
    rw [UInt8.toNat_ofNat_of_lt' top]
    exact low
  rcases Nat.lt_or_ge c.toNat 128 with single | several
  · exact .inl ⟨single, String.utf8EncodeChar_eq_singleton (utf8Size_eq_one single)⟩
  · refine .inr ⟨several, ?_⟩
    unfold utf8EncodeChar
    change ∃ b bs, (if c.toNat ≤ 127 then _ else _) = _ ∧ _
    rw [if_neg (by omega)]
    split_ifs
    · exact ⟨_, _, rfl, high (by omega) (by omega)⟩
    · exact ⟨_, _, rfl, high (by omega) (by omega)⟩
    · exact ⟨_, _, rfl, high (by omega) (by omega)⟩

theorem toNat_toUInt8 {c : Char} (h : c.toNat < 128) : c.toUInt8.toNat = c.toNat := by
  change c.toNat % 256 = c.toNat
  omega

theorem isDigitByte_toUInt8 {c : Char} (h : c.toNat < 128) : isDigitByte c.toUInt8 = c.isDigit := by
  simp only [isDigitByte, Char.isDigit, UInt8.le_iff_toNat_le, UInt32.le_iff_toNat_le,
    toNat_toUInt8 h, ge_iff_le]
  rfl

theorem not_isDigitByte {b : UInt8} (h : 128 ≤ b.toNat) : isDigitByte b = false := by
  have above : ¬b ≤ '9'.toUInt8 := by
    rw [UInt8.le_iff_toNat_le]
    exact fun low ↦ absurd (h.trans low) (by decide)
  rw [isDigitByte, decide_eq_false above, Bool.and_false]

theorem not_isDigit {c : Char} (h : 128 ≤ c.toNat) : c.isDigit = false := by
  have above : ¬c.val ≤ '9'.val := by
    rw [UInt32.le_iff_toNat_le]
    exact fun low ↦ absurd (h.trans low) (by decide)
  rw [Char.isDigit, decide_eq_false above, Bool.and_false]

theorem length_takeWhile_isDigitByte (cs : List Char) :
    ((cs.flatMap utf8EncodeChar).takeWhile isDigitByte).length =
      Token.byteLength (cs.takeWhile Char.isDigit) := by
  induction cs with
  | nil => rfl
  | cons c cs ih =>
    rw [List.flatMap_cons]
    rcases utf8EncodeChar_cases c with ⟨single, bytes⟩ | ⟨several, b, bs, bytes, first⟩
    · rw [bytes, List.singleton_append, List.takeWhile_cons, List.takeWhile_cons,
        isDigitByte_toUInt8 single]
      cases c.isDigit with
      | false => rfl
      | true =>
        simp only [if_true]
        rw [List.length_cons, ih, Token.byteLength_cons, utf8Size_eq_one single, Nat.add_comm]
    · rw [bytes, List.cons_append, List.takeWhile_cons, List.takeWhile_cons, not_isDigitByte first,
        not_isDigit several]
      rfl

/-- A byte with the code of a single byte is that character. -/
theorem head_utf8EncodeChar {c d : Char} (hd : d.toNat < 128) :
    d.toUInt8 ∈ (utf8EncodeChar c).head? ↔ c = d := by
  rcases utf8EncodeChar_cases c with ⟨single, bytes⟩ | ⟨several, b, bs, bytes, first⟩
  · rw [bytes, List.head?_cons, Option.mem_def, Option.some.injEq]
    constructor
    · intro same
      have codes := congrArg UInt8.toNat same
      rw [toNat_toUInt8 single, toNat_toUInt8 hd] at codes
      exact Char.toNat_inj.mp codes
    · rintro rfl
      rfl
  · rw [bytes, List.head?_cons, Option.mem_def, Option.some.injEq]
    constructor
    · rintro rfl
      rw [toNat_toUInt8 hd] at first
      omega
    · rintro rfl
      omega

theorem mem_head_flatMap {b : UInt8} {cs : List Char} :
    b ∈ (cs.flatMap utf8EncodeChar).head? ↔ ∃ c ∈ cs.head?, b ∈ (utf8EncodeChar c).head? := by
  cases cs with
  | nil => simp
  | cons c cs =>
    rw [List.flatMap_cons, List.head?_append_of_ne_nil _ String.utf8EncodeChar_ne_nil]
    simp

theorem singleBytes_of_all {cs : List Char} (h : cs.all (·.toNat < 128) = true) :
    ∀ c ∈ cs, c.toNat < 128 :=
  fun c hc ↦ of_decide_eq_true (List.all_eq_true.mp h c hc)

/-! ## Offsets of characters -/

/-- From the byte offset on, the text is `rest`. -/
def Opens (text : String) (offset : Nat) (rest : List Char) : Prop :=
  ∃ before, text.toList = before ++ rest ∧ offset = Token.byteLength before

theorem opens_zero (text : String) : Opens text 0 text.toList :=
  ⟨[], rfl, rfl⟩

namespace Opens

variable {text : String} {offset : Nat} {rest : List Char}

theorem append (cs : List Char) (h : Opens text offset (cs ++ rest)) :
    Opens text (offset + Token.byteLength cs) rest := by
  obtain ⟨before, split, rfl⟩ := h
  exact ⟨before ++ cs, by rw [split, List.append_assoc], (Token.byteLength_append before cs).symm⟩

theorem isValid (h : Opens text offset rest) : String.Pos.Raw.IsValid text ⟨offset⟩ := by
  obtain ⟨before, split, rfl⟩ := h
  exact Token.isValid_byteLength split

theorem drop (h : Opens text offset rest) :
    text.toUTF8.data.toList.drop offset = rest.flatMap utf8EncodeChar := by
  obtain ⟨before, split, rfl⟩ := h
  rw [toList_toUTF8, split, List.flatMap_append, ← length_flatMap_utf8EncodeChar, List.drop_left]

/-- If one of the characters is seen in the bytes, it stands there, and its only byte is that
one. -/
theorem next (h : Opens text offset rest) {cs : List Char} (single : ∀ c ∈ cs, c.toNat < 128)
    (has : hasByte cs text.toUTF8.data.toList offset = true) :
    ∃ c ∈ cs, ∃ behind, rest = c :: behind ∧ Opens text (offset + 1) behind := by
  rw [hasByte, ← List.head?_drop, h.drop, Option.any_eq_true] at has
  obtain ⟨b, hb, found⟩ := has
  obtain ⟨c, hc, same⟩ := List.any_eq_true.mp found
  obtain ⟨d, hd, hb⟩ := mem_head_flatMap.mp hb
  rw [← eq_of_beq same, head_utf8EncodeChar (single c hc)] at hb
  subst hb
  obtain ⟨behind, rfl⟩ : ∃ behind, rest = d :: behind := ⟨rest.tail, (List.cons_head?_tail hd).symm⟩
  refine ⟨d, hc, behind, rfl, ?_⟩
  have size : Token.byteLength [d] = 1 := utf8Size_eq_one (single d hc)
  rw [← size]
  exact h.append [d]

/-- If none of the characters is seen in the bytes, none stands there. -/
theorem ne_cons (h : Opens text offset rest) {cs : List Char} (single : ∀ c ∈ cs, c.toNat < 128)
    (hasNot : ¬hasByte cs text.toUTF8.data.toList offset = true) {c : Char} (hc : c ∈ cs)
    (behind : List Char) :
    rest ≠ c :: behind := by
  rintro rfl
  rw [hasByte, ← List.head?_drop, h.drop, Option.any_eq_true] at hasNot
  refine hasNot ⟨c.toUInt8, ?_, List.any_eq_true.mpr ⟨c, hc, BEq.rfl⟩⟩
  exact mem_head_flatMap.mpr ⟨c, rfl, (head_utf8EncodeChar (single c hc)).mpr rfl⟩

/-- What stands between two offsets. -/
theorem slice {cs : List Char} {stop : Nat} (h : Opens text offset (cs ++ rest))
    (h' : Opens text stop rest) :
    stop = offset + Token.byteLength cs ∧ Token.slice text offset stop = String.ofList cs := by
  obtain ⟨before, split, rfl⟩ := h
  obtain ⟨before', split', rfl⟩ := h'
  rw [split', ← List.append_assoc, List.append_cancel_right_eq] at split
  rw [split, Token.byteLength_append]
  exact ⟨rfl, Token.slice_eq (split ▸ split')⟩

theorem le_of_suffix {rest' : List Char} {stop : Nat} (h : Opens text offset rest)
    (h' : Opens text stop rest') (later : rest' <:+ rest) : offset ≤ stop := by
  obtain ⟨cs, rfl⟩ := later
  rw [(h.slice h').1]
  exact Nat.le_add_right _ _

/-! ## Steps along the bytes and along the characters -/

theorem digitsEnd_eq (h : Opens text offset rest) :
    digitsEnd text.toUTF8.data.toList offset = offset + Token.byteLength (takeDigits rest).1 := by
  rw [digitsEnd, h.drop, length_takeWhile_isDigitByte]
  rfl

theorem digitsEnd (h : Opens text offset rest) :
    Opens text (digitsEnd text.toUTF8.data.toList offset) (takeDigits rest).2 := by
  have split : rest = (takeDigits rest).1 ++ (takeDigits rest).2 :=
    List.takeWhile_append_dropWhile.symm
  rw [h.digitsEnd_eq]
  rw [split] at h
  exact h.append _

theorem signEnd (h : Opens text offset rest) :
    Opens text (signEnd text.toUTF8.data.toList offset) (takeSign rest).2 := by
  have single : ∀ c ∈ ['+', '-'], c.toNat < 128 := singleBytes_of_all rfl
  by_cases has : hasByte ['+', '-'] text.toUTF8.data.toList offset = true
  · obtain ⟨c, hc, behind, rfl, next⟩ := h.next single has
    rw [Number.signEnd, if_pos has]
    simp only [List.mem_cons, List.not_mem_nil, or_false] at hc
    rcases hc with rfl | rfl <;> exact next
  · rw [Number.signEnd, if_neg has]
    unfold takeSign
    split
    case h_1 => exact absurd rfl (h.ne_cons single has (by decide) _)
    case h_2 => exact absurd rfl (h.ne_cons single has (by decide) _)
    case h_3 => exact h

theorem fractionEnd (h : Opens text offset rest) :
    Opens text (fractionEnd text.toUTF8.data.toList offset) (takeFraction rest).2 := by
  have single : ∀ c ∈ ['.'], c.toNat < 128 := singleBytes_of_all rfl
  by_cases has : hasByte ['.'] text.toUTF8.data.toList offset = true
  · obtain ⟨c, hc, behind, rfl, next⟩ := h.next single has
    rw [Number.fractionEnd, if_pos has]
    obtain rfl := List.mem_singleton.mp hc
    exact next.digitsEnd
  · rw [Number.fractionEnd, if_neg has]
    unfold takeFraction
    split
    case h_1 => exact absurd rfl (h.ne_cons single has (by decide) _)
    case h_2 => exact h

theorem exponentEnd (h : Opens text offset rest) :
    Opens text (exponentEnd text.toUTF8.data.toList offset) (takeExponent rest).2 := by
  have single : ∀ c ∈ ['e', 'E'], c.toNat < 128 := singleBytes_of_all rfl
  by_cases has : hasByte ['e', 'E'] text.toUTF8.data.toList offset = true
  · obtain ⟨c, hc, behind, rfl, next⟩ := h.next single has
    have marked : (c == 'e' || c == 'E') = true := by
      simp only [List.mem_cons, List.not_mem_nil, or_false] at hc
      rcases hc with rfl | rfl <;> rfl
    have start := next.signEnd
    have stop := start.digitsEnd
    have digits := start.digitsEnd_eq
    rw [Number.exponentEnd, if_pos has]
    unfold takeExponent
    dsimp only
    rw [if_pos marked]
    cases read : takeDigits (takeSign behind).2 with
    | mk ds rest =>
      rw [read] at stop digits
      cases ds with
      | nil =>
        rw [if_neg (by rw [digits]; exact Nat.lt_irrefl _)]
        exact h
      | cons d ds =>
        have some := Token.byteLength_pos (List.cons_ne_nil d ds)
        rw [if_pos (by rw [digits]; exact Nat.lt_add_of_pos_right some)]
        exact stop
  · rw [Number.exponentEnd, if_neg has]
    cases rest with
    | nil => exact h
    | cons c behind =>
      have unmarked : ¬(c == 'e' || c == 'E') = true := by
        intro marked
        rw [Bool.or_eq_true, beq_iff_eq, beq_iff_eq] at marked
        rcases marked with rfl | rfl
        · exact h.ne_cons single has (by decide) _ rfl
        · exact h.ne_cons single has (by decide) _ rfl
      unfold takeExponent
      dsimp only
      rw [if_neg unmarked]
      exact h

end Opens

section Places

variable (text : String)

theorem opens_mantissaStart :
    Opens text (mantissaStart text.toUTF8.data.toList) (takeSign text.toList).2 :=
  (opens_zero text).signEnd

theorem opens_mantissaEnd :
    Opens text (mantissaEnd text.toUTF8.data.toList)
      (takeFraction (takeDigits (takeSign text.toList).2).2).2 :=
  (opens_mantissaStart text).digitsEnd.fractionEnd

theorem opens_numeralEnd :
    Opens text (numeralEnd text.toUTF8.data.toList)
      (takeExponent (takeFraction (takeDigits (takeSign text.toList).2).2).2).2 :=
  (opens_mantissaEnd text).exponentEnd

end Places

end MiniBasic.Number
