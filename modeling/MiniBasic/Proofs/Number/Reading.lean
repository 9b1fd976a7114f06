import Mathlib.Data.List.DropRight
import MiniBasic.Heap.Native
import MiniBasic.Proofs.Number.Bytes
import MiniBasic.Proofs.Number.Display

/-!
# What reads as a number

`Spells` gives the form of numerals without regard to how they are read: an optional sign, digits
with at most one point among or around them, and an optional exponent. `leading?` takes a numeral
from the start of a text, and behind it goes on with whatever cannot be part of one. So a text that
is numeric is converted to the same number by arithmetic, which wants the whole text, and by the
functions that read as far as they can.
-/

namespace MiniBasic

namespace Number

/-! ## Numerals -/

/-- An optional sign, and whether it is a minus. -/
inductive SignText : List Char → Bool → Prop
  | none : SignText [] false
  | plus : SignText ['+'] false
  | minus : SignText ['-'] true

/-- An optional exponent: a mark, an optional sign and digits, at least one. -/
inductive ExponentText : List Char → ℤ → Prop
  | none : ExponentText [] 0
  | mark {c : Char} {sign ds : List Char} {negative : Bool} (mark : c = 'e' ∨ c = 'E')
    (hsign : SignText sign negative) (nonempty : ds ≠ []) (digits : ∀ d ∈ ds, d.isDigit = true) :
    ExponentText (c :: (sign ++ ds)) (if negative then -(digitsValue ds) else digitsValue ds)

/-- The text is a numeral for the number. Of the digits before and behind the point, one at least is
there. -/
inductive Spells : List Char → Float → Prop
  | numeral {sign ds fs ex : List Char} {negative : Bool} {k : ℤ} (hsign : SignText sign negative)
    (digits : ∀ d ∈ ds, d.isDigit = true) (fraction : Token.Fraction fs)
    (nonempty : ds ≠ [] ∨ fs.tail ≠ []) (exponent : ExponentText ex k) :
    Spells (sign ++ (ds ++ (fs ++ ex)))
      (ofDecimal negative (digitsValue (ds ++ fs.tail)) (k - fs.tail.length))

/-! ## Numerals are read -/

/-- The text does not begin with a character of the given kind. -/
def Stops (p : Char → Bool) (cs : List Char) : Prop :=
  ∀ c ∈ cs.head?, p c = false

def isSign (c : Char) : Bool :=
  c == '+' || c == '-'

/-- What digits with a point could go on with. -/
def inMantissa (c : Char) : Bool :=
  c.isDigit || c == '.'

/-- What a numeral could go on with. -/
def inNumeral (c : Char) : Bool :=
  inMantissa c || c == 'e' || c == 'E'

section Stops

variable {p q : Char → Bool} {cs ds : List Char}

theorem stops_nil : Stops p [] :=
  fun _ h ↦ by cases h

theorem Stops.mono (h : Stops p cs) (sub : ∀ c, q c = true → p c = true) : Stops q cs := by
  intro c hc
  by_contra hq
  have := sub c (Bool.not_eq_false _ ▸ hq)
  rw [h c hc] at this
  cases this

theorem Stops.cons {c : Char} (h : p c = false) (cs : List Char) : Stops p (c :: cs) := by
  intro d hd
  rwa [← Option.some.inj hd]

theorem Stops.append (hds : ∀ d ∈ ds, p d = false) (hcs : ds = [] → Stops p cs) :
    Stops p (ds ++ cs) := by
  cases ds with
  | nil => exact hcs rfl
  | cons d ds => exact .cons (hds d List.mem_cons_self) _

end Stops

theorem not_isSign_of_isDigit {c : Char} (h : c.isDigit = true) : isSign c = false := by
  by_contra sign
  simp only [isSign, Bool.not_eq_false, Bool.or_eq_true, beq_iff_eq] at sign
  rcases sign with rfl | rfl <;> exact absurd h (by decide)

theorem SignText.takeSign {sign cs : List Char} {negative : Bool} (h : SignText sign negative)
    (hcs : Stops isSign cs) :
    takeSign (sign ++ cs) = (negative, cs) := by
  cases h with
  | none =>
    rw [List.nil_append]
    unfold Number.takeSign
    split
    case h_1 => exact absurd (hcs _ rfl) (by decide)
    case h_2 => exact absurd (hcs _ rfl) (by decide)
    case h_3 => rfl
  | plus => rfl
  | minus => rfl

theorem takeFraction_append {fs cs : List Char} (h : Token.Fraction fs)
    (hcs : Stops inMantissa cs) :
    takeFraction (fs ++ cs) = (fs.tail, cs) := by
  cases h with
  | none =>
    rw [List.nil_append]
    unfold takeFraction
    split
    case h_1 => exact absurd (hcs _ rfl) (by decide)
    case h_2 => rfl
  | point digits => exact takeDigits_append digits (hcs.mono fun c hc ↦ by simp [inMantissa, hc])

theorem ExponentText.takeExponent {ex cs : List Char} {k : ℤ} (h : ExponentText ex k)
    (hcs : Stops inNumeral cs) :
    takeExponent (ex ++ cs) = (k, cs) := by
  cases h with
  | none =>
    rw [List.nil_append]
    unfold Number.takeExponent
    split
    case h_1 c cs =>
      have mark : (c == 'e' || c == 'E') = false := by
        have := hcs c rfl
        simp only [inNumeral, Bool.or_eq_false_iff] at this ⊢
        exact ⟨this.1.2, this.2⟩
      rw [mark]
      rfl
    case h_2 => rfl
  | @mark c sign ds negative mark hsign nonempty digits =>
    have marked : (c == 'e' || c == 'E') = true := by
      rcases mark with rfl | rfl <;> rfl
    have first : Stops isSign (ds ++ cs) :=
      .append (fun d hd ↦ not_isSign_of_isDigit (digits d hd)) fun none ↦ absurd none nonempty
    have read := takeDigits_append digits (hcs.mono fun c hc ↦ by simp [inNumeral, inMantissa, hc])
    simp only [Number.takeExponent, List.cons_append, List.append_assoc, marked,
      hsign.takeSign first, read, if_true]

section Mantissa

variable {ds fs cs : List Char} (digits : ∀ d ∈ ds, d.isDigit = true) (fraction : Token.Fraction fs)

include digits fraction

/-- Digits with a point are read up to what cannot be part of them. -/
theorem mantissa_of_stops (hcs : Stops inMantissa cs) :
    takeDigits (ds ++ (fs ++ cs)) = (ds, fs ++ cs) ∧ takeFraction (fs ++ cs) = (fs.tail, cs) := by
  have fractional : Stops Char.isDigit (fs ++ cs) := by
    cases fraction with
    | none => exact hcs.mono fun c hc ↦ by simp [inMantissa, hc]
    | point => exact .cons rfl _
  exact ⟨takeDigits_append digits fractional, takeFraction_append fraction hcs⟩

theorem mantissa_stops_isSign (nonempty : ds ≠ [] ∨ fs.tail ≠ []) :
    Stops isSign (ds ++ (fs ++ cs)) := by
  refine .append (fun d hd ↦ not_isSign_of_isDigit (digits d hd)) fun none ↦ ?_
  cases fraction with
  | none => exact absurd rfl (nonempty.resolve_left fun some ↦ some none)
  | point => exact .cons rfl _

end Mantissa

theorem ExponentText.stops_inMantissa {ex : List Char} {k : ℤ} (h : ExponentText ex k)
    (some : ex ≠ []) (cs : List Char) : Stops inMantissa (ex ++ cs) := by
  cases h with
  | none => exact absurd rfl some
  | mark mark => rcases mark with rfl | rfl <;> exact .cons rfl _

/-- A numeral is read from the start of a text, if it does not go on with what could be part of
it. -/
theorem Spells.leading? {t cs : List Char} {x : Float} (h : Spells t x) (hcs : Stops inNumeral cs) :
    leading? (t ++ cs) = some (x, cs) := by
  cases h with
  | @numeral sign ds fs ex negative k hsign digits fraction nonempty exponent =>
    have behind : Stops inMantissa (ex ++ cs) := by
      by_cases none : ex = []
      · rw [none, List.nil_append]
        exact hcs.mono fun c hc ↦ by simp [inNumeral, hc]
      · exact exponent.stops_inMantissa none cs
    have first : Stops isSign (ds ++ (fs ++ (ex ++ cs))) :=
      mantissa_stops_isSign digits fraction nonempty
    obtain ⟨whole, fractional⟩ := mantissa_of_stops digits fraction behind
    have some : (ds.isEmpty && fs.tail.isEmpty) = false := by
      rw [Bool.and_eq_false_iff]
      simpa using nonempty
    simp only [Number.leading?, List.append_assoc, hsign.takeSign first, whole, fractional, some,
      exponent.takeExponent hcs]
    rfl

/-! ## Only numerals are read -/

theorem exists_takeSign (cs : List Char) :
    ∃ sign, cs = sign ++ (takeSign cs).2 ∧ SignText sign (takeSign cs).1 := by
  unfold takeSign
  split
  case h_1 => exact ⟨['+'], rfl, .plus⟩
  case h_2 => exact ⟨['-'], rfl, .minus⟩
  case h_3 => exact ⟨[], rfl, .none⟩

theorem takeDigits_eq (cs : List Char) :
    cs = (takeDigits cs).1 ++ (takeDigits cs).2 ∧ ∀ d ∈ (takeDigits cs).1, d.isDigit = true :=
  ⟨List.takeWhile_append_dropWhile.symm, fun _ hd ↦ List.mem_takeWhile_imp hd⟩

theorem exists_takeFraction (cs : List Char) :
    ∃ fs, cs = fs ++ (takeFraction cs).2 ∧ Token.Fraction fs ∧ (takeFraction cs).1 = fs.tail := by
  unfold takeFraction
  split
  case h_1 cs =>
    obtain ⟨split, digits⟩ := takeDigits_eq cs
    exact ⟨'.' :: (takeDigits cs).1, congrArg ('.' :: ·) split, .point digits, rfl⟩
  case h_2 => exact ⟨[], rfl, .none, rfl⟩

theorem exists_takeExponent (cs : List Char) :
    ∃ ex, cs = ex ++ (takeExponent cs).2 ∧ ExponentText ex (takeExponent cs).1 := by
  have without : ∃ ex, cs = ex ++ cs ∧ ExponentText ex 0 := ⟨[], rfl, .none⟩
  cases cs with
  | nil => exact without
  | cons c cs =>
    unfold takeExponent
    dsimp only
    split
    next marked =>
      obtain ⟨sign, signed, hsign⟩ := exists_takeSign cs
      obtain ⟨split, digits⟩ := takeDigits_eq (takeSign cs).2
      cases read : takeDigits (takeSign cs).2 with
      | mk ds rest =>
        cases ds with
        | nil => exact without
        | cons d ds =>
          rw [read] at split digits
          refine ⟨c :: (sign ++ d :: ds), ?_,
            .mark (by simpa using marked) hsign (List.cons_ne_nil d ds) digits⟩
          rw [List.cons_append, List.append_assoc, ← split, ← signed]
    next => exact without

/-- What is read from the start of a text is a numeral. -/
theorem exists_spells_of_leading? {cs rest : List Char} {x : Float}
    (h : leading? cs = some (x, rest)) :
    ∃ t, cs = t ++ rest ∧ Spells t x := by
  obtain ⟨sign, signed, hsign⟩ := exists_takeSign cs
  obtain ⟨whole, digits⟩ := takeDigits_eq (takeSign cs).2
  obtain ⟨fs, fractional, fraction, tail⟩ := exists_takeFraction (takeDigits (takeSign cs).2).2
  obtain ⟨ex, scaled, exponent⟩ :=
    exists_takeExponent (takeFraction (takeDigits (takeSign cs).2).2).2
  unfold leading? at h
  dsimp only at h
  split at h
  next => cases h
  next nonempty =>
    cases h
    rw [tail] at nonempty ⊢
    refine ⟨sign ++ ((takeDigits (takeSign cs).2).1 ++ (fs ++ ex)), ?_,
      .numeral hsign digits fraction ?_ exponent⟩
    · rw [List.append_assoc, List.append_assoc, List.append_assoc, ← scaled, ← fractional, ← whole,
        ← signed]
    · rw [Bool.and_eq_true, not_and_or] at nonempty
      simpa using nonempty

theorem Spells.read? {t : List Char} {x : Float} (h : Spells t x) : read? t = some x := by
  have read := h.leading? stops_nil
  rw [List.append_nil] at read
  rw [Number.read?, read]

theorem Spells.ne_nil {t : List Char} {x : Float} (h : Spells t x) : t ≠ [] := by
  rintro rfl
  cases h.read?

/-! ## Numerals are found in the bytes -/

/-- Digits and a point without any digit. -/
theorem mantissa_bare_iff {ds fs : List Char} (digits : ∀ d ∈ ds, d.isDigit = true)
    (fraction : Token.Fraction fs) :
    ds ++ fs = [] ∨ ds ++ fs = ['.'] ↔ (ds.isEmpty && fs.tail.isEmpty) = true := by
  cases ds with
  | nil => cases fraction <;> simp
  | cons d ds =>
    have digit := digits d List.mem_cons_self
    have point : d ≠ '.' := by
      rintro rfl
      cases digit
    simp [point]

/-- How reading a numeral ends: without any digit, or behind the exponent. -/
theorem leading?_cases (cs : List Char) :
    let digits := takeDigits (takeSign cs).2
    let fraction := takeFraction digits.2
    (digits.1.isEmpty && fraction.1.isEmpty) = true ∧ leading? cs = none ∨
      (digits.1.isEmpty && fraction.1.isEmpty) = false ∧
        ∃ x, leading? cs = some (x, (takeExponent fraction.2).2) := by
  intro digits fraction
  cases bare : digits.1.isEmpty && fraction.1.isEmpty with
  | true => exact .inl ⟨rfl, if_pos bare⟩
  | false => exact .inr ⟨rfl, _, if_neg (Bool.eq_false_iff.mp bare)⟩

/-- What is found between the sign and the exponent has no digit if none is read there. -/
theorem mantissa_bare_bytes_iff (text : String) :
    let start := mantissaStart text.toUTF8.data.toList
    let stop := mantissaEnd text.toUTF8.data.toList
    let digits := takeDigits (takeSign text.toList).2
    stop = start ∨ Token.slice text start stop = "." ↔
      (digits.1.isEmpty && (takeFraction digits.2).1.isEmpty) = true := by
  intro start stop digits
  obtain ⟨whole, all⟩ := takeDigits_eq (takeSign text.toList).2
  obtain ⟨fs, fractional, fraction, tail⟩ := exists_takeFraction digits.2
  have opens := opens_mantissaStart text
  rw [whole, fractional, ← List.append_assoc] at opens
  obtain ⟨offset, between⟩ := opens.slice (opens_mantissaEnd text)
  rw [tail, ← mantissa_bare_iff all fraction]
  refine or_congr ?_ ?_
  · rw [show stop = start + _ from offset, Nat.add_eq_left, Token.byteLength_eq_zero_iff]
  · rw [show Token.slice text start stop = _ from between]
    exact String.ofList_inj

/-- The part of a text that is found in its bytes is what is read from its characters. -/
theorem slice_numeralEnd {text : String} {t rest : List Char} {x : Float}
    (read : leading? text.toList = some (x, rest)) (split : text.toList = t ++ rest) :
    Token.slice text 0 (numeralEnd text.toUTF8.data.toList) = String.ofList t := by
  have opens := opens_zero text
  have ends := opens_numeralEnd text
  rcases leading?_cases text.toList with ⟨-, none⟩ | ⟨-, y, found⟩
  · rw [none] at read
    cases read
  · rw [read] at found
    cases found
    rw [split] at opens
    exact (opens.slice ends).2

/-- The number at the start of a text is the one that is read from its characters. -/
theorem leadingNumber?_eq (s : String) :
    leadingNumber? s = (leading? (Text.trimStart s.toList)).map (·.1) := by
  have chars : (String.ofList (Text.trimStart s.toList)).toList = Text.trimStart s.toList :=
    String.toList_ofList
  generalize text : String.ofList (Text.trimStart s.toList) = trimmed at chars
  have bare := mantissa_bare_bytes_iff trimmed
  unfold leadingNumber?
  rw [text, ← chars]
  rcases leading?_cases trimmed.toList with ⟨none, read⟩ | ⟨some, x, read⟩
  · rw [read]
    exact if_pos (bare.mpr none)
  · obtain ⟨t, split, spells⟩ := exists_spells_of_leading? read
    have whole : read? (Token.slice trimmed 0 (numeralEnd trimmed.toUTF8.data.toList)).toList =
        Option.some x := by
      rw [slice_numeralEnd read split, String.toList_ofList, spells.read?]
    rw [read]
    refine (if_neg fun none ↦ ?_).trans whole
    rw [bare.mp none] at some
    cases some

/-- The words stand for what is not finite. -/
theorem not_isFinite_of_word? {cs : List Char} {x : Float} (h : word? cs = some x) :
    x.isFinite = false := by
  have infinite (sign : Float.Model.UnpackedFloat.Sign) : (infinity sign).isFinite = false := by
    cases sign <;> rfl
  unfold word? at h
  dsimp only at h
  split at h
  next =>
    cases h
    exact infinite _
  next =>
    cases h
    exact infinite _
  next =>
    cases h
    rfl
  next => cases h

/-- The texts that read as a finite number are the numerals for it. -/
theorem read?_eq_some_iff {cs : List Char} {x : Float} (finite : x.isFinite = true) :
    read? cs = some x ↔ Spells cs x := by
  constructor
  · intro h
    unfold read? at h
    split at h
    case h_1 read =>
      cases h
      obtain ⟨t, rfl, spells⟩ := exists_spells_of_leading? read
      rwa [List.append_nil]
    case h_2 =>
      rw [not_isFinite_of_word? h] at finite
      cases finite
  · exact Spells.read?

/-! ## Blanks -/

theorem not_isBlank_of_isDigit {c : Char} (h : c.isDigit = true) : Text.isBlank c = false := by
  have lower : 48 ≤ c.toNat :=
    UInt32.le_iff_toNat_le.mp (of_decide_eq_true (Bool.and_eq_true_iff.mp h).1)
  have upper : c.toNat ≤ 57 :=
    UInt32.le_iff_toNat_le.mp (of_decide_eq_true (Bool.and_eq_true_iff.mp h).2)
  by_contra blank
  simp only [Text.isBlank, Text.blankRanges, List.any_cons, List.any_nil, Bool.or_false,
    Bool.not_eq_false, Bool.or_eq_true, Bool.and_eq_true, decide_eq_true_eq] at blank
  omega

theorem not_inNumeral_of_isBlank {c : Char} (h : Text.isBlank c = true) : inNumeral c = false := by
  by_contra inside
  simp only [inNumeral, inMantissa, Bool.not_eq_false, Bool.or_eq_true, beq_iff_eq] at inside
  rcases inside with ((digit | rfl) | rfl) | rfl
  · rw [not_isBlank_of_isDigit digit] at h
    cases h
  · exact absurd h (by decide)
  · exact absurd h (by decide)
  · exact absurd h (by decide)

/-- Behind the trimmed text there are blanks only. -/
theorem exists_trimStart (cs : List Char) :
    ∃ blanks, Text.trimStart cs = Text.trim cs ++ blanks ∧ ∀ c ∈ blanks, Text.isBlank c = true :=
  ⟨(Text.trimStart cs).rtakeWhile Text.isBlank, (List.rdropWhile_append_rtakeWhile ..).symm,
    fun _ hc ↦ List.mem_rtakeWhile_imp hc⟩

/-- Blanks at the end do not change what is read from the start. -/
theorem leading?_trimStart {cs : List Char} {x : Float} (h : Spells (Text.trim cs) x) :
    ∃ blanks, leading? (Text.trimStart cs) = some (x, blanks) := by
  obtain ⟨blanks, split, all⟩ := exists_trimStart cs
  rw [split]
  exact ⟨blanks, h.leading? fun c hc ↦ not_inNumeral_of_isBlank (all c (List.mem_of_mem_head? hc))⟩

theorem not_isNaN_of_isFinite {x : Float} (h : x.isFinite = true) : x.isNaN = false := by
  change (parts x).isFinite = true at h
  change (parts x).isNaN = false
  cases hx : parts x with
  | notANumber =>
    rw [hx] at h
    cases h
  | _ => rfl

end Number

namespace Value

open Number

variable {s : String}

theorem toNumber_text {x : Float} (h : Spells (Text.trim s.toList) x) : (text s).toNumber = x := by
  rw [toNumber, ofText]
  split
  case h_1 none => exact absurd none h.ne_nil
  case h_2 => rw [h.read?, Option.getD_some]

theorem convert_text {x : Float} (h : Spells (Text.trim s.toList) x) (finite : x.isFinite = true) :
    (text s).convert = x := by
  obtain ⟨blanks, read⟩ := leading?_trimStart h
  simp only [convert, leadingNumber?_eq, read, Option.map_some, Option.getD_some,
    not_isNaN_of_isFinite finite]
  rfl

/-- A text is numeric if it is a numeral for a finite number, but for blanks around it. -/
theorem isNumeric_text :
    (text s).isNumeric = true ↔ ∃ x, Spells (Text.trim s.toList) x ∧ x.isFinite = true := by
  rw [isNumeric, Option.any_eq_true]
  constructor
  · rintro ⟨x, read, finite⟩
    exact ⟨x, (read?_eq_some_iff finite).mp read, finite⟩
  · rintro ⟨x, spells, finite⟩
    exact ⟨x, (read?_eq_some_iff finite).mpr spells, finite⟩

section Blank

variable (blank : ∀ c ∈ s.toList, Text.isBlank c = true)

include blank

theorem trimStart_of_blank : Text.trimStart s.toList = [] :=
  List.dropWhile_eq_nil_iff.mpr blank

theorem toNumber_of_blank : (text s).toNumber = ofNat 0 := by
  rw [toNumber, ofText, Text.trim, trimStart_of_blank blank]
  rfl

theorem convert_of_blank : (text s).convert = ofNat 0 := by
  simp only [convert, leadingNumber?_eq, trimStart_of_blank blank]
  rfl

end Blank

end Value

namespace Heap.Action

theorem callNative_isNumeric (base : ℕ) (h : Heap) (v : Value) :
    callNative base .isNumeric [v] h = .ok (.boolean v.isNumeric) h :=
  rfl

theorem callNative_cDbl (base : ℕ) (h : Heap) (v : Value) :
    callNative base .cDbl [v] h = .ok (.number v.convert) h :=
  rfl

/-- The numeric texts are the numerals for finite numbers, with or without blanks around them. All
conversions of a numeric text give the same number, and all conversions of a blank text give
zero. -/
theorem conversions_agree (base : ℕ) (h : Heap) (s : String) :
    (callNative base .isNumeric [.text s] h = .ok (.boolean true) h ↔
      ∃ x, Number.Spells (Text.trim s.toList) x ∧ x.isFinite = true) ∧
    (callNative base .isNumeric [.text s] h = .ok (.boolean true) h →
      callNative base .cDbl [.text s] h = .ok (.number (Value.text s).toNumber) h) ∧
    ((∀ c ∈ s.toList, Text.isBlank c = true) →
      callNative base .cDbl [.text s] h = .ok (.number (Number.ofNat 0)) h ∧
        (Value.text s).toNumber = Number.ofNat 0) := by
  have numeric : callNative base .isNumeric [.text s] h = .ok (.boolean true) h ↔
      ∃ x, Number.Spells (Text.trim s.toList) x ∧ x.isFinite = true := by
    rw [callNative_isNumeric, ← Value.isNumeric_text]
    simp
  rw [callNative_cDbl]
  refine ⟨numeric, fun h ↦ ?_, fun blank ↦ ?_⟩
  · obtain ⟨x, spells, finite⟩ := numeric.mp h
    rw [Value.convert_text spells finite, Value.toNumber_text spells]
  · rw [Value.convert_of_blank blank]
    exact ⟨rfl, Value.toNumber_of_blank blank⟩

/-- A sign, a bare point, an exponent, and blanks that are not spaces. -/
theorem conversions_agree_padded :
    let s := "\t-.5E+1\u3000"
    callNative 0 .isNumeric [.text s] .empty = .ok (.boolean true) .empty ∧
      callNative 0 .cDbl [.text s] .empty = .ok (.number (Value.text s).toNumber) .empty ∧
      (Value.text s).toNumber = -5 := by
  intro s
  have isNumeric : (Value.text s).isNumeric = true := by decide +kernel
  have numeric : callNative 0 .isNumeric [.text s] .empty = .ok (.boolean true) .empty := by
    rw [callNative_isNumeric, isNumeric]
  exact ⟨numeric, (conversions_agree 0 .empty s).2.1 numeric, by decide +kernel⟩

end Heap.Action

end MiniBasic
