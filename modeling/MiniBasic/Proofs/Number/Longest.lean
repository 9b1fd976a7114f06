import MiniBasic.Proofs.Number.Reading

/-!
# The longest numeral

A text can begin with several numerals, one longer than the other. Reading takes the longest:
whatever numeral `t` a text begins with, what is left behind the numeral that is read is part of
what is left behind `t`. Parts that only look like the start of a point or an exponent are left
alone.
-/

namespace MiniBasic.Number

/-- The text is a numeral. -/
def IsNumeral (t : List Char) : Prop :=
  ∃ x, Spells t x

/-- The longest numeral that a text begins with. -/
structure LongestNumeral (cs t : List Char) : Prop where
  start : t <+: cs
  numeral : IsNumeral t
  longest : ∀ u, u <+: cs → IsNumeral u → u.length ≤ t.length

/-! ## Reading goes on behind a numeral -/

theorem takeDigits_of_digits {ds : List Char} (digits : ∀ d ∈ ds, d.isDigit = true)
    (cs : List Char) :
    takeDigits (ds ++ cs) = (ds ++ (takeDigits cs).1, (takeDigits cs).2) := by
  rw [takeDigits, List.takeWhile_append_of_pos digits, List.dropWhile_append_of_pos digits]
  rfl

theorem takeDigits_suffix (cs : List Char) : (takeDigits cs).2 <:+ cs :=
  List.dropWhile_suffix _

theorem takeFraction_suffix (cs : List Char) : (takeFraction cs).2 <:+ cs := by
  obtain ⟨fs, split, -⟩ := exists_takeFraction cs
  exact ⟨fs, split.symm⟩

theorem takeExponent_suffix (cs : List Char) : (takeExponent cs).2 <:+ cs := by
  obtain ⟨ex, split, -⟩ := exists_takeExponent cs
  exact ⟨ex, split.symm⟩

/-- Behind digits with a point, no less is read than these. -/
theorem mantissa_append {ds fs : List Char} (digits : ∀ d ∈ ds, d.isDigit = true)
    (fraction : Token.Fraction fs) (nonempty : ds ≠ [] ∨ fs.tail ≠ []) (cs : List Char) :
    let whole := takeDigits (ds ++ (fs ++ cs))
    (whole.1.isEmpty && (takeFraction whole.2).1.isEmpty) = false ∧
    (takeFraction whole.2).2 <:+ cs := by
  intro whole
  cases fraction with
  | none =>
    have taken : whole = (ds ++ (takeDigits cs).1, (takeDigits cs).2) :=
      takeDigits_of_digits digits cs
    have some : ds ≠ [] := nonempty.resolve_right fun none ↦ none rfl
    rw [taken]
    refine ⟨?_, (takeFraction_suffix _).trans (takeDigits_suffix cs)⟩
    simp [some]
  | @point fs decimals =>
    have stops : Stops Char.isDigit ('.' :: (fs ++ cs)) := .cons rfl _
    have taken : whole = (ds, '.' :: (fs ++ cs)) := takeDigits_append digits stops
    have behind : takeFraction ('.' :: (fs ++ cs)) = (fs ++ (takeDigits cs).1, (takeDigits cs).2) :=
      takeDigits_of_digits decimals cs
    rw [taken, behind]
    refine ⟨?_, takeDigits_suffix cs⟩
    rw [Bool.and_eq_false_iff]
    rcases nonempty with some | some
    · exact .inl (by simpa using some)
    · exact .inr (by simp [show fs ≠ [] from some])

theorem ExponentText.takeExponent_suffix {ex : List Char} {k : ℤ} (h : ExponentText ex k)
    (cs : List Char) :
    (Number.takeExponent (ex ++ cs)).2 <:+ cs := by
  cases h with
  | none => exact Number.takeExponent_suffix cs
  | @mark c sign ds negative mark hsign nonempty digits =>
    have marked : (c == 'e' || c == 'E') = true := by
      rcases mark with rfl | rfl <;> rfl
    have first : Stops isSign (ds ++ cs) :=
      .append (fun d hd ↦ not_isSign_of_isDigit (digits d hd)) fun none ↦ absurd none nonempty
    simp only [Number.takeExponent, List.cons_append, List.append_assoc, marked, if_true,
      hsign.takeSign first, takeDigits_of_digits digits]
    obtain ⟨d, ds, rfl⟩ := List.exists_cons_of_ne_nil nonempty
    exact takeDigits_suffix cs

/-- Where a text begins with a numeral, one is read that reaches at least as far. -/
theorem Spells.leading?_append {t : List Char} {x : Float} (h : Spells t x) (cs : List Char) :
    ∃ y rest, Number.leading? (t ++ cs) = some (y, rest) ∧ rest <:+ cs := by
  cases h with
  | @numeral sign ds fs ex negative k hsign digits fraction nonempty exponent =>
    have first : Stops isSign (ds ++ (fs ++ (ex ++ cs))) :=
      mantissa_stops_isSign digits fraction nonempty
    have signed : (takeSign (sign ++ (ds ++ (fs ++ ex)) ++ cs)).2 = ds ++ (fs ++ (ex ++ cs)) := by
      simp only [List.append_assoc, hsign.takeSign first]
    obtain ⟨some, behind⟩ := mantissa_append digits fraction nonempty (ex ++ cs)
    rcases leading?_cases (sign ++ (ds ++ (fs ++ ex)) ++ cs) with ⟨none, -⟩ | ⟨-, y, read⟩
    · rw [signed, some] at none
      cases none
    · rw [signed] at read
      refine ⟨y, _, read, ?_⟩
      by_cases none : ex = []
      · rw [none, List.nil_append] at behind ⊢
        exact (takeExponent_suffix _).trans behind
      · obtain ⟨whole, fractional⟩ :=
          mantissa_of_stops digits fraction (exponent.stops_inMantissa none cs)
        rw [whole, fractional]
        exact exponent.takeExponent_suffix cs

/-! ## The longest numeral is read -/

theorem longestNumeral_of_leading? {cs rest : List Char} {x : Float}
    (h : leading? cs = some (x, rest)) :
    ∃ t, cs = t ++ rest ∧ Spells t x ∧ LongestNumeral cs t := by
  obtain ⟨t, split, spells⟩ := exists_spells_of_leading? h
  refine ⟨t, split, spells, ⟨rest, split.symm⟩, ⟨x, spells⟩, ?_⟩
  rintro u ⟨behind, rfl⟩ ⟨y, shorter⟩
  obtain ⟨z, rest', read, further⟩ := shorter.leading?_append behind
  rw [h] at read
  cases read
  have lengths := congrArg List.length split
  rw [List.length_append, List.length_append] at lengths
  have := further.length_le
  omega

theorem not_isNumeral_of_leading? {cs t : List Char} (h : leading? cs = none) (start : t <+: cs) :
    ¬IsNumeral t := by
  obtain ⟨behind, rfl⟩ := start
  rintro ⟨x, spells⟩
  obtain ⟨y, rest, read, -⟩ := spells.leading?_append behind
  rw [h] at read
  cases read

/-- The text has no digit between the sign and the exponent, so that nothing is read. -/
def Digitless (text : String) : Prop :=
  let start := mantissaStart text.toUTF8.data.toList
  let stop := mantissaEnd text.toUTF8.data.toList
  stop = start ∨ Token.slice text start stop = "."

theorem digitless_iff_leading? (text : String) : Digitless text ↔ leading? text.toList = none := by
  refine (mantissa_bare_bytes_iff text).trans ?_
  rcases leading?_cases text.toList with ⟨bare, none⟩ | ⟨filled, x, found⟩
  · exact iff_of_true bare none
  · rw [filled, found]
    exact iff_of_false Bool.false_ne_true (Option.some_ne_none _)

/-- The number at the start of a text, behind blanks, is that of the longest numeral there, and
without a numeral there is none. The part of the text that is read is this numeral: it is found in
the bytes, its ends and the place behind its sign are places of characters, and it reads as a
number. Nothing is read only where no digit is found, so what is read never fails to be a number. -/
theorem leadingNumber?_longest (s : String) :
    let text := String.ofList (Text.trimStart s.toList)
    let bytes := text.toUTF8.data.toList
    (∀ offset ∈ [mantissaStart bytes, mantissaEnd bytes, numeralEnd bytes],
        String.Pos.Raw.IsValid text ⟨offset⟩) ∧
      mantissaStart bytes ≤ mantissaEnd bytes ∧ mantissaEnd bytes ≤ numeralEnd bytes ∧
      (¬Digitless text ∧ (∃ t x, LongestNumeral text.toList t ∧ Spells t x ∧
          Token.slice text 0 (numeralEnd bytes) = String.ofList t ∧
          read? t = some x ∧ leadingNumber? s = some x) ∨
        Digitless text ∧ (∀ t, t <+: text.toList → ¬IsNumeral t) ∧ leadingNumber? s = none) := by
  intro text bytes
  have chars : Text.trimStart s.toList = text.toList := String.toList_ofList.symm
  have start := opens_mantissaStart text
  have stop := opens_mantissaEnd text
  have ends := opens_numeralEnd text
  refine ⟨?_, start.le_of_suffix stop ?_, stop.le_of_suffix ends (takeExponent_suffix _), ?_⟩
  · simp only [List.forall_mem_cons]
    exact ⟨start.isValid, stop.isValid, ends.isValid, List.forall_mem_nil _⟩
  · exact (takeFraction_suffix _).trans (takeDigits_suffix _)
  · rw [leadingNumber?_eq, chars, digitless_iff_leading?]
    cases read : leading? text.toList with
    | none => exact .inr ⟨rfl, fun t start ↦ not_isNumeral_of_leading? read start, rfl⟩
    | some found =>
      obtain ⟨x, rest⟩ := found
      obtain ⟨t, split, spells, longest⟩ := longestNumeral_of_leading? read
      refine .inl ⟨Option.some_ne_none _, t, x, longest, spells, ?_, spells.read?, rfl⟩
      exact slice_numeralEnd read split

-- signs, points and exponents that lack their digits
example : ["-", "+.", ".e5", "1.e", "1e+", "-.5e-", "1..2"].map leadingNumber? =
    [none, none, none, some 1, some 1, some (-0.5), some 1] := by
  decide +kernel

end MiniBasic.Number
