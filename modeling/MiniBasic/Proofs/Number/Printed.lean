import MiniBasic.Heap.Element
import MiniBasic.Proofs.Number.Reading

/-!
# Numbers as they are printed

What is printed for a number is read back as that number, but for the sign of zero, which is not
printed. So two numbers have the same text, and as keys of a dictionary are the same key, if they
are equal or if both are not a number.
-/

namespace MiniBasic

namespace Number

open Float.Model Float.Model.UnpackedFloat

/-! ## Equality -/

theorem finite_beq_iff (s : Sign) {m n : ℕ} {e k : ℤ} {hm : 0 < m} {hn : 0 < n} :
    (UnpackedFloat.finite s m e hm).beq (.finite s n k hn) = true ↔ m = n ∧ e = k := by
  have same : (compare e k).then (compare m n) = .eq ↔ m = n ∧ e = k := by
    rw [Ordering.then_eq_eq, Int.compare_eq_eq, Nat.compare_eq_eq, and_comm]
  rw [← same]
  cases s with
  | negative =>
    change (some ((compare e k).then (compare m n)).swap == some .eq) = true ↔ _
    rw [beq_iff_eq, Option.some_inj, Ordering.swap_eq_iff_eq_swap]
    rfl
  | positive =>
    change (some ((compare e k).then (compare m n)) == some .eq) = true ↔ _
    rw [beq_iff_eq, Option.some_inj]

/-- Numbers are equal if they have the same parts, and zeros are equal whatever their signs. -/
theorem unpacked_beq_iff {a b : UnpackedFloat} :
    a.beq b = true ↔ (∃ s t, a = .zero s ∧ b = .zero t) ∨ a = b ∧ a ≠ .notANumber := by
  constructor
  · intro h
    rcases a with (_ | _) | _ | s | ⟨_ | _, m, e, hm⟩ <;>
      rcases b with (_ | _) | _ | t | ⟨_ | _, n, k, hn⟩
    case infinity.negative.infinity.negative => exact .inr ⟨rfl, by rintro ⟨⟩⟩
    case infinity.positive.infinity.positive => exact .inr ⟨rfl, by rintro ⟨⟩⟩
    case zero.zero => exact .inl ⟨s, t, rfl, rfl⟩
    case finite.negative.finite.negative =>
      obtain ⟨rfl, rfl⟩ := (finite_beq_iff .negative).mp h
      exact .inr ⟨rfl, by rintro ⟨⟩⟩
    case finite.positive.finite.positive =>
      obtain ⟨rfl, rfl⟩ := (finite_beq_iff .positive).mp h
      exact .inr ⟨rfl, by rintro ⟨⟩⟩
    all_goals exact absurd h Bool.false_ne_true
  · rintro (⟨s, t, rfl, rfl⟩ | ⟨rfl, number⟩)
    · rfl
    cases a with
    | notANumber => exact absurd rfl number
    | infinity s => cases s <;> rfl
    | zero s => rfl
    | finite s m e hm => exact (finite_beq_iff s).mpr ⟨rfl, rfl⟩

theorem eq_of_parts {x y : Float} (h : parts x = parts y) : x = y := by
  rw [← pack_parts x, h, pack_parts y]

theorem beq_iff {x y : Float} :
    (x == y) = true ↔ (∃ s t, parts x = .zero s ∧ parts y = .zero t) ∨ x = y ∧
      parts x ≠ .notANumber := by
  change (parts x).beq (parts y) = true ↔ _
  rw [unpacked_beq_iff]
  exact or_congr_right (and_congr_left' ⟨eq_of_parts, congrArg parts⟩)

theorem beq_zero_iff {x : Float} : (x == 0) = true ↔ ∃ s, parts x = .zero s := by
  have zero : parts 0 = .zero .positive := rfl
  constructor
  · intro h
    obtain ⟨s, _, hx, _⟩ | ⟨rfl, _⟩ := beq_iff.mp h
    · exact ⟨s, hx⟩
    · exact ⟨_, zero⟩
  · rintro ⟨s, hx⟩
    exact beq_iff.mpr (.inl ⟨s, _, hx, zero⟩)

theorem isNaN_iff {x : Float} : x.isNaN = true ↔ parts x = .notANumber := by
  change (parts x).isNaN = true ↔ _
  cases parts x with
  | notANumber => exact iff_of_true rfl rfl
  | _ => exact iff_of_false Bool.false_ne_true (by rintro ⟨⟩)

/-- Equal, or both not a number. -/
def Alike (x y : Float) : Prop :=
  (x == y) = true ∨ x.isNaN = true ∧ y.isNaN = true

instance (x y : Float) : Decidable (Alike x y) :=
  inferInstanceAs (Decidable (_ ∨ _))

/-- Numbers are alike if they are the same but for the sign of zero. -/
theorem alike_iff {x y : Float} :
    Alike x y ↔ (if x == 0 then 0 else x) = (if y == 0 then 0 else y : Float) := by
  constructor
  · rintro (equal | ⟨hx, hy⟩)
    · obtain ⟨s, t, hx, hy⟩ | ⟨rfl, _⟩ := beq_iff.mp equal
      · rw [if_pos (beq_zero_iff.mpr ⟨s, hx⟩), if_pos (beq_zero_iff.mpr ⟨t, hy⟩)]
      · rfl
    · rw [eq_of_parts ((isNaN_iff.mp hx).trans (isNaN_iff.mp hy).symm)]
  · intro h
    split at h
    next hx =>
      split at h
      next hy =>
        obtain ⟨s, hx⟩ := beq_zero_iff.mp hx
        obtain ⟨t, hy⟩ := beq_zero_iff.mp hy
        exact .inl (beq_iff.mpr (.inl ⟨s, t, hx, hy⟩))
      next hy =>
        subst h
        exact absurd (by decide) hy
    next hx =>
      split at h
      next hy =>
        subst h
        exact absurd (by decide) hx
      next hy =>
        subst h
        by_cases hn : x.isNaN = true
        · exact .inr ⟨hn, hn⟩
        · exact .inl (beq_iff.mpr (.inr ⟨rfl, fun none ↦ hn (isNaN_iff.mpr none)⟩))

/-! ## Reading back -/

theorem trim_eq_self {cs : List Char} (h : ∀ c ∈ cs, Text.isBlank c = false) :
    Text.trim cs = cs := by
  have start : Text.trimStart cs = cs := by
    rw [Text.trimStart, List.dropWhile_eq_self_iff]
    intro nonempty
    rw [h _ (List.getElem_mem nonempty)]
    decide
  rw [Text.trim, start]
  refine List.rdropWhile_eq_self_iff.mpr fun nonempty ↦ ?_
  rw [h _ (List.getLast_mem nonempty)]
  decide

theorem Numeral.not_isBlank {ds fs : List Char} (h : Numeral ds fs) :
    ∀ c ∈ ds ++ fs, Text.isBlank c = false := by
  have digits {ds : List Char} (h : ∀ d ∈ ds, d.isDigit = true) :
      ∀ d ∈ ds, Text.isBlank d = false :=
    fun d hd ↦ not_isBlank_of_isDigit (h d hd)
  refine List.forall_mem_append.mpr ⟨digits h.digits, ?_⟩
  cases h.fraction with
  | none => exact List.forall_mem_nil _
  | point fraction => exact List.forall_mem_cons.mpr ⟨by decide, digits fraction⟩

theorem SignText.not_isBlank {sign : List Char} {negative : Bool} (h : SignText sign negative) :
    ∀ c ∈ sign, Text.isBlank c = false := by
  cases h with
  | none => exact List.forall_mem_nil _
  | plus => exact List.forall_mem_singleton.mpr (by decide)
  | minus => exact List.forall_mem_singleton.mpr (by decide)

/-- A numeral with a sign or without one is read as it stands. -/
theorem ofText_numeral {sign ds fs : List Char} {negative : Bool} {s : String}
    (hsign : SignText sign negative) (h : Numeral ds fs) (hs : s.toList = sign ++ (ds ++ fs)) :
    ofText s = if negative then -numeralValue ds fs else numeralValue ds fs := by
  have trimmed : Text.trim s.toList = sign ++ (ds ++ fs) := by
    rw [hs]
    exact trim_eq_self (List.forall_mem_append.mpr ⟨hsign.not_isBlank, h.not_isBlank⟩)
  have spells := Spells.numeral hsign h.digits h.fraction (.inl h.nonempty) .none
  rw [List.append_nil, zero_sub, ← trimmed] at spells
  exact Value.toNumber_text spells

theorem ofText_write_zero {x : Float} {s : Sign} (h : parts x = .zero s) :
    ofText (write .printed x) = 0 := by
  rw [write, h]
  cases s <;> decide +kernel

theorem ofText_write_positive {x : Float} {m : ℕ} {e : ℤ} {hm : 0 < m}
    (h : parts x = .finite .positive m e hm) :
    ofText (write .printed x) = x := by
  obtain ⟨ds, fs, text, numeral, value⟩ := exists_write (.finite h) .printed
  rw [ofText_numeral .none numeral text, value]
  rfl

/-- The text of a negative number is that of its opposite behind a sign. -/
theorem ofText_write_negative {x : Float} {m : ℕ} {e : ℤ} {hm : 0 < m}
    (h : parts x = .finite .negative m e hm) :
    ofText (write .printed x) = x := by
  obtain ⟨hc, he⟩ := canonical_of_parts h
  let y : Float := ⟨.pack (.finite .positive m e hm)⟩
  have hy : parts y = .finite .positive m e hm := parts_pack .positive hc he
  have opposite : -y = x := by
    rw [← pack_parts x, h]
    change (⟨.pack (parts y).neg⟩ : Float) = _
    rw [hy]
    rfl
  obtain ⟨ds, fs, text, numeral, value⟩ := exists_write (.finite hy) .printed
  have signed : (write .printed x).toList = ['-'] ++ (ds ++ fs) := by
    rw [← text, write, write, h, hy]
    dsimp only
    split
    · exact String.toList_append
    · exact String.toList_append
  rw [ofText_numeral .minus numeral signed, value]
  exact opposite

/-- What is printed for a number is read back, but for the sign of zero. -/
theorem ofText_write (x : Float) : ofText (write .printed x) = if x == 0 then 0 else x := by
  have ordinary (h : ¬∃ s, parts x = .zero s) (read : ofText (write .printed x) = x) :
      ofText (write .printed x) = if x == 0 then 0 else x := by
    rw [read, if_neg fun zero ↦ h (beq_zero_iff.mp zero)]
  cases hx : parts x with
  | zero s => rw [ofText_write_zero hx, if_pos (beq_zero_iff.mpr ⟨s, hx⟩)]
  | notANumber =>
    refine ordinary (by rw [hx]; rintro ⟨-, ⟨⟩⟩) ?_
    rw [← pack_parts x, hx]
    decide +kernel
  | infinity s =>
    refine ordinary (by rw [hx]; rintro ⟨-, ⟨⟩⟩) ?_
    rw [← pack_parts x, hx]
    cases s <;> decide +kernel
  | finite s m e hm =>
    refine ordinary (by rw [hx]; rintro ⟨-, ⟨⟩⟩) ?_
    cases s with
    | positive => exact ofText_write_positive hx
    | negative => exact ofText_write_negative hx

theorem write_of_zero {x y : Float} {s t : Sign} (hx : parts x = .zero s) (hy : parts y = .zero t) :
    write .printed x = write .printed y := by
  rw [write, write, hx, hy]
  cases s <;> cases t <;> rfl

/-- Numbers have the same text if they are alike. -/
theorem write_eq_iff {x y : Float} : write .printed x = write .printed y ↔ Alike x y := by
  constructor
  · intro h
    rw [alike_iff, ← ofText_write x, h, ofText_write y]
  · rintro (equal | ⟨hx, hy⟩)
    · obtain ⟨s, t, hx, hy⟩ | ⟨rfl, _⟩ := beq_iff.mp equal
      · exact write_of_zero hx hy
      · rfl
    · rw [eq_of_parts ((isNaN_iff.mp hx).trans (isNaN_iff.mp hy).symm)]

end Number

namespace Heap

open Number

theorem text_number (h : Heap) (x : Float) : h.text (.number x) = write .printed x :=
  rfl

theorem dictionary_modify {h : Heap} {id : ℕ} (hid : id < h.dictionaries.size)
    (f : Dictionary → Dictionary) :
    Heap.dictionary { h with dictionaries := h.dictionaries.modify id f } id =
      f (h.dictionary id) := by
  rw [dictionary, dictionary, Array.getD_eq_getD_getElem?, Array.getD_eq_getD_getElem?,
    Array.getElem?_modify, if_pos rfl, Array.getElem?_eq_getElem hid]
  rfl

/-- The text of a number is faithful to it. Read back it is the number itself, or zero without a
sign for a zero. Numbers have the same text if they are equal or both not a number, and just then
what is stored in a dictionary under the one is found under the other. -/
theorem text_number_faithful (h : Heap) (x : Float) :
    (Value.text (h.text (.number x))).toNumber = (if x == 0 then 0 else x) ∧
    (∀ y, h.text (.number x) = h.text (.number y) ↔ Alike x y) ∧
    ∀ (name : String) (id : ℕ) (v : Value), id < h.dictionaries.size →
      ∃ h', Action.write name (.dictionary id) [.number x] v h = .ok () h' ∧
        ∀ y, (h'.dictionary id).get? (h'.text (.number y)) =
          if Alike x y then some v else (h.dictionary id).get? (h.text (.number y)) := by
  refine ⟨ofText_write x, fun y ↦ write_eq_iff, fun name id v hid ↦ ⟨_, rfl, fun y ↦ ?_⟩⟩
  change Dictionary.get? (Heap.dictionary { h with dictionaries := h.dictionaries.modify id _ } id)
    _ = _
  rw [dictionary_modify hid, Dictionary.get?_insert, text_number, text_number, text_number]
  exact if_congr (eq_comm.trans write_eq_iff) rfl rfl

/-- What is stored under the negative zero is found under the positive one, and not under the least
number above. -/
theorem text_number_faithful_negative_zero :
    let h : Heap := ⟨#[], #[.empty], #[]⟩
    (Value.text (h.text (.number (-0)))).toNumber = 0 ∧
      ∃ h', Action.write "d" (.dictionary 0) [.number (-0)] (.text "nought") h = .ok () h' ∧
        (h'.dictionary 0).get? (h'.text (.number 0)) = some (.text "nought") ∧
        (h'.dictionary 0).get? (h'.text (.number 5e-324)) = none := by
  intro h
  obtain ⟨read, _, stored⟩ := text_number_faithful h (-0)
  obtain ⟨h', written, found⟩ := stored "d" 0 (.text "nought") (by decide)
  refine ⟨read.trans (if_pos (by decide)), h', written, ?_, ?_⟩
  · rw [found, if_pos (by decide)]
  · rw [found, if_neg (by decide +kernel)]
    rfl

end Heap

end MiniBasic
