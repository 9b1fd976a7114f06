import MiniBasic.Text.Case

/-!
# Letter case

Only the 26 capitals change when letters are made small. So what holds of them one by one, and of
characters that stay as they are, holds of all characters.
-/

namespace MiniBasic.Text

/-- A relation between characters and their small forms. -/
theorem toLower_cases {P : Char → Char → Prop} (same : ∀ c : Char, c.toLower = c → P c c)
    (capital : ∀ n : Fin 26, P (Char.ofNat (65 + n)) (Char.ofNat (97 + n))) (c : Char) :
    P c c.toLower := by
  by_cases h : c.val ≥ 'A'.val ∧ c.val ≤ 'Z'.val
  · have hl : 65 ≤ c.toNat := h.1
    have hu : c.toNat ≤ 90 := h.2
    have small : c.toLower = Char.ofNat (97 + (c.toNat - 65)) := by
      have both : ∀ n : Fin 26, (Char.ofNat (65 + n)).toLower = Char.ofNat (97 + n) := by decide
      rw [← both ⟨c.toNat - 65, by omega⟩]
      dsimp only
      rw [Nat.add_sub_cancel' hl, Char.ofNat_toNat]
    have it := capital ⟨c.toNat - 65, by omega⟩
    dsimp only at it
    rw [Nat.add_sub_cancel' hl, Char.ofNat_toNat] at it
    rw [small]
    exact it
  · have stays : c.toLower = c := by
      unfold Char.toLower
      exact dif_neg h
    rw [stays]
    exact same c stays

@[simp] theorem toLower_toLower (c : Char) : c.toLower.toLower = c.toLower :=
  toLower_cases (P := fun _ d ↦ d.toLower = d) (fun _ h ↦ h) (by decide) c

theorem utf8Size_toLower (c : Char) : c.toLower.utf8Size = c.utf8Size :=
  toLower_cases (P := fun c d ↦ d.utf8Size = c.utf8Size) (fun _ _ ↦ rfl) (by decide) c

/-! ## Classes of characters -/

/-- A class of characters that has a letter in both cases or in none. -/
def CaseBlind (p : Char → Bool) : Prop :=
  ∀ c : Char, p c.toLower = p c

theorem caseBlind_of_capitals {p : Char → Bool}
    (h : ∀ n : Fin 26, p (Char.ofNat (97 + n)) = p (Char.ofNat (65 + n))) : CaseBlind p :=
  toLower_cases (P := fun c d ↦ p d = p c) (fun _ _ ↦ rfl) h

theorem CaseBlind.takeWhile_map {p : Char → Bool} (hp : CaseBlind p) (cs : List Char) :
    (cs.map Char.toLower).takeWhile p = (cs.takeWhile p).map Char.toLower := by
  rw [List.takeWhile_map]
  congr 2
  exact funext hp

theorem CaseBlind.length_takeWhile {p : Char → Bool} (hp : CaseBlind p) (cs : List Char) :
    ((cs.map Char.toLower).takeWhile p).length = (cs.takeWhile p).length := by
  rw [hp.takeWhile_map, List.length_map]

/-! ## Folding names -/

theorem foldCase_append (a b : String) : foldCase (a ++ b) = foldCase a ++ foldCase b := by
  simp [foldCase, String.ofList_append]

@[simp] theorem foldCase_foldCase (a : String) : foldCase (foldCase a) = foldCase a := by
  have twice : Char.toLower ∘ Char.toLower = Char.toLower := funext toLower_toLower
  simp [foldCase, twice]

theorem foldCase_ofList (cs : List Char) :
    foldCase (String.ofList cs) = String.ofList (cs.map Char.toLower) := by
  simp [foldCase]

/-- A change of spelling that the language does not notice, and that works piece by piece. -/
structure Folding (f : String → String) : Prop where
  foldCase_apply (a : String) : foldCase (f a) = foldCase a
  append (a b : String) : f (a ++ b) = f a ++ f b
  dot : f "." = "."

theorem folding_id : Folding id where
  foldCase_apply _ := rfl
  append _ _ := rfl
  dot := rfl

theorem folding_foldCase : Folding foldCase where
  foldCase_apply := foldCase_foldCase
  append := foldCase_append
  dot := by decide

variable {f : String → String}

theorem Folding.sameName (hf : Folding f) {a b : String} (h : f a = f b) :
    foldCase a = foldCase b := by
  rw [← hf.foldCase_apply a, h, hf.foldCase_apply b]

theorem Folding.sameWord_apply (hf : Folding f) (a b : String) :
    sameWord (f a) b = sameWord a b := by
  rw [sameWord, sameWord, hf.foldCase_apply]

end MiniBasic.Text
