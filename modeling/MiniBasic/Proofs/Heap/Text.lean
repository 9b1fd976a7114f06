import Mathlib.Logic.Relation
import MiniBasic.Heap.Text

/-!
# Joined elements

Arrays may hold each other in any way, so that the text of an array is not read off a tree. Two
descriptions of it are given here. In the first one, the arrays on the way from the root are open,
and an open array is written as nothing. Every array has exactly one text by these rules, and it is
the one that is computed. The second one joins the texts of the elements without looking at what is
open. It ends on those arrays from which no cycle can be reached, and there it gives the same text.
-/

namespace MiniBasic.Heap

open Relation (ReflTransGen TransGen)

/-- The texts of some values inside the arrays that are open. An array that is open is written as
nothing, and any other one is opened and written in full, wherever else it has been written. -/
inductive Written (h : Heap) : List Nat → List Value → List String → Prop
  | nil {opened : List Nat} : Written h opened [] []
  | atom {opened : List Nat} {v : Value} {vs : List Value} {texts : List String}
    (plain : ∀ id, v ≠ .array id) (more : Written h opened vs texts) : Written h opened (v :: vs)
    (v.atomText :: texts)
  | again {opened : List Nat} {id : Nat} {vs : List Value} {texts : List String} (mem : id ∈ opened)
    (more : Written h opened vs texts) : Written h opened (.array id :: vs) ("" :: texts)
  | inside {opened : List Nat} {id : Nat} {vs : List Value} {inner texts : List String}
    (closed : id ∉ opened) (elements : Written h (id :: opened) (h.array id).toList inner)
    (more : Written h opened vs texts) :
    Written h opened (.array id :: vs) (",".intercalate inner :: texts)

/-- The texts of some values where each array is its elements with commas between them, however
deep. -/
inductive Joined (h : Heap) : List Value → List String → Prop
  | nil : Joined h [] []
  | atom {v : Value} {vs : List Value} {texts : List String} (plain : ∀ id, v ≠ .array id)
    (more : Joined h vs texts) :
    Joined h (v :: vs) (v.atomText :: texts)
  | inside {id : Nat} {vs : List Value} {inner texts : List String}
    (elements : Joined h (h.array id).toList inner) (more : Joined h vs texts) :
    Joined h (.array id :: vs) (",".intercalate inner :: texts)

/-- One array is an element of another one. -/
def Holds (h : Heap) (outer inner : Nat) : Prop :=
  .array inner ∈ (h.array outer).toList

/-- No array that can be reached from this one holds itself, be it through others. -/
def NoCycle (h : Heap) (id : Nat) : Prop :=
  ∀ a, ReflTransGen h.Holds id a → ¬ TransGen h.Holds a a

/-- The text of a value inside the arrays that are open. -/
def innerText (h : Heap) (opened : List Nat) : Value → String
  | .array id => h.arrayText opened id
  | v => v.atomText

variable {h : Heap} {opened : List Nat} {id : Nat} {v : Value} {vs : List Value}
  {texts : List String}

theorem innerText_atom (plain : ∀ id, v ≠ .array id) : h.innerText opened v = v.atomText := by
  cases v with
  | array id => exact absurd rfl (plain id)
  | _ => rfl

theorem arrayText_of_mem (mem : id ∈ opened) : h.arrayText opened id = "" := by
  rw [arrayText, dif_pos mem]

theorem array_of_lt (inside : id < h.arrays.size) : h.array id = h.arrays[id] := by
  rw [array, Array.getD_eq_getD_getElem?, Array.getElem?_eq_getElem inside, Option.getD_some]

theorem array_of_le (outside : h.arrays.size ≤ id) : h.array id = #[] := by
  rw [array, Array.getD_eq_getD_getElem?, Array.getElem?_eq_none outside, Option.getD_none]

theorem arrayText_of_not_mem (closed : id ∉ opened) :
    h.arrayText opened id =
      ",".intercalate ((h.array id).toList.map (h.innerText (id :: opened))) := by
  rw [arrayText, dif_neg closed]
  split
  next inside =>
    rw [array_of_lt inside]
    rfl
  next outside =>
    rw [array_of_le (Nat.le_of_not_lt outside)]
    rfl

/-! ### Open arrays -/

theorem Written.eq_map (w : Written h opened vs texts) : texts = vs.map (h.innerText opened) := by
  induction w with
  | nil => rfl
  | atom plain _ ih => rw [List.map_cons, innerText_atom plain, ih]
  | again mem _ ih => rw [List.map_cons, innerText, arrayText_of_mem mem, ih]
  | inside closed _ _ elements ih =>
    rw [List.map_cons, innerText, arrayText_of_not_mem closed, ← elements, ih]

/-- If every array that is not open can be written, then all values can. -/
theorem written_map_of_closed (arrays : ∀ id, id ∉ opened →
      Written h (id :: opened)
        (h.array id).toList ((h.array id).toList.map (h.innerText (id :: opened))))
    (vs : List Value) : Written h opened vs (vs.map (h.innerText opened)) := by
  induction vs with
  | nil => exact .nil
  | cons v vs ih =>
    cases v with
    | array id =>
      rw [List.map_cons, innerText]
      by_cases mem : id ∈ opened
      · rw [arrayText_of_mem mem]
        exact .again mem ih
      · rw [arrayText_of_not_mem mem]
        exact .inside mem (arrays id mem) ih
    | _ => exact .atom (by simp) ih

theorem written_map (h : Heap) (opened : List Nat) (vs : List Value) :
    Written h opened vs (vs.map (h.innerText opened)) := by
  -- Each array that is opened leaves fewer closed ones, and a number that belongs to no array has
  -- no elements.
  induction count : (h.closed opened).length using Nat.strongRecOn generalizing opened vs with
  | ind n ih =>
    refine written_map_of_closed (fun id closed ↦ ?_) vs
    by_cases inside : id < h.arrays.size
    · exact ih _ (count ▸ length_closed_cons_lt inside closed) _ _ rfl
    · rw [array_of_le (Nat.le_of_not_lt inside)]
      exact .nil

theorem written_iff : Written h opened vs texts ↔ texts = vs.map (h.innerText opened) :=
  ⟨Written.eq_map, fun eq ↦ eq ▸ written_map h opened vs⟩

/-! ### Cycles -/

theorem NoCycle.inner {inner : Nat} (safe : h.NoCycle id) (held : h.Holds id inner) :
    h.NoCycle inner :=
  fun a reached ↦ safe a (.head held reached)

/-- Where the plain joining ends, going from an array to its elements ends too. -/
theorem Joined.acc (j : Joined h vs texts) :
    ∀ id, .array id ∈ vs → Acc (fun b a ↦ h.Holds a b) id := by
  induction j with
  | nil => simp
  | atom plain _ ih =>
    rintro id (_ | ⟨_, mem⟩)
    · exact absurd rfl (plain id)
    · exact ih id mem
  | inside _ _ elements ih =>
    rintro id (_ | ⟨_, mem⟩)
    · exact ⟨_, elements⟩
    · exact ih id mem

theorem noCycle_of_acc (acc : Acc (fun b a ↦ h.Holds a b) id) : h.NoCycle id := by
  induction acc with
  | intro id _ ih =>
    intro a reached cycle
    rcases reached.cases_head with rfl | ⟨inner, held, reached⟩
    · -- The first step of the cycle leads to an array from which the same cycle can be reached.
      obtain ⟨inner, held, back⟩ := TransGen.head'_iff.mp cycle
      exact ih inner held id back cycle
    · exact ih inner held a reached cycle

/-- Arrays from which neither a cycle nor an open array can be reached are written as if nothing
were open. -/
theorem Written.joined (w : Written h opened vs texts)
    (safe : ∀ id, .array id ∈ vs → h.NoCycle id ∧ ∀ a ∈ opened, ¬ ReflTransGen h.Holds id a) :
    Joined h vs texts := by
  induction w with
  | nil => exact .nil
  | atom plain _ ih => exact .atom plain (ih fun id mem ↦ safe id (.tail _ mem))
  | again mem => exact absurd .refl ((safe _ (.head _)).2 _ mem)
  | @inside opened id vs inner texts _ _ _ elements ih =>
    obtain ⟨noCycle, apart⟩ := safe id (.head _)
    refine .inside (elements fun b held ↦ ⟨noCycle.inner held, ?_⟩)
      (ih fun id mem ↦ safe id (.tail _ mem))
    rintro a (_ | ⟨_, mem⟩) reached
    · exact noCycle id .refl (.head' held reached)
    · exact apart a mem (.head held reached)

theorem Joined.written (j : Joined h vs texts)
    (apart : ∀ id, .array id ∈ vs → ∀ a ∈ opened, ¬ ReflTransGen h.Holds id a) :
    Written h opened vs texts := by
  induction j generalizing opened with
  | nil => exact .nil
  | atom plain _ ih => exact .atom plain (ih fun id mem ↦ apart id (.tail _ mem))
  | @inside id vs inner texts elements' _ elements ih =>
    have closed : id ∉ opened := fun mem ↦ apart id (.head _) id mem .refl
    refine .inside closed (elements fun b held ↦ ?_) (ih fun id mem ↦ apart id (.tail _ mem))
    rintro a (_ | ⟨_, mem⟩) reached
    · exact noCycle_of_acc ⟨id, elements'.acc⟩ id .refl (.head' held reached)
    · exact apart id (.head _) a mem (.head held reached)

theorem joined_iff : Joined h [.array id] texts ↔ h.NoCycle id ∧ texts = [h.text (.array id)] := by
  constructor
  · intro j
    have w : Written h [] [.array id] texts := j.written (by simp)
    exact ⟨noCycle_of_acc (j.acc id (.head _)), w.eq_map⟩
  · rintro ⟨noCycle, rfl⟩
    refine (written_map h [] [.array id]).joined fun b mem ↦ ?_
    cases List.mem_singleton.mp mem
    exact ⟨noCycle, by simp⟩

/-- Every array has exactly one text in which open arrays are written as nothing, whatever the
arrays share and whatever cycles they form, and it is the one that is computed. Plain joining has a
result for those arrays from which no cycle can be reached, and the result is this text. -/
theorem text_array_iff (h : Heap) (id : Nat) (s : String) :
    (Written h [] [.array id] [s] ↔ h.text (.array id) = s) ∧
    (Joined h [.array id] [s] ↔ h.NoCycle id ∧ h.text (.array id) = s) := by
  refine ⟨written_iff.trans ?_, joined_iff.trans ?_⟩
  · simp [innerText, text, eq_comm]
  · simp [eq_comm]

example :
    let h : Heap :=
      ⟨#[#[.text "a", .array 1, .array 1, .array 0], #[.text "b", .array 0]], #[], #[]⟩
    h.text (.array 0) = "a,b,,b,," := by
  decide +kernel

end MiniBasic.Heap
