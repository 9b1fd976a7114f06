import Mathlib.Data.List.DropRight
import Mathlib.Data.List.Nodup
import MiniBasic.Value.Dictionary

/-!
# What a dictionary should hold

A log tells what has happened to a dictionary since it was made, the oldest event first. What the
dictionary should hold is said of the log alone: under each key the value that was stored last,
unless the key has been taken out since; and the keys in the order in which they came in, where a
key that was taken out and stored again came in when it was stored again. `Reflects` says that a
dictionary holds just that, and each event keeps it so.
-/

namespace MiniBasic.Dictionary

/-- What may happen to the entries. -/
inductive Event where
  | stored (key : String) (v : Value)
  | removed (key : String)
  | cleared
  deriving DecidableEq

namespace Event

/-- Whether a key is taken out. -/
def removes (key : String) : Event → Bool
  | stored _ _ => false
  | removed k => k == key
  | cleared => true

/-- What is stored under a key. -/
def value? (key : String) : Event → Option Value
  | stored k v => if k = key then some v else none
  | _ => none

end Event

/-- The events since a key was last taken out. -/
def since (key : String) (log : List Event) : List Event :=
  log.rtakeWhile fun e ↦ !e.removes key

/-- The value that was last stored under a key, if the key has not been taken out since. -/
def lastStored (key : String) (log : List Event) : Option Value :=
  ((since key log).filterMap (·.value? key)).getLast?

/-- The number of events in the log before a key came in: before it was stored for the first time
since it was last taken out. -/
def firstStored (key : String) (log : List Event) : Nat :=
  log.length - (since key log).length + (since key log).findIdx fun e ↦ (e.value? key).isSome

/-- The dictionary after an event. -/
def apply (d : Dictionary) : Event → Dictionary
  | .stored key v => d.insert key v
  | .removed key => d.erase key
  | .cleared => .empty

/-- The dictionary holds what it should. -/
structure Reflects (d : Dictionary) (log : List Event) : Prop where
  nodup : d.keys.Nodup
  get (key : String) : d.get? key = lastStored key log
  order : d.keys.Pairwise fun a b ↦ firstStored a log < firstStored b log

/-! ## One event more -/

section Concat

variable {key : String} {log : List Event} {e : Event}

theorem since_concat (h : e.removes key = false) : since key (log ++ [e]) = since key log ++ [e] :=
  List.rtakeWhile_concat_pos _ _ _ (by rw [h]; rfl)

theorem since_concat_of_removes (h : e.removes key = true) : since key (log ++ [e]) = [] :=
  List.rtakeWhile_concat_neg _ _ _ (by simp [h])

theorem length_since_le (key : String) (log : List Event) : (since key log).length ≤ log.length :=
  (List.rtakeWhile_suffix _ _).length_le

theorem lastStored_concat (key : String) (log : List Event) (e : Event) :
    lastStored key (log ++ [e]) =
    if e.removes key then none else (e.value? key).or (lastStored key log) := by
  unfold lastStored
  cases h : e.removes key with
  | true =>
    rw [since_concat_of_removes h]
    rfl
  | false =>
    rw [since_concat h, List.filterMap_append, List.getLast?_append]
    cases hv : e.value? key with
    | none => simp [hv]
    | some v => simp [hv]

/-- A key is present if something has been stored since it was last taken out. -/
theorem isSome_lastStored : (lastStored key log).isSome ↔
    (since key log).findIdx (fun e ↦ (e.value? key).isSome) < (since key log).length := by
  rw [List.findIdx_lt_length]
  constructor
  · intro h
    obtain ⟨v, hv⟩ := Option.isSome_iff_exists.mp h
    obtain ⟨e, mem, stored⟩ := List.mem_filterMap.mp (List.mem_of_getLast? hv)
    exact ⟨e, mem, Option.isSome_of_eq_some stored⟩
  · rintro ⟨e, mem, stored⟩
    obtain ⟨v, hv⟩ := Option.isSome_iff_exists.mp stored
    rw [lastStored, Option.isSome_iff_ne_none, Ne, List.getLast?_eq_none_iff]
    exact List.ne_nil_of_mem (List.mem_filterMap.mpr ⟨e, mem, hv⟩)

theorem firstStored_lt (h : (lastStored key log).isSome) : firstStored key log < log.length := by
  have found := isSome_lastStored.mp h
  have le := length_since_le key log
  unfold firstStored
  omega

/-- A key that is present came in when it came in. -/
theorem firstStored_concat (h : (lastStored key log).isSome) (he : e.removes key = false) :
    firstStored key (log ++ [e]) = firstStored key log := by
  unfold firstStored
  rw [since_concat he, List.findIdx_append, if_pos (isSome_lastStored.mp h), List.length_append,
    List.length_append, Nat.add_sub_add_right]

/-- A key that is not present comes in when it is stored. -/
theorem firstStored_stored (h : lastStored key log = none) (v : Value) :
    firstStored key (log ++ [.stored key v]) = log.length := by
  have absent : ¬ (since key log).findIdx (fun e ↦ (e.value? key).isSome) <
      (since key log).length := by
    rw [← isSome_lastStored, h]
    exact Bool.false_ne_true
  have le := length_since_le key log
  have here : [Event.stored key v].findIdx (fun e ↦ (e.value? key).isSome) = 0 := by
    simp [Event.value?]
  unfold firstStored
  rw [since_concat rfl, List.findIdx_append, if_neg absent, here, List.length_append,
    List.length_append, Nat.add_sub_add_right]
  omega

end Concat

/-! ## Entries -/

theorem isSome_get? {d : Dictionary} {key : String} : (d.get? key).isSome ↔ key ∈ d.keys := by
  unfold get? keys
  induction d.entries with
  | nil => simp
  | cons entry rest ih =>
    obtain ⟨a, v⟩ := entry
    rw [lookup_cons_ite, List.map_cons, List.mem_cons]
    split
    next same => exact iff_of_true rfl (.inl same)
    next ne => rw [ih, or_iff_right ne]

theorem keys_insert (d : Dictionary) (key : String) (v : Value) :
    (d.insert key v).keys = if key ∈ d.keys then d.keys else d.keys ++ [key] := by
  unfold insert keys
  induction d.entries with
  | nil => rfl
  | cons entry rest ih =>
    unfold insertEntry
    by_cases same : key = entry.1
    · rw [if_pos (beq_iff_eq.mpr same)]
      simp [same]
    · rw [if_neg fun h ↦ same (beq_iff_eq.mp h)]
      dsimp only at ih
      simp only [List.map_cons, ih, List.mem_cons, same, false_or]
      split <;> rfl

theorem keys_erase (d : Dictionary) (key : String) : (d.erase key).keys = d.keys.erase key := by
  unfold erase keys
  rw [List.erase_eq_eraseP, List.eraseP_map]
  rfl

/-- What is behind a removed entry cannot have its key. -/
theorem get?_erase {d : Dictionary} (h : d.keys.Nodup) (key k : String) :
    (d.erase key).get? k = if k = key then none else d.get? k := by
  by_cases hk : k = key
  · rw [if_pos hk, ← Option.isNone_iff_eq_none, ← Option.not_isSome, Bool.not_eq_true',
      ← Bool.not_eq_true, isSome_get?, keys_erase, hk]
    exact h.not_mem_erase
  · rw [if_neg hk]
    unfold erase get?
    dsimp only
    induction d.entries with
    | nil => rfl
    | cons entry rest ih =>
      obtain ⟨a, v⟩ := entry
      rw [List.eraseP_cons, lookup_cons_ite]
      cases ha : key == a with
      | true =>
        have same : key = a := beq_iff_eq.mp ha
        rw [if_neg (same ▸ hk)]
        rfl
      | false =>
        change ((a, v) :: _).lookup k = _
        rw [lookup_cons_ite, ih]

/-- With distinct keys, the values are those that the keys lead to. -/
theorem values_eq {d : Dictionary} (h : d.keys.Nodup) :
    d.values = d.keys.map fun key ↦ (d.get? key).getD .empty := by
  obtain ⟨entries⟩ := d
  unfold keys values get? at *
  dsimp only at *
  induction entries with
  | nil => rfl
  | cons entry rest ih =>
    obtain ⟨a, v⟩ := entry
    obtain ⟨fresh, rest_nodup⟩ := List.nodup_cons.mp h
    simp only [List.map_cons, lookup_cons_ite, if_pos, Option.getD_some]
    rw [ih rest_nodup]
    refine congrArg (v :: ·) (List.map_congr_left fun key hkey ↦ ?_)
    rw [if_neg fun same : key = a ↦ fresh (same ▸ hkey)]

/-! ## Events keep the law -/

theorem reflects_empty : empty.Reflects [] where
  nodup := List.nodup_nil
  get _ := rfl
  order := .nil

namespace Reflects

variable {d : Dictionary} {log : List Event}

theorem mem_keys (h : d.Reflects log) {key : String} :
    key ∈ d.keys ↔ (lastStored key log).isSome := by
  rw [← isSome_get?, h.get]

/-- Keys that are not taken out stay in their order. -/
theorem order_concat (h : d.Reflects log) {e : Event} {ks : List String} (sub : ks.Sublist d.keys)
    (he : ∀ key ∈ ks, e.removes key = false) :
    ks.Pairwise fun a b ↦ firstStored a (log ++ [e]) < firstStored b (log ++ [e]) := by
  refine (h.order.sublist sub).imp_of_mem fun {a b} ha hb lt ↦ ?_
  rwa [firstStored_concat (h.mem_keys.mp (sub.subset ha)) (he a ha),
    firstStored_concat (h.mem_keys.mp (sub.subset hb)) (he b hb)]

theorem insert (h : d.Reflects log) (key : String) (v : Value) :
    (d.insert key v).Reflects (log ++ [.stored key v]) where
  nodup := by
    rw [keys_insert]
    split
    next => exact h.nodup
    next absent =>
      rw [← List.concat_eq_append]
      exact h.nodup.concat absent
  get k := by
    rw [get?_insert, lastStored_concat, ← h.get]
    by_cases hk : k = key
    · simp [Event.removes, Event.value?, hk]
    · simp [Event.removes, Event.value?, hk, Ne.symm hk]
  order := by
    have old := h.order_concat (e := .stored key v) (List.Sublist.refl _) fun _ _ ↦ rfl
    rw [keys_insert]
    split
    next => exact old
    next absent =>
      -- the new key comes last, in the keys and in the log
      refine List.pairwise_append.mpr ⟨old, List.pairwise_singleton _ _, fun a ha b hb ↦ ?_⟩
      obtain rfl := List.mem_singleton.mp hb
      have none : lastStored b log = none := by
        rwa [h.mem_keys, Option.not_isSome_iff_eq_none] at absent
      rw [firstStored_stored none, firstStored_concat (h.mem_keys.mp ha) rfl]
      exact firstStored_lt (h.mem_keys.mp ha)

theorem erase (h : d.Reflects log) (key : String) :
    (d.erase key).Reflects (log ++ [.removed key]) where
  nodup := by
    rw [keys_erase]
    exact h.nodup.erase key
  get k := by
    rw [get?_erase h.nodup, lastStored_concat, ← h.get]
    by_cases hk : k = key
    · simp [Event.removes, hk]
    · simp [Event.removes, Event.value?, hk, Ne.symm hk]
  order := by
    rw [keys_erase]
    refine h.order_concat (List.erase_sublist ..) fun k hk ↦ ?_
    have ne : k ≠ key := fun same ↦ h.nodup.not_mem_erase (same ▸ hk)
    exact beq_eq_false_iff_ne.mpr ne.symm

theorem clear (log : List Event) : empty.Reflects (log ++ [.cleared]) where
  nodup := List.nodup_nil
  get key := by
    rw [lastStored_concat]
    rfl
  order := .nil

theorem apply (h : d.Reflects log) (e : Event) : (d.apply e).Reflects (log ++ [e]) := by
  cases e with
  | stored key v => exact h.insert key v
  | removed key => exact h.erase key
  | cleared => exact clear log

theorem applyAll (h : d.Reflects log) (events : List Event) :
    (events.foldl Dictionary.apply d).Reflects (log ++ events) := by
  induction events generalizing d log with
  | nil => rwa [List.append_nil]
  | cons e events ih =>
    rw [List.append_cons]
    exact ih (h.apply e)

end Reflects

end MiniBasic.Dictionary
