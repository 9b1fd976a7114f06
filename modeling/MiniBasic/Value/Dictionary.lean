import MiniBasic.Value

/-!
# Dictionaries

A dictionary maps texts to values and lists its keys in the order in which they came in. Storing
under a key that is present replaces the value and leaves the key in its place.
-/

namespace MiniBasic

structure Dictionary where
  entries : List (String × Value)
  deriving DecidableEq, Inhabited

namespace Dictionary

def empty : Dictionary :=
  ⟨[]⟩

def get? (d : Dictionary) (key : String) : Option Value :=
  d.entries.lookup key

def contains (d : Dictionary) (key : String) : Bool :=
  (d.get? key).isSome

/-- The entries with the value under `key` replaced, or a new entry behind them. -/
def insertEntry (key : String) (value : Value) : List (String × Value) → List (String × Value)
  | [] => [(key, value)]
  | entry :: rest =>
    if key == entry.1 then (entry.1, value) :: rest else entry :: insertEntry key value rest

theorem lookup_cons_ite {k a : String} {v : Value} {rest : List (String × Value)} :
    ((a, v) :: rest).lookup k = if k = a then some v else rest.lookup k := by
  rw [List.lookup_cons]
  by_cases h : k = a
  · subst h
    simp
  · have h' : (k == a) = false := by simpa using h
    simp only [h', h, if_false]

theorem lookup_insertEntry (key k : String) (value : Value) (entries : List (String × Value)) :
    (insertEntry key value entries).lookup k =
      if k = key then some value else entries.lookup k := by
  induction entries with
  | nil => rw [insertEntry, lookup_cons_ite]
  | cons entry rest ih =>
    obtain ⟨a, v⟩ := entry
    by_cases hk : key = a
    · subst hk
      simp only [insertEntry, beq_self_eq_true, if_true, lookup_cons_ite]
      split <;> rfl
    · have hk' : (key == a) = false := by simpa using hk
      simp only [insertEntry, hk', Bool.false_eq_true, if_false, lookup_cons_ite, ih]
      split
      · next h => rw [if_neg (fun h' : k = key ↦ hk (h'.symm.trans h))]
      · rfl

def insert (d : Dictionary) (key : String) (value : Value) : Dictionary :=
  ⟨insertEntry key value d.entries⟩

theorem get?_insert (d : Dictionary) (key k : String) (value : Value) :
    (d.insert key value).get? k = if k = key then some value else d.get? k :=
  lookup_insertEntry key k value d.entries

def erase (d : Dictionary) (key : String) : Dictionary :=
  ⟨d.entries.eraseP (key == ·.1)⟩

def keys (d : Dictionary) : List String :=
  d.entries.map (·.1)

def values (d : Dictionary) : List Value :=
  d.entries.map (·.2)

def size (d : Dictionary) : Nat :=
  d.entries.length

/-- The methods of a dictionary. -/
inductive Method where
  | add | contains | item | remove | removeAll | keys | items | count
  deriving DecidableEq

namespace Method

def all : List Method :=
  [add, contains, item, remove, removeAll, keys, items, count]

def name : Method → String
  | add => "Add"
  | contains => "Exists"
  | item => "Item"
  | remove => "Remove"
  | removeAll => "RemoveAll"
  | keys => "Keys"
  | items => "Items"
  | count => "Count"

def arity : Method → Nat
  | add => 2
  | contains | item | remove => 1
  | removeAll | keys | items | count => 0

def ofName? (word : String) : Option Method :=
  all.find? fun m ↦ Text.sameWord m.name word

end Method

end Dictionary

end MiniBasic
