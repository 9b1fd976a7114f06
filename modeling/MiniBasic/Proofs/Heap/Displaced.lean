import MiniBasic.Proofs.Heap.Stored

/-!
# Writes over dictionaries

Reading goes on through the dictionaries that arrays hold; writing does not. Where a write comes to
a dictionary with an index still to follow, it puts a new array in its place, as it does with
everything that is no array. The dictionary itself keeps its entries, but the indices do not lead to
it any more.
-/

namespace MiniBasic.Heap

open MiniBasic.Heap.Action

/-- Reading goes along the indices from array to array. -/
inductive Walks (h : Heap) : Nat → List Value → Nat → Prop
  | nil (id : Nat) : Walks h id [] id
  | cons {id inner target : Nat} {index : Value} {rest : List Value}
    (there : h.readElement id index = .array inner) (more : Walks h inner rest target) :
    Walks h id (index :: rest) target

variable {h h' : Heap} {id target : Nat} {way rest : List Value} {index : Value}

/-! ## Reading -/

/-- Reading comes to a dictionary from an array or a dictionary only. -/
theorem container_of_readPath {called : String} {v : Value} {front : List Value} {d : Nat}
    (reads : h.readPath called v front = .ok (.dictionary d)) :
    (∃ id, v = .array id) ∨ ∃ id, v = .dictionary id := by
  cases v with
  | array id => exact .inl ⟨id, rfl⟩
  | dictionary id => exact .inr ⟨id, rfl⟩
  | _ => cases front <;> cases reads

/-- Reading that comes to a dictionary has come to a first one, through arrays. -/
theorem exists_walks_of_readPath {called : String} {front : List Value} {d : Nat}
    (reads : h.readPath called (.array id) front = .ok (.dictionary d)) :
    ∃ way index keys target d₀, front = way ++ index :: keys ∧ h.Walks id way target ∧
      h.readElement target index = .dictionary d₀ := by
  induction front generalizing id with
  | nil => cases reads
  | cons index rest ih =>
    rw [readPath] at reads
    rcases container_of_readPath reads with ⟨inner, found⟩ | ⟨d₀, found⟩
    · rw [found] at reads
      obtain ⟨way, index', keys, target, d₀, rfl, walks, last⟩ := ih reads
      exact ⟨index :: way, index', keys, target, d₀, rfl, .cons found walks, last⟩
    · exact ⟨[], index, rest, id, d₀, rfl, .nil id, found⟩

namespace Walks

theorem mem_met (walks : h.Walks id way target) (rest : List Value) :
    target ∈ h.met id (way ++ rest) := by
  induction walks with
  | nil id => exact h.mem_met_self id rest
  | cons there more ih =>
    rw [List.cons_append, met_cons_of_array there]
    exact List.mem_cons_of_mem _ ih

/-- Behind a dictionary no array is met. -/
theorem met_append (walks : h.Walks id way target) {d : Nat}
    (last : h.readElement target index = .dictionary d) (keys more : List Value) :
    h.met id (way ++ index :: keys ++ more) = h.met id (way ++ index :: keys) := by
  induction walks with
  | nil id =>
    rw [List.nil_append, List.cons_append, met, met, last]
  | cons there walks ih =>
    rw [List.cons_append, List.cons_append, met_cons_of_array there, met_cons_of_array there,
      ih last]

/-- The way is the same in a heap where only its last array has changed. -/
theorem readPath_append (walks : h.Walks id way target) (distinct : (h.met id (way ++ rest)).Nodup)
    (same : ∀ k ∈ h.met id (way ++ rest), k ≠ target → h'.array k = h.array k) (called : String)
    (tail : List Value) :
    h'.readPath called (.array id) (way ++ tail) = h'.readPath called (.array target) tail := by
  induction walks with
  | nil id => rfl
  | @cons id inner target index way there more ih =>
    rw [List.cons_append, met_cons_of_array there] at distinct same
    obtain ⟨first, distinct⟩ := List.nodup_cons.mp distinct
    have other : id ≠ target := by
      rintro rfl
      exact first (more.mem_met rest)
    rw [List.cons_append, readPath, readElement_congr (same id List.mem_cons_self other), there]
    exact ih distinct fun k hk ↦ same k (List.mem_cons_of_mem id hk)

end Walks

/-! ## Writing along the same way -/

/-- An index that reads an object is an index of the array, and can be written with unless it is too
large. -/
theorem element?_of_readElement {v : Value} (found : h.readElement id index = v)
    (something : v ≠ .empty) :
    ∃ i, readIndex index = some i ∧ h.element? id i = some v := by
  rw [readElement] at found
  cases read : readIndex index with
  | none =>
    rw [read] at found
    exact absurd found.symm something
  | some i =>
    rw [read, Option.bind_some] at found
    refine ⟨i, rfl, ?_⟩
    cases there : h.element? id i with
    | none =>
      rw [there] at found
      exact absurd found.symm something
    | some w =>
      rw [there] at found
      exact congrArg some found

theorem writeIndex_of_readElement {v : Value} (found : h.readElement id index = v)
    (something : v ≠ .empty) :
    (∃ i, writeIndex index = .ok i ∧ h.element? id i = some v) ∨
      maxArrayLength < (h.array id).size ∧ ∃ e, writeIndex index = .error e := by
  obtain ⟨i, read, there⟩ := element?_of_readElement found something
  by_cases small : i < maxArrayLength
  · exact .inl ⟨i, writeIndex_eq_ok.mpr ⟨read, small⟩, there⟩
  · have inside := lt_size_of_element? there
    refine .inr ⟨by omega, .indexOutOfRange index.toNumber, ?_⟩
    rw [writeIndex, read]
    exact if_neg small

/-- A write takes the way that reading takes, unless an array on it is longer than the limit and an
index beyond the limit is refused. -/
theorem Walks.writePath_cases (walks : h.Walks id way target) {w : Value}
    (last : h.readElement target index = w) (something : w ≠ .empty) (v final : Value)
    (rest : List Value) :
    (∃ i, writeIndex index = .ok i ∧ h.element? target i = some w ∧
        writePath v final id (way ++ index :: rest) h =
          writePath v final target (index :: rest) h) ∨
      (∃ k ∈ h.met id (way ++ index :: rest), maxArrayLength < (h.array k).size) ∧
        ∃ e, writePath v final id (way ++ index :: rest) h = .error e h := by
  induction walks with
  | nil id =>
    rcases writeIndex_of_readElement last something with ⟨i, checked, there⟩ | ⟨long, e, refused⟩
    · exact .inl ⟨i, checked, there, rfl⟩
    · exact .inr ⟨⟨id, h.mem_met_self id _, long⟩, e, writePath_refused refused⟩
  | @cons id inner target first way there more ih =>
    rw [List.cons_append, met_cons_of_array there]
    rcases writeIndex_of_readElement there (by simp) with ⟨i, checked, element⟩ | ⟨long, e, refused⟩
    · rw [writePath_array checked element]
      rcases ih last with kept | ⟨⟨k, hk, long⟩, failed⟩
      · exact .inl kept
      · exact .inr ⟨⟨k, List.mem_cons_of_mem id hk, long⟩, failed⟩
    · exact .inr ⟨⟨id, List.mem_cons_self, long⟩, e, writePath_refused refused⟩

/-- In an array without elements a write makes new arrays only, and at no index but its last it
leaves anything else there. -/
theorem readPath_writePath_of_empty (bare : h.array id = #[]) (present : id < h.arrays.size)
    (v last : Value) (keys more : List Value) (called : String) (d : Nat) :
    ((writePath v last id (keys ++ more)).after h).readPath called (.array id) keys ≠
      .ok (.dictionary d) := by
  induction keys generalizing id h with
  | nil =>
    intro reads
    cases reads
  | cons index keys ih =>
    rw [List.cons_append]
    rcases step_cases h id index with ⟨e, refused⟩ | ⟨i, checked, lacks | ⟨inner, there⟩⟩
    · have nothing : h.readElement id index = .empty := by
        by_contra something
        obtain ⟨i, -, there⟩ := element?_of_readElement rfl something
        rw [element?, bare] at there
        cases there
      rw [after, writePath_refused refused, readPath, nothing]
      intro reads
      rcases container_of_readPath reads with ⟨_, container⟩ | ⟨_, container⟩
      · cases container
      · cases container
    · have opened := (opened_writePath lacks v last (keys ++ more)).storedAt present
      rw [after, writePath_opened checked lacks, ← after, readPath, readElement_of_checked checked,
        opened.elements, if_pos rfl]
      exact ih (array_withInner_size present i) (h.lt_size_withInner id i)
    · rw [element?, bare] at there
      cases there

theorem Action.eq_ok_of_error? {action : Action Unit} (fine : action.error? h = none) :
    action h = .ok () (action.after h) := by
  unfold error? at fine
  unfold after
  cases run : action h with
  | ok a h' => rfl
  | error e h' =>
    rw [run] at fine
    cases fine

/-- A write does not go through dictionaries. Let reading with the first of its indices give a
dictionary, along different arrays. Then the first dictionary on the way is displaced by a new
array: it keeps its entries, as all dictionaries do, but from then on these indices read no
dictionary any more, whether the write succeeds or fails. Only if an array on the way is longer than
the limit, an index beyond the limit may be refused before that, and nothing happens. If the write
succeeds, all its indices together read the value. -/
theorem write_displaces {name called : String} {root d : Nat} {front behind : List Value}
    {v : Value} {h : Heap} (present : ∀ k ∈ h.met root front, k < h.arrays.size)
    (distinct : (h.met root front).Nodup)
    (reads : h.read called (.array root) front = .ok (.dictionary d)) (more : behind ≠ []) :
    let action := write name (.array root) (front ++ behind) v
    let h' := action.after h
    h'.dictionaries = h.dictionaries ∧ ∃ way index keys target d₀, front = way ++ index :: keys ∧
      h.Walks root way target ∧ h.readElement target index = .dictionary d₀ ∧
      ((∃ k ∈ h.met root front, maxArrayLength < (h.array k).size) ∧ (∃ e, action h = .error e h) ∨
        (∃ i, writeIndex index = .ok i ∧ h.StoredAt target i (.array h.arrays.size) h') ∧
          h'.read called (.array root) (way ++ [index]) = .ok (.array h.arrays.size) ∧
          (∀ d', h'.read called (.array root) front ≠ .ok (.dictionary d')) ∧
          (action.error? h = none → h'.read called (.array root) (front ++ behind) = .ok v)) := by
  intro action h'
  obtain ⟨init, last, rfl⟩ : ∃ init last, behind = init ++ [last] :=
    ⟨_, _, (List.dropLast_append_getLast more).symm⟩
  obtain ⟨way, index, keys, target, d₀, rfl, walks, found⟩ := exists_walks_of_readPath reads
  have parts :
      way ++ index :: keys ++ (init ++ [last]) = way ++ index :: (keys ++ init) ++ [last] := by simp
  have along : action = writePath v last root (way ++ index :: (keys ++ init)) := by
    rw [← write_append name, ← parts]
  have behind := walks.met_append found keys init
  rw [List.append_assoc, List.cons_append] at behind
  rcases walks.writePath_cases found (by simp) v last (keys ++ init) with
    ⟨i, checked, there, continued⟩ | ⟨long, e, failed⟩
  · have lacks : h.Lacks target i := by
      intro inner element
      rw [there] at element
      cases element
    have inside := present target (walks.mem_met _)
    have run :
        h' = (writePath v last h.arrays.size (keys ++ init)).after (h.withInner target i) := by
      change action.after h = _
      rw [after, along, continued, writePath_opened checked lacks, ← after]
    have stored := (opened_writePath lacks v last (keys ++ init)).storedAt inside
    rw [← run] at stored
    have here : h'.readElement target index = .array h.arrays.size := by
      rw [readElement_of_checked checked, stored.elements, if_pos rfl]
      rfl
    have onward (tail : List Value) :
        h'.readPath called (.array root) (way ++ tail) = h'.readPath called (.array target) tail :=
      walks.readPath_append distinct
        (fun k hk other ↦ array_congr (stored.others k (present k hk) other)) called tail
    refine ⟨stored.dictionaries, way, index, keys, target, d₀, rfl, walks, found,
      .inr ⟨⟨i, checked, stored⟩, ?_, ?_, ?_⟩⟩
    · rw [read, onward, readPath, here, readPath]
    · intro d'
      rw [read, onward, readPath, here, run]
      exact readPath_writePath_of_empty (array_withInner_size inside i)
        (lt_size_withInner h target i) v last keys init called d'
    · intro fine
      have done : writePath v last root (way ++ index :: (keys ++ init)) h = .ok () h' := by
        rw [← along]
        exact eq_ok_of_error? fine
      rw [← behind] at present distinct
      rw [read, parts]
      exact readPath_of_writePath present distinct done called
  · rw [behind] at long
    have run : action h = .error e h := by rw [along, failed]
    have unchanged : h' = h := by
      change action.after h = h
      rw [after, run]
    exact ⟨congrArg dictionaries unchanged, way, index, keys, target, d₀, rfl, walks, found,
      .inl ⟨long, e, run⟩⟩

/-- `a(0, "k", "x") = True`, where `a(0)` is a dictionary that holds another one under `k`, fails at
`k`, and then `a(0)` is a new array. -/
theorem write_displaces_nested :
    let h : Heap := ⟨#[#[.dictionary 0]], #[⟨[("k", .dictionary 1)]⟩, .empty], #[]⟩
    let action := write "a" (.array 0) ([.number 0, .text "k"] ++ [.text "x"]) (.boolean true)
    let h' := action.after h
    h.read "a" (.array 0) [.number 0, .text "k"] = .ok (.dictionary 1) ∧
      action.error? h = some (.indexOutOfRange Number.nan) ∧ h'.arrays = #[#[.array 1], #[]] ∧
      h'.dictionaries = h.dictionaries ∧ ∀ d, h'.read "a" (.array 0) [.number 0, .text "k"] ≠
        .ok (.dictionary d) := by
  intro h action h'
  have reads : h.read "a" (.array 0) [.number 0, .text "k"] = .ok (.dictionary 1) := rfl
  have way : h.met 0 [.number 0, .text "k"] = [0] := rfl
  obtain ⟨same, _, _, _, _, _, _, _, _, ⟨⟨k, hk, long⟩, _⟩ | ⟨-, -, gone, -⟩⟩ :=
    @write_displaces "a" "a" 0 1 _ [.text "x"] (.boolean true) h (by rw [way]; decide)
      (by rw [way]; decide) reads (by simp)
  · rw [way] at hk
    cases List.mem_singleton.mp hk
    exact absurd long (by decide)
  · exact ⟨reads, rfl, rfl, same, gone⟩

/-- `a(0, 1) = 5` takes the dictionary `a(0)` away, and with it what `a(0, "k")` was. -/
theorem write_discards_dictionary :
    let h : Heap := ⟨#[#[.dictionary 0]], #[⟨[("k", .number 7)]⟩], #[]⟩
    ∃ h', write "a" (.array 0) [.number 0, .number 1] (.number 5) h = .ok () h' ∧
      h.read "a" (.array 0) [.number 0] = .ok (.dictionary 0) ∧
      h'.read "a" (.array 0) [.number 0] = .ok (.array 1) ∧
      h.read "a" (.array 0) [.number 0, .text "k"] = .ok (.number 7) ∧
      h'.read "a" (.array 0) [.number 0, .text "k"] = .ok .empty :=
  ⟨⟨#[#[.array 1], #[.empty, .number 5]], #[⟨[("k", .number 7)]⟩], #[]⟩, rfl, rfl, rfl, rfl, rfl⟩

end MiniBasic.Heap
