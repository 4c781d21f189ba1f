import Mathlib.Data.Finset.Card
import VHttp.HashTableInsertions

/-!
# Which insertions return

The copying loop of a rehash always ends: it places no more items than half the
slots of the new array. A probe for a key ends when the key is stored or some
slot is empty. Since a rehash resets the count and leaves it so, a table that
starts with `n` slots grows once, to `2 * n`, and then fills up: insertions are
sure to return while at most `2 * n` distinct keys have been used.
-/

namespace VHttp.VHashTable

open Circular Probing

variable {V : Type}

/-- The number of slots with a key. -/
def occupancy (items : List (VHashItem V)) : Nat := items.countP (fun item => !itemIsEmpty item)

theorem occupancy_replicate (length : Nat) :
    occupancy (List.replicate length (VHashItem.empty (V := V))) = 0 := by
  simp [occupancy, List.countP_replicate, itemIsEmpty, VHashItem.empty]

theorem occupancy_set (items : List (VHashItem V)) (index : Nat) (old item : VHashItem V)
    (read : items[index]? = some old) :
    occupancy (items.set index item) + (if itemIsEmpty old then 0 else 1) =
      occupancy items + (if itemIsEmpty item then 0 else 1) := by
  obtain ⟨inside, same⟩ := List.getElem?_eq_some_iff.mp read
  have counted : occupancy (items.set index item) =
      occupancy items - (if (!itemIsEmpty old) = true then 1 else 0) +
        (if (!itemIsEmpty item) = true then 1 else 0) := by
    rw [← same]
    exact List.countP_set inside
  have present : (if itemIsEmpty old then 0 else 1) ≤ occupancy items := by
    cases vacant : itemIsEmpty old with
    | true => simp
    | false =>
      simp only [Bool.false_eq_true, ↓reduceIte]
      exact List.countP_pos_iff.mpr ⟨old, List.mem_of_getElem? read, by simp [vacant]⟩
  rw [counted]
  cases vacantOld : itemIsEmpty old <;> cases vacantNew : itemIsEmpty item <;>
    simp only [vacantOld, Bool.not_false, Bool.not_true, Bool.false_eq_true, ↓reduceIte]
      at present ⊢ <;> omega

/-- An array that is not full has an empty slot. -/
theorem vacancy (items : List (VHashItem V)) (room : occupancy items < items.length) :
    ∃ index, Stops itemIsEmpty items index := by
  by_contra full
  have everywhere : ∀ item ∈ items, (!itemIsEmpty item) = true := by
    intro item member
    obtain ⟨index, read⟩ := List.mem_iff_getElem?.mp member
    cases vacant : itemIsEmpty item with
    | true => exact absurd ⟨index, item, read, vacant⟩ full
    | false => rfl
  exact absurd (List.countP_eq_length.mpr everywhere) (Nat.ne_of_lt room)

/-- The copying loop returns while the array has room for all pending items. -/
theorem foldlM_place_returns (pending items : List (VHashItem V)) (positive : 0 < items.length)
    (room : occupancy items + pending.length ≤ items.length) :
    ∃ after, pending.foldlM place items = some after := by
  induction pending generalizing items with
  | nil => exact ⟨items, rfl⟩
  | cons item rest inductionHypothesis =>
    simp only [List.length_cons] at room
    obtain ⟨vacant, stops⟩ := vacancy items (by omega)
    obtain ⟨index, stopped⟩ := search_total itemIsEmpty items (home items item.hash) vacant
      (home_lt items item.hash positive) stops
    obtain ⟨old, read, empty⟩ := search_stops stopped
    have counted := occupancy_set items index old item read
    simp only [empty, ↓reduceIte, Nat.add_zero] at counted
    have small : (if itemIsEmpty item = true then 0 else 1) ≤ 1 := by split <;> decide
    obtain ⟨after, copied⟩ := inductionHypothesis (items.set index item) (by simpa using positive)
      (by rw [List.length_set]; omega)
    exact ⟨after, by simp [place, stopped, copied]⟩

/-- `VHashTable_Rehash` always returns. -/
theorem rehash_returns (table : VHashTable V) (positive : 0 < table.items.length) :
    ∃ after, rehash table = some after := by
  obtain ⟨items, copied⟩ := foldlM_place_returns table.items
    (List.replicate (2 * table.capacity) VHashItem.empty) (by simpa [capacity] using positive)
    (by simp [occupancy_replicate, capacity]; omega)
  exact ⟨⟨items, 0⟩, by simp [rehash, copied]⟩

theorem grow_returns (table : VHashTable V) (positive : 0 < table.items.length) :
    ∃ after, grow table = some after := by
  unfold grow
  split
  · exact rehash_returns table positive
  · exact ⟨table, rfl⟩

/-- `VHashTable_Insert` returns once the probe after the growth test does. -/
theorem insert_of_probe {table grown : VHashTable V} {key : CString} {index : Nat} (value : V)
    (hasGrown : grow table = some grown) (stopped : probe grown.items key = some index) :
    ∃ after, insert table key value = some after := by
  obtain ⟨item, read, _⟩ := search_stops stopped
  cases vacant : itemIsEmpty item <;> simp [insert, hasGrown, stopped, read, vacant]

/-- Inserting a stored key into a sound table always returns. -/
theorem insert_present {table : VHashTable V} {meaning : CString → Option V} {key : CString}
    {old : V} (value : V) (represents : Represents table.items meaning)
    (present : meaning key = some old) : ∃ after, insert table key value = some after := by
  obtain ⟨grown, hasGrown⟩ := grow_returns table represents.1.positive
  obtain ⟨sound, contents⟩ := grow_represents represents hasGrown
  obtain ⟨index, holds⟩ := ((contents key old).mpr present).holds
  exact insert_of_probe value hasGrown (sound.probe_held holds)

/-- Copying moves every item to a slot of its own. -/
theorem foldlM_place_occupancy (pending items after : List (VHashItem V))
    (copied : pending.foldlM place items = some after) :
    after.length = items.length ∧ occupancy after = occupancy items + occupancy pending := by
  induction pending generalizing items with
  | nil =>
    have same : items = after := Option.some.inj copied
    subst after
    exact ⟨rfl, rfl⟩
  | cons item rest inductionHypothesis =>
    simp only [List.foldlM_cons, place, Option.bind_eq_bind, Option.bind_eq_some_iff,
      Option.pure_def, Option.some.injEq] at copied
    obtain ⟨_, ⟨index, stopped, rfl⟩, remaining⟩ := copied
    obtain ⟨old, read, empty⟩ := search_stops stopped
    have counted := occupancy_set items index old item read
    obtain ⟨sameLength, total⟩ := inductionHypothesis (items.set index item) remaining
    refine ⟨by simpa using sameLength, ?_⟩
    have headed : occupancy (item :: rest) =
        occupancy rest + (if itemIsEmpty item then 0 else 1) := by
      cases vacant : itemIsEmpty item <;> simp [occupancy, vacant]
    simp only [empty, ↓reduceIte, Nat.add_zero] at counted
    omega

/-- A table that started with `initial` slots and saw insertions only. Before its
one rehash the count is the occupancy; after it, the count has lost exactly the
items the rehash moved. -/
def Shape (initial : Nat) (table : VHashTable V) : Prop :=
  (table.items.length = initial ∧ table.count = occupancy table.items) ∨
    (table.items.length = 2 * initial ∧ occupancy table.items = initial + table.count)

theorem occupancy_le (items : List (VHashItem V)) : occupancy items ≤ items.length :=
  List.countP_le_length

/-- The growth test keeps the shape and the occupancy. If it does not double the
array, the array has as many slots as it ever will, or one of them is empty. -/
theorem grow_shape {initial : Nat} {table after : VHashTable V} (positive : 0 < initial)
    (shape : Shape initial table) (returned : grow table = some after) :
    Shape initial after ∧ occupancy after.items = occupancy table.items ∧
      (after.items.length = 2 * initial ∨ occupancy after.items < after.items.length) := by
  have bound := occupancy_le table.items
  rcases grow_cases returned with ⟨crowded, zero, copied⟩ | ⟨room, rfl⟩
  · unfold capacity at crowded copied
    obtain ⟨length, moved⟩ := foldlM_place_occupancy _ _ _ copied
    rw [occupancy_replicate, Nat.zero_add] at moved
    rw [List.length_replicate] at length
    -- Only a table that has not grown yet can fail the test: afterwards the
    -- count is at most half the capacity.
    rcases shape with ⟨size, counted⟩ | ⟨size, counted⟩
    · refine ⟨Or.inr ⟨by rw [length, size], ?_⟩, moved, Or.inl (by rw [length, size])⟩
      rw [moved, zero]
      omega
    · omega
  · unfold capacity at room
    refine ⟨shape, rfl, ?_⟩
    rcases shape with ⟨size, counted⟩ | ⟨size, _⟩
    · exact Or.inr (by omega)
    · exact Or.inl size

/-- An insertion keeps the shape, and fills one more slot exactly for a new key. -/
theorem insert_shape {initial : Nat} {table after : VHashTable V} {key : CString} {value : V}
    {meaning : CString → Option V} (positive : 0 < initial) (fits : initial < 2 ^ 64)
    (represents : Represents table.items meaning) (shape : Shape initial table)
    (returned : insert table key value = some after) :
    Shape initial after ∧ occupancy after.items =
      occupancy table.items + (if meaning key = none then 1 else 0) := by
  obtain ⟨grown, index, item, hasGrown, stopped, read, outcome⟩ := insert_cases returned
  obtain ⟨grownShape, sameOccupancy, _⟩ := grow_shape positive shape hasGrown
  obtain ⟨sound, contents⟩ := grow_represents represents hasGrown
  have bound := occupancy_le grown.items
  rcases outcome with ⟨vacantKey, rfl⟩ | ⟨occupiedKey, rfl⟩
  · have unset := Represents.unset ⟨sound, contents⟩ (sound.probe_vacant stopped read vacantKey).2
    have counted := occupancy_set grown.items index item ⟨some key, some value, hash key⟩ read
    simp only [itemIsEmpty, vacantKey, Option.isNone_none, Option.isNone_some, ↓reduceIte,
      Bool.false_eq_true, Nat.add_zero] at counted
    have room := occupancy_le (grown.items.set index ⟨some key, some value, hash key⟩)
    rw [List.length_set] at room
    have small : grown.count + 1 < 2 ^ 64 := by
      rcases grownShape with ⟨size, same⟩ | ⟨size, same⟩ <;> omega
    refine ⟨?_, by simp only [unset, ↓reduceIte]; omega⟩
    unfold Shape u64
    simp only [List.length_set, Nat.mod_eq_of_lt small]
    rcases grownShape with ⟨size, same⟩ | ⟨size, same⟩
    · exact Or.inl ⟨size, by omega⟩
    · exact Or.inr ⟨size, by omega⟩
  · have holds : Holds grown.items index key :=
      ⟨item, read, sound.probe_occupied stopped read occupiedKey⟩
    obtain ⟨old, stored⟩ := sound.stored_of_holds holds
    have present : meaning key = some old := (contents key old).mp stored
    have counted := occupancy_set grown.items index item { item with value := some value } read
    have unchanged : occupancy (grown.items.set index { item with value := some value }) =
        occupancy grown.items := Nat.add_right_cancel counted
    refine ⟨?_, by simp [present, unchanged, sameOccupancy]⟩
    unfold Shape at grownShape ⊢
    simpa only [List.length_set, unchanged] using grownShape

/-- A table that started with `initial` slots and holds exactly these keys. -/
structure Filled (initial : Nat) (table : VHashTable V) (meaning : CString → Option V)
    (used : Finset CString) : Prop where
  represents : Represents table.items meaning
  shape : Shape initial table
  counted : occupancy table.items = used.card
  known : ∀ key, key ∈ used ↔ meaning key ≠ none

/-- A new table of default capacity holds nothing. -/
theorem init_filled : Filled initCapacity (init 0 : VHashTable V) (fun _ => none) ∅ where
  represents := init_represents 0
  shape := Or.inl ⟨rfl, rfl⟩
  counted := rfl
  known := by simp

/-- The slots of a filled table are enough for its keys. -/
theorem Filled.card_le {initial : Nat} {table : VHashTable V} {meaning : CString → Option V}
    {used : Finset CString} (filled : Filled initial table meaning used) :
    used.card ≤ 2 * initial := by
  have bound := occupancy_le table.items
  have counted := filled.counted
  rcases filled.shape with ⟨size, _⟩ | ⟨size, _⟩ <;> omega

/-- An insertion that returns adds its key. -/
theorem Filled.insert {initial : Nat} {table after : VHashTable V} {key : CString} {value : V}
    {meaning : CString → Option V} {used : Finset CString} (positive : 0 < initial)
    (fits : initial < 2 ^ 64) (filled : Filled initial table meaning used)
    (returned : VHashTable.insert table key value = some after) :
    Filled initial after (Function.update meaning key (some value)) (Insert.insert key used) := by
  obtain ⟨represents, shape, counted, known⟩ := filled
  obtain ⟨afterShape, afterCount⟩ := insert_shape positive fits represents shape returned
  refine ⟨insert_represents represents returned, afterShape, ?_, ?_⟩
  · by_cases member : key ∈ used
    · rw [afterCount, if_neg ((known key).mp member), Finset.insert_eq_of_mem member]
      exact counted
    · have unset : meaning key = none := by
        by_contra present
        exact member ((known key).mpr present)
      rw [afterCount, if_pos unset, Finset.card_insert_of_notMem member, counted]
  · intro tested
    by_cases equal : tested = key
    · simp [equal]
    · rw [Function.update_of_ne equal, Finset.mem_insert, ← known tested]
      simp [equal]

/-- Inserting returns while the table, with the new key, has room. -/
theorem Filled.insert_returns {initial : Nat} {table : VHashTable V} {key : CString} (value : V)
    {meaning : CString → Option V} {used : Finset CString} (positive : 0 < initial)
    (filled : Filled initial table meaning used)
    (few : (Insert.insert key used).card ≤ 2 * initial) :
    ∃ after, VHashTable.insert table key value = some after := by
  obtain ⟨represents, shape, counted, known⟩ := filled
  by_cases member : key ∈ used
  · obtain ⟨old, present⟩ := Option.ne_none_iff_exists'.mp ((known key).mp member)
    exact insert_present value represents present
  · obtain ⟨grown, hasGrown⟩ := grow_returns table represents.1.positive
    obtain ⟨_, sameOccupancy, size⟩ := grow_shape positive shape hasGrown
    rw [Finset.card_insert_of_notMem member] at few
    obtain ⟨vacant, stops⟩ := vacancy grown.items (by omega)
    have sound := (grow_represents represents hasGrown).1
    have satisfied : Stops (stopsAt key) grown.items vacant := by
      obtain ⟨item, read, empty⟩ := stops
      exact ⟨item, read, by simp [stopsAt, empty]⟩
    obtain ⟨index, stopped⟩ := search_total (stopsAt key) grown.items
      (home grown.items (hash key)) vacant (home_lt _ _ sound.positive) satisfied
    exact insert_of_probe value hasGrown stopped

/-- A sequence of insertions returns exactly when all keys, old and new, are at most
`2 * initial`.

Induct over the calls. A key that is there is found; for any other key there is an empty
slot, because the array either has not been filled or has doubled already. Conversely
the keys of a table that is reached have a slot each. -/
theorem Filled.insertAll_returns_iff {initial : Nat} (positive : 0 < initial)
    (fits : initial < 2 ^ 64) (calls : List (CString × V)) {table : VHashTable V}
    {meaning : CString → Option V} {used : Finset CString}
    (filled : Filled initial table meaning used) :
    (∃ after, insertAll table calls = some after) ↔
      (used ∪ (calls.map Prod.fst).toFinset).card ≤ 2 * initial := by
  induction calls generalizing table meaning used with
  | nil => simpa [insertAll] using filled.card_le
  | cons call rest inductionHypothesis =>
    obtain ⟨key, value⟩ := call
    have same : used ∪ (((key, value) :: rest).map Prod.fst).toFinset =
        Insert.insert key used ∪ (rest.map Prod.fst).toFinset := by
      simp only [List.map_cons, List.toFinset_cons, Finset.union_insert, Finset.insert_union]
    rw [same]
    simp only [insertAll, List.foldlM_cons, Option.bind_eq_bind, Option.bind_eq_some_iff]
    constructor
    · rintro ⟨after, middle, inserted, remaining⟩
      exact (inductionHypothesis (filled.insert positive fits inserted)).mp ⟨after, remaining⟩
    · intro few
      have enough : (Insert.insert key used).card ≤ 2 * initial :=
        (Finset.card_le_card Finset.subset_union_left).trans few
      obtain ⟨middle, inserted⟩ := filled.insert_returns value positive enough
      obtain ⟨after, remaining⟩ :=
        (inductionHypothesis (filled.insert positive fits inserted)).mpr few
      exact ⟨after, middle, inserted, remaining⟩

/-- Into a new table of default capacity, exactly up to thirty-two distinct keys can be
inserted, each any number of times. -/
theorem insertAll_returns_iff (calls : List (CString × V)) :
    (∃ after, insertAll (init 0) calls = some after) ↔
      (calls.map Prod.fst).toFinset.card ≤ 32 := by
  rw [init_filled.insertAll_returns_iff (by decide) (by decide), Finset.empty_union]
  rfl

end VHttp.VHashTable
