import Mathlib.Data.Set.Finite.Basic
import VHttp.Foundations.Runs
import VHttp.HashTableRemoval
import VHttp.HeaderLines

/-!
# When the probe loops end

None of the table's probe loops has a bound of its own. Each of them ends when it meets
an empty slot or its key, and what it has not met after `Capacity` slots it never meets.

Insertions alone fill a table up: it grows once, since the rehash loses the count, and
with more than twice as many keys as it began with some insertion never ends. A table
without an empty slot answers for its own keys only.
-/

namespace VHttp.VHashTable

open Circular Probing Runs

variable {V : Type}

/-- Every round of the copying loop of `VHashTable_Rehash` meets an empty slot. -/
def CopyingEnds (table : VHashTable V) : Prop :=
  ∀ moved item rest items, table.items = moved ++ item :: rest →
    moved.foldlM place (List.replicate (2 * table.capacity) VHashItem.empty) = some items →
    Meets itemIsEmpty items (home items item.hash)

/-- The loops of `VHashTable_Insert` end within `Capacity` probes each: those of the
rehash, if it is made, and the one for the key in the array after it. -/
structure InsertEnds (table : VHashTable V) (key : CString) : Prop where
  copying : table.capacity ≤ table.count → CopyingEnds table
  probing : ∀ grown, grow table = some grown →
    Meets (stopsAt key) grown.items (home grown.items (hash key))

theorem init_length (capacity : UInt64) :
    (init capacity.toNat : VHashTable V).items.length < 2 ^ 64 := by
  have bound := capacity.toNat_lt
  rw [capacity_init]
  unfold initCapacity
  split <;> omega

/-- A new table is as long as it says, and has no keys. -/
theorem init_filled_capacity (capacity : Nat) :
    Filled (init capacity : VHashTable V).capacity (init capacity : VHashTable V)
      (fun _ => none) ∅ where
  represents := init_represents capacity
  shape := Or.inl ⟨rfl, by simp [init, occupancy_replicate]⟩
  counted := by simp [init, occupancy_replicate]
  known := by simp

/-- A copying loop that returns has ended in every round. -/
theorem foldlM_place_meets {pending items after : List (VHashItem V)}
    (positive : 0 < items.length) (copied : pending.foldlM place items = some after)
    {moved rest middle : List (VHashItem V)} {item : VHashItem V}
    (cut : pending = moved ++ item :: rest) (reached : moved.foldlM place items = some middle) :
    Meets itemIsEmpty middle (home middle item.hash) := by
  subst cut
  have length := (foldlM_place_occupancy moved items middle reached).1
  rw [List.foldlM_append, reached] at copied
  simp only [Option.bind_eq_bind, Option.bind_some, List.foldlM_cons, place,
    Option.bind_eq_some_iff] at copied
  obtain ⟨_, ⟨index, stopped, _⟩, _⟩ := copied
  exact (search_returns_iff (home_lt middle item.hash (by omega))).mp ⟨index, stopped⟩

/-- The copying loop of a rehash ends in every round, whatever the table holds. -/
theorem copyingEnds (table : VHashTable V) (positive : 0 < table.items.length) :
    CopyingEnds table := by
  intro moved item rest items cut reached
  obtain ⟨after, returned⟩ := rehash_returns table positive
  simp only [rehash, Option.bind_eq_bind, Option.bind_eq_some_iff] at returned
  obtain ⟨_, copied, _⟩ := returned
  have blank : 0 < (List.replicate (2 * table.capacity) (VHashItem.empty (V := V))).length := by
    simpa [capacity] using positive
  exact foldlM_place_meets blank copied cut reached

/-- The growth test never shrinks an array. -/
theorem grow_positive {table grown : VHashTable V} (positive : 0 < table.items.length)
    (returned : grow table = some grown) : 0 < grown.items.length := by
  rcases grow_cases returned with ⟨_, _, copied⟩ | ⟨_, rfl⟩
  · have length := (foldlM_place_occupancy _ _ _ copied).1
    rw [List.length_replicate, capacity] at length
    omega
  · exact positive

/-- `VHashTable_Insert` returns exactly when its loops end within `Capacity` probes. -/
theorem insertEnds_iff {table : VHashTable V} (positive : 0 < table.items.length) (key : CString)
    (value : V) : InsertEnds table key ↔ ∃ after, insert table key value = some after := by
  constructor
  · intro ends
    obtain ⟨grown, hasGrown⟩ := grow_returns table positive
    have inside := home_lt grown.items (hash key) (grow_positive positive hasGrown)
    obtain ⟨index, stopped⟩ := (search_returns_iff inside).mpr (ends.probing grown hasGrown)
    exact insert_of_probe value hasGrown stopped
  · rintro ⟨after, returned⟩
    constructor
    · intro _
      exact copyingEnds table positive
    · intro grown hasGrown
      obtain ⟨same, index, _, again, stopped, _⟩ := insert_cases returned
      obtain rfl : same = grown := Option.some.inj (again.symm.trans hasGrown)
      have inside := home_lt same.items (hash key) (grow_positive positive hasGrown)
      exact (search_returns_iff inside).mp ⟨index, stopped⟩

/-- A sequence of insertions returns exactly when each of them ends where it is made. -/
theorem insertAll_ends_iff {table : VHashTable V} {meaning : CString → Option V}
    (represents : Represents table.items meaning) (calls : List (CString × V)) :
    (∀ earlier key value later reached, calls = earlier ++ (key, value) :: later →
      insertAll table earlier = some reached → InsertEnds reached key) ↔
      ∃ after, insertAll table calls = some after := by
  induction calls generalizing table meaning with
  | nil =>
    constructor
    · intro _
      exact ⟨table, rfl⟩
    · rintro _ earlier key value later reached cut
      simp at cut
  | cons call rest inductionHypothesis =>
    obtain ⟨key, value⟩ := call
    simp only [insertAll, List.foldlM_cons, Option.bind_eq_bind, Option.bind_eq_some_iff]
    constructor
    · intro ends
      have first := ends [] key value rest table rfl rfl
      obtain ⟨middle, inserted⟩ := (insertEnds_iff represents.1.positive key value).mp first
      have others := (inductionHypothesis (insert_represents represents inserted)).mp
        (fun earlier other found later reached cut returned =>
          ends ((key, value) :: earlier) other found later reached (by rw [cut]; rfl)
            (by simpa [insertAll, inserted] using returned))
      obtain ⟨after, remaining⟩ := others
      exact ⟨after, middle, inserted, remaining⟩
    · rintro ⟨after, middle, inserted, remaining⟩ earlier other found later reached cut returned
      cases earlier with
      | nil =>
        obtain ⟨rfl, rfl⟩ := Prod.mk.inj (List.cons.inj cut).1
        obtain rfl : table = reached := Option.some.inj returned
        exact (insertEnds_iff represents.1.positive key value).mpr ⟨middle, inserted⟩
      | cons head tail =>
        obtain ⟨rfl, cutRest⟩ := List.cons.inj cut
        simp only [List.foldlM_cons, Option.bind_eq_bind, inserted, Option.bind_some] at returned
        exact (inductionHypothesis (insert_represents represents inserted)).mpr ⟨after, remaining⟩
          tail other found later reached cutRest returned

/-- From any initial capacity, every insertion of a sequence, with its rehash, ends within
`Capacity` probes exactly when at most twice as many keys as the table began with are
distinct. So header lines can be stored exactly when at most thirty-two of their names
are distinct.

The loops of a rehash always end, over tables of fewer than 2^31 slots, which its s32 index
counts. Up to the bound the array has an empty slot for every new key; beyond it some insertion
finds all slots taken and its key in none of them. The header lines are shorter than 2^31 bytes,
which the ints of the parser count. -/
theorem insertions_end_iff (capacity : UInt64) (calls : List (CString × V)) :
    ((∀ earlier key value later reached, calls = earlier ++ (key, value) :: later →
      insertAll (init capacity.toNat) earlier = some reached → InsertEnds reached key) ↔
      (calls.map Prod.fst).toFinset.card ≤ 2 * (init capacity.toNat : VHashTable V).capacity) ∧
    ∀ (headers : List HeaderLine) (before rest : Bytes) (separator : UInt8),
      (∃ parsed, VHttpRequest.parseHeaders
        (VHttpRequest.headerViews (before.length + 2) headers)
        (before ++ separator :: VHttpRequest.headerBlock headers rest) (init 0) = some parsed) ↔
        (headers.map HeaderLine.name).toFinset.card ≤ 32 := by
  constructor
  · have filled := init_filled_capacity (V := V) capacity.toNat
    rw [insertAll_ends_iff filled.represents,
      filled.insertAll_returns_iff (init_positive _) (init_length capacity), Finset.empty_union]
    rfl
  · intro headers before rest separator
    obtain ⟨left, stored⟩ := VHttpRequest.parseHeaders_block headers before rest separator (init 0)
    have names : (headers.map HeaderLine.entry).map Prod.fst = headers.map HeaderLine.name := by
      simp [HeaderLine.entry]
    rw [stored, ← names, ← insertAll_returns_iff (headers.map HeaderLine.entry)]
    constructor
    · rintro ⟨_, returned⟩
      obtain ⟨after, inserted, _⟩ := Option.map_eq_some_iff.mp returned
      exact ⟨after, inserted⟩
    · rintro ⟨after, inserted⟩
      exact ⟨_, by rw [inserted]; rfl⟩

/-- From a single slot, the third key finds both slots of the grown array taken. -/
theorem third_key_finds_no_slot :
    ¬ ∀ (capacity : UInt64) (calls earlier : List (CString × Nat)) (key : CString) (value : Nat)
      (later : List (CString × Nat)) (reached : VHashTable Nat),
      calls = earlier ++ (key, value) :: later →
      insertAll (init capacity.toNat) earlier = some reached → InsertEnds reached key := by
  intro always
  have full : insertAll (init 1) [(aKey, 1), (bKey, 2)] =
      some ⟨[⟨some aKey, some 1, 177670⟩, ⟨some bKey, some 2, 177671⟩], 1⟩ := by decide
  have ends := always 1 [(aKey, 1), (bKey, 2), (qKey, 3)] [(aKey, 1), (bKey, 2)] qKey 3 [] _ rfl full
  obtain ⟨after, returned⟩ := (insertEnds_iff (by decide) qKey 3).mp ends
  have endless : insert (⟨[⟨some aKey, some 1, 177670⟩, ⟨some bKey, some 2, 177671⟩], 1⟩ :
      VHashTable Nat) qKey 3 = none := by decide
  simp [endless] at returned

/-- Some slot is empty. -/
def Vacant (items : List (VHashItem V)) : Prop := ∃ index, Stops itemIsEmpty items index

/-- `VHashTable_Get` and `VHashTable_Remove` of a key end, and give NULL when no slot has
the key. -/
structure LookupsEnd (table : VHashTable V) (key : CString) : Prop where
  gets : ∃ found, get table key = some found ∧ (Absent table.items key → found = none)
  removes : ∃ result after, remove table key = some (result, after) ∧
    (Absent table.items key → result = none)

/-- What a call must leave for the lookups behind it: an insertion sees, behind its growth
test, an empty slot besides the one where its probe stops. -/
def LeavesRoom (table : VHashTable V) : Call V → Prop
  | .insert key _ => ∀ grown index, grow table = some grown →
      probe grown.items key = some index → ∃ other, other ≠ index ∧ Stops itemIsEmpty grown.items other
  | .remove _ => True

/-- A probe for a key can stop at the empty slots and at those of the key. -/
theorem stops_key_iff (items : List (VHashItem V)) (key : CString) :
    (∃ index, Stops (stopsAt key) items index) ↔
      Vacant items ∨ ∃ index, Holds items index key := by
  constructor
  · rintro ⟨index, item, read, satisfied⟩
    simp only [stopsAt, Bool.or_eq_true, decide_eq_true_eq] at satisfied
    rcases satisfied with empty | sameKey
    · exact Or.inl ⟨index, item, read, empty⟩
    · exact Or.inr ⟨index, item, read, sameKey⟩
  · rintro (⟨index, item, read, empty⟩ | ⟨index, item, read, sameKey⟩)
    · exact ⟨index, item, read, by simp [stopsAt, empty]⟩
    · exact ⟨index, item, read, by simp [stopsAt, sameKey]⟩

/-- An absent key is never removed. -/
theorem remove_absent {table after : VHashTable V} {key : CString} {result : Option V}
    (absent : Absent table.items key) (returned : remove table key = some (result, after)) :
    result = none := by
  obtain ⟨index, item, stopped, read, outcome⟩ := remove_cases returned
  rcases outcome with ⟨_, missing, _⟩ | ⟨occupied, _, _⟩
  · exact missing
  · obtain ⟨other, again, satisfied⟩ := search_stops stopped
    rw [read, Option.some.injEq] at again
    subst other
    have sameKey : item.key = some key := by simpa [stopsAt, itemIsEmpty, occupied] using satisfied
    exact absurd ⟨item, read, sameKey⟩ (absent index)

/-- Lookups of a key end exactly when some slot is empty or has the key. -/
theorem lookupsEnd_iff {table : VHashTable V} (positive : 0 < table.items.length)
    (key : CString) :
    LookupsEnd table key ↔ Vacant table.items ∨ ∃ index, Holds table.items index key := by
  have inside := home_lt table.items (hash key) positive
  rw [← stops_key_iff, ← meets_iff inside, ← search_returns_iff inside]
  constructor
  · rintro ⟨⟨found, returned, _⟩, _⟩
    simp only [get, Option.bind_eq_bind, Option.bind_eq_some_iff] at returned
    obtain ⟨index, stopped, _⟩ := returned
    exact ⟨index, stopped⟩
  · rintro ⟨index, stopped⟩
    obtain ⟨item, read, _⟩ := search_stops stopped
    have probed : probe table.items key = some index := stopped
    constructor
    · have returned : get table key = some (if itemIsEmpty item then none else item.value) := by
        simp [get, probed, read]
      exact ⟨_, returned, fun absent => get_absent absent returned⟩
    · have returned : (remove table key).isSome = true := by
        cases vacant : itemIsEmpty item <;> simp [remove, probed, read, vacant]
      obtain ⟨⟨result, after⟩, removed⟩ := Option.isSome_iff_exists.mp returned
      exact ⟨result, after, removed, fun absent => remove_absent absent removed⟩

/-- There are more keys than any array has slots. -/
theorem exists_absent (items : List (VHashItem V)) : ∃ key, Absent items key := by
  have many : Infinite CString := by
    apply Infinite.of_injective
      (fun length : Nat => (⟨List.replicate length 1, by simp [List.mem_replicate]⟩ : CString))
    intro first second same
    simpa using congrArg (fun key : CString => key.val.length) same
  obtain ⟨key, fresh⟩ := Infinite.exists_notMem_finset (items.filterMap VHashItem.key).toFinset
  refine ⟨key, ?_⟩
  rintro index ⟨item, read, sameKey⟩
  apply fresh
  rw [List.mem_toFinset, List.mem_filterMap]
  exact ⟨item, List.mem_of_getElem? read, sameKey⟩

/-- Lookups of all keys end exactly when some slot is empty. -/
theorem all_lookupsEnd_iff {table : VHashTable V} (positive : 0 < table.items.length) :
    (∀ key, LookupsEnd table key) ↔ Vacant table.items := by
  constructor
  · intro ends
    obtain ⟨key, absent⟩ := exists_absent table.items
    rcases (lookupsEnd_iff positive key).mp (ends key) with vacant | ⟨index, holds⟩
    · exact vacant
    · exact absurd holds (absent index)
  · intro vacant key
    exact (lookupsEnd_iff positive key).mpr (Or.inl vacant)

/-- Writing a key to a slot leaves an empty slot exactly when there is another one. -/
theorem vacant_set_iff {items : List (VHashItem V)} {index : Nat} {item : VHashItem V}
    (inside : index < items.length) (occupied : item.key ≠ none) :
    Vacant (items.set index item) ↔ ∃ other, other ≠ index ∧ Stops itemIsEmpty items other := by
  constructor
  · rintro ⟨other, entry, read, empty⟩
    by_cases same : other = index
    · subst other
      rw [List.getElem?_set_self inside, Option.some.injEq] at read
      subst read
      exact absurd (by simpa [itemIsEmpty] using empty) occupied
    · rw [List.getElem?_set_ne (Ne.symm same)] at read
      exact ⟨other, same, entry, read, empty⟩
  · rintro ⟨other, apart, entry, read, empty⟩
    exact ⟨other, entry, by rwa [List.getElem?_set_ne (Ne.symm apart)], empty⟩

/-- No call shrinks an array. -/
theorem apply_positive {table after : VHashTable V} {call : Call V}
    (positive : 0 < table.items.length) (taken : apply table call = some after) :
    0 < after.items.length := by
  cases call with
  | insert key value =>
    obtain ⟨grown, _, _, hasGrown, _, _, outcome⟩ := insert_cases taken
    have grownPositive := grow_positive positive hasGrown
    rcases outcome with ⟨_, rfl⟩ | ⟨_, rfl⟩
    · simpa using grownPositive
    · simpa using grownPositive
  | remove key =>
    simp only [apply, Option.map_eq_some_iff, Prod.exists] at taken
    obtain ⟨_, _, removed, rfl⟩ := taken
    obtain ⟨_, _, _, _, outcome⟩ := remove_cases removed
    rcases outcome with ⟨_, _, rfl⟩ | ⟨_, _, rfl⟩
    · exact positive
    · simpa using positive

theorem run_positive {admitted : VHashTable V → Call V → Prop} {capacity : Nat}
    {trace : List (Call V)} {table : VHashTable V}
    (run : Run apply admitted (init capacity) trace table) : 0 < table.items.length :=
  run.invariant (fun reached => 0 < reached.items.length) (init_positive capacity)
    (fun _ _ _ held _ taken => apply_positive held taken)

/-- A call that returns leaves an empty slot exactly when it leaves room. A removal that
finds its key empties its slot. -/
theorem apply_vacant_iff {table after : VHashTable V} {call : Call V}
    (vacant : Vacant table.items) (taken : apply table call = some after) :
    Vacant after.items ↔ LeavesRoom table call := by
  cases call with
  | insert key value =>
    obtain ⟨grown, index, item, hasGrown, stopped, read, outcome⟩ := insert_cases taken
    have inside : index < grown.items.length := (List.getElem?_eq_some_iff.mp read).1
    have room : LeavesRoom table (.insert key value) ↔
        ∃ other, other ≠ index ∧ Stops itemIsEmpty grown.items other := by
      constructor
      · intro leaves
        exact leaves grown index hasGrown stopped
      · intro other again place hasAgain stoppedAgain
        obtain rfl : grown = again := Option.some.inj (hasGrown.symm.trans hasAgain)
        obtain rfl : index = place := Option.some.inj (stopped.symm.trans stoppedAgain)
        exact other
    rw [room]
    rcases outcome with ⟨_, rfl⟩ | ⟨occupied, rfl⟩
    · exact vacant_set_iff inside (by simp)
    · exact vacant_set_iff inside occupied
  | remove key =>
    simp only [apply, Option.map_eq_some_iff, Prod.exists] at taken
    obtain ⟨_, _, removed, rfl⟩ := taken
    obtain ⟨index, item, _, read, outcome⟩ := remove_cases removed
    have inside : index < table.items.length := (List.getElem?_eq_some_iff.mp read).1
    rcases outcome with ⟨_, _, rfl⟩ | ⟨_, _, rfl⟩
    · simp [vacant, LeavesRoom]
    · simp only [LeavesRoom, iff_true]
      exact ⟨index, _, List.getElem?_set_self inside, by simp [itemIsEmpty]⟩

/-- All lookups end all along a run exactly when every insertion leaves room; and in each
state that a run reaches, the lookups of a key end exactly when some slot is empty or has
the key, and otherwise no number of probes is enough. -/
theorem lookups_end_iff {capacity : Nat} {trace : List (Call V)} {table : VHashTable V}
    (run : Run apply anywhere (init capacity) trace table) :
    ((∀ earlier reached, earlier <+: trace → Run apply anywhere (init capacity) earlier reached →
        ∀ key, LookupsEnd reached key) ↔ Run apply LeavesRoom (init capacity) trace table) ∧
      ∀ key, (LookupsEnd table key ↔ Vacant table.items ∨ ∃ index, Holds table.items index key) ∧
        (¬ LookupsEnd table key → ∀ probes,
          search (stopsAt key) table.items probes (home table.items (hash key)) = none) := by
  constructor
  · apply run.always_iff (fun reached => ∀ key, LookupsEnd reached key)
      (fun reached => 0 < reached.items.length ∧ Vacant reached.items)
    · have long := init_positive (V := V) capacity
      refine ⟨long, vacancy _ ?_⟩
      simpa [init, occupancy_replicate] using long
    · rintro reached ⟨long, vacant⟩
      exact (all_lookupsEnd_iff long).mpr vacant
    · rintro before call after ⟨long, vacant⟩ leaves taken
      exact ⟨apply_positive long taken, (apply_vacant_iff vacant taken).mpr leaves⟩
    · rintro before call after ⟨long, vacant⟩ taken ends
      have still := (all_lookupsEnd_iff (apply_positive long taken)).mp ends
      exact (apply_vacant_iff vacant taken).mp still
  · intro key
    have long := run_positive run
    refine ⟨lookupsEnd_iff long key, ?_⟩
    intro endless
    have inside := home_lt table.items (hash key) long
    apply search_endless inside
    rwa [meets_iff inside, stops_key_iff, ← lookupsEnd_iff long]

/-- One slot, taken by "a". -/
def fullTable : VHashTable Nat := ⟨[⟨some aKey, some 1, 177670⟩], 1⟩

theorem fullTable_run : Run apply anywhere (init 1) [.insert aKey 1] fullTable :=
  Run.of_foldlM (by decide)

/-- In a table of one slot that has "a", a lookup of "b" never ends. -/
theorem lookup_finds_no_slot :
    ¬ ∀ (capacity : Nat) (trace : List (Call Nat)) (table : VHashTable Nat),
      Run apply anywhere (init capacity) trace table → ∀ key, LookupsEnd table key := by
  intro always
  obtain ⟨found, returned, _⟩ := (always 1 _ fullTable fullTable_run bKey).gets
  have endless : get fullTable bKey = none := by decide
  simp [endless] at returned

/-- There the lookup of "a" itself ends. -/
theorem lookups_end_iff_full : LookupsEnd fullTable aKey :=
  ((lookups_end_iff fullTable_run).2 aKey).1.mpr (Or.inr ⟨0, _, rfl, rfl⟩)

end VHttp.VHashTable
