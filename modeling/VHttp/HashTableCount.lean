import VHttp.HashTableProbes

/-!
# The count of a table

`VHashTable_Count` reads a field that insertion and removal keep by hand and that a
rehash sets to zero. It is the number of occupied slots up to the first rehash, and not
behind it.
-/

namespace VHttp.VHashTable

open Runs

variable {V : Type}

/-- An insertion finds the count below the capacity, so that it makes no rehash. -/
def Fitting (table : VHashTable V) : Call V → Prop
  | .insert _ _ => table.count < table.capacity
  | .remove _ => True

instance (table : VHashTable V) : (call : Call V) → Decidable (Fitting table call)
  | .insert _ _ => inferInstanceAs (Decidable (table.count < table.capacity))
  | .remove _ => inferInstanceAs (Decidable True)

/-- Writing a key to an empty slot fills one more, over an item it fills none. -/
theorem occupancy_fill {items : List (VHashItem V)} {index : Nat} {old : VHashItem V}
    (item : VHashItem V) (read : items[index]? = some old) (keyed : item.key ≠ none) :
    occupancy (items.set index item) =
      occupancy items + (if old.key = none then 1 else 0) := by
  have counted := occupancy_set items index old item read
  by_cases vacant : old.key = none
  · simpa [itemIsEmpty, vacant, keyed] using counted
  · simpa [itemIsEmpty, vacant, keyed] using counted

/-- Dropping a key empties one slot. -/
theorem occupancy_clear {items : List (VHashItem V)} {index : Nat} {old : VHashItem V}
    (read : items[index]? = some old) (keyed : old.key ≠ none) :
    occupancy (items.set index { old with key := none }) + 1 = occupancy items := by
  have counted := occupancy_set items index old { old with key := none } read
  simpa [itemIsEmpty, keyed] using counted

/-- A rehash keeps every item and forgets the count. -/
theorem rehash_occupancy {table after : VHashTable V} (returned : rehash table = some after) :
    occupancy after.items = occupancy table.items ∧ after.count = 0 := by
  simp only [rehash, Option.bind_eq_bind, Option.bind_eq_some_iff, Option.pure_def,
    Option.some.injEq] at returned
  obtain ⟨items, copied, rfl⟩ := returned
  have moved := (foldlM_place_occupancy _ _ _ copied).2
  rw [occupancy_replicate, Nat.zero_add] at moved
  exact ⟨moved, rfl⟩

/-- While no call rehashes, the array stays as long as it was and its count true. -/
structure Counted (length : Nat) (table : VHashTable V) : Prop where
  size : table.items.length = length
  counted : table.count = occupancy table.items

/-- A call that makes no rehash keeps the count true. -/
theorem Counted.apply {length : Nat} (fits : length < 2 ^ 64) {before after : VHashTable V}
    {call : Call V} (kept : Counted length before) (fitting : Fitting before call)
    (taken : VHashTable.apply before call = some after) : Counted length after := by
  have bound := occupancy_le before.items
  obtain ⟨size, counted⟩ := kept
  cases call with
  | insert key value =>
    obtain ⟨grown, index, item, hasGrown, _, read, outcome⟩ := insert_cases taken
    have same : before = grown := by
      simpa [grow, Nat.not_le.mpr (show before.count < before.capacity from fitting)] using hasGrown
    subst grown
    have room : before.count < before.capacity := fitting
    rcases outcome with ⟨vacant, rfl⟩ | ⟨occupied, rfl⟩
    · refine ⟨by simpa using size, ?_⟩
      rw [occupancy_fill _ read (by simp), if_pos vacant, ← counted]
      apply Nat.mod_eq_of_lt
      rw [capacity] at room
      omega
    · refine ⟨by simpa using size, ?_⟩
      rw [occupancy_fill { item with value := some value } read occupied, if_neg occupied]
      exact counted
  | remove key =>
    simp only [VHashTable.apply, Option.map_eq_some_iff, Prod.exists] at taken
    obtain ⟨_, _, removed, rfl⟩ := taken
    obtain ⟨index, item, _, read, outcome⟩ := remove_cases removed
    rcases outcome with ⟨_, _, rfl⟩ | ⟨occupied, _, rfl⟩
    · exact ⟨size, counted⟩
    · refine ⟨by simpa using size, ?_⟩
      have cleared := occupancy_clear read occupied
      show u64 (before.count + (2 ^ 64 - 1)) =
        occupancy (before.items.set index { item with key := none })
      rw [u64]
      omega

/-- An insertion that makes a rehash leaves a count that is too small. -/
theorem fitting_of_counted {before after : VHashTable V} {call : Call V}
    (positive : 0 < before.items.length) (counted : before.count = occupancy before.items)
    (taken : apply before call = some after) (still : after.count = occupancy after.items) :
    Fitting before call := by
  cases call with
  | remove key => trivial
  | insert key value =>
    by_contra full
    replace full : before.capacity ≤ before.count := Nat.not_lt.mp full
    obtain ⟨grown, index, item, hasGrown, _, read, outcome⟩ := insert_cases taken
    simp only [grow, full, ↓reduceIte] at hasGrown
    obtain ⟨moved, zero⟩ := rehash_occupancy hasGrown
    have some_items : 0 < occupancy grown.items := by
      rw [moved, ← counted]
      exact lt_of_lt_of_le positive full
    rcases outcome with ⟨vacant, rfl⟩ | ⟨occupied, rfl⟩
    · rw [occupancy_fill _ read (by simp), if_pos vacant, zero] at still
      change 1 = occupancy grown.items + 1 at still
      omega
    · rw [occupancy_fill { item with value := some value } read occupied, if_neg occupied,
        zero] at still
      change 0 = occupancy grown.items + 0 at still
      omega

/-- From any initial capacity, the count is the number of occupied slots all along a run
exactly when every insertion finds it below the capacity: the first rehash ends it. -/
theorem count_is_occupancy_iff (capacity : UInt64) {trace : List (Call V)} {table : VHashTable V}
    (run : Run apply anywhere (init capacity.toNat) trace table) :
    (∀ earlier reached, earlier <+: trace → Run apply anywhere (init capacity.toNat) earlier reached →
      reached.count = occupancy reached.items) ↔
      Run apply Fitting (init capacity.toNat) trace table := by
  apply run.always_iff (fun reached => reached.count = occupancy reached.items)
    (Counted (init capacity.toNat : VHashTable V).items.length)
  · exact ⟨rfl, by simp [init, occupancy_replicate]⟩
  · exact fun reached kept => kept.counted
  · intro before call after kept fitting taken
    exact kept.apply (init_length capacity) fitting taken
  · intro before call after kept taken still
    exact fitting_of_counted (kept.size ▸ init_positive _) kept.counted taken still

/-- Two keys from a single slot: the count is one, and two slots are occupied. -/
theorem rehash_loses_count :
    ¬ ∀ (capacity : UInt64) (trace : List (Call Nat)) (table : VHashTable Nat),
      Run apply anywhere (init capacity.toNat) trace table →
      table.count = occupancy table.items := by
  intro always
  have counted := always 1 [.insert aKey 1, .insert bKey 2]
    ⟨[⟨some aKey, some 1, 177670⟩, ⟨some bKey, some 2, 177671⟩], 1⟩ (Run.of_foldlM (by decide))
  exact absurd counted (by decide)

/-- With two slots from the start both keys are counted. -/
theorem count_is_occupancy_separate : separateTable.count = occupancy separateTable.items := by
  have run : Run apply Fitting (init 2) ([] ++ [Call.insert aKey 1] ++ [.insert bKey 2])
      separateTable :=
    Run.next (Run.next Run.start (by decide) rfl) (by decide) (by decide)
  have free : Run apply anywhere (init (2 : UInt64).toNat) _ separateTable :=
    run.weaken (fun _ _ _ => trivial)
  exact (count_is_occupancy_iff 2 free).mpr run _ _ List.prefix_rfl free

end VHttp.VHashTable
