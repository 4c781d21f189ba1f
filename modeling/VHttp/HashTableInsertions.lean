import VHttp.HashTableSoundness

/-!
# Tables filled by insertions

Starting from an empty table of any capacity, a sequence of insertions that all
return leaves a table that represents the last value of every inserted key. The
growth test may rehash in between, and a key may come back any number of times.
-/

namespace VHttp.VHashTable

open Circular Probing

variable {V : Type}

/-- The table after a sequence of insertions, when every one of them returns. -/
def insertAll (table : VHashTable V) (calls : List (CString × V)) : Option (VHashTable V) :=
  calls.foldlM (fun current call => insert current call.1 call.2) table

/-- The function that a sequence of assignments leaves, later ones winning. -/
def assign (meaning : CString → Option V) (calls : List (CString × V)) : CString → Option V :=
  calls.foldl (fun current call => Function.update current call.1 (some call.2)) meaning

theorem assign_append (meaning : CString → Option V) (first second : List (CString × V)) :
    assign meaning (first ++ second) = assign (assign meaning first) second := by
  simp [assign]

/-- A key that is not assigned keeps its meaning. -/
theorem assign_absent (meaning : CString → Option V) (calls : List (CString × V)) (key : CString)
    (absent : key ∉ calls.map Prod.fst) : assign meaning calls key = meaning key := by
  induction calls generalizing meaning with
  | nil => rfl
  | cons call rest inductionHypothesis =>
    simp only [List.map_cons, List.mem_cons, not_or] at absent
    have tail := inductionHypothesis (Function.update meaning call.1 (some call.2)) absent.2
    rw [Function.update_of_ne absent.1] at tail
    exact tail

/-- The last assignment to a key decides its meaning. -/
theorem assign_last (meaning : CString → Option V) (before later : List (CString × V))
    (key : CString) (value : V) (last : key ∉ later.map Prod.fst) :
    assign meaning (before ++ (key, value) :: later) key = some value := by
  rw [assign_append]
  change assign (Function.update (assign meaning before) key (some value)) later key = some value
  rw [assign_absent _ _ _ last, Function.update_self]

/-- Insertions act on the represented function as assignments. -/
theorem insertAll_represents {table after : VHashTable V} {meaning : CString → Option V}
    (calls : List (CString × V)) (represents : Represents table.items meaning)
    (returned : insertAll table calls = some after) :
    Represents after.items (assign meaning calls) := by
  induction calls generalizing table meaning with
  | nil =>
    have same : table = after := Option.some.inj returned
    exact same ▸ represents
  | cons call rest inductionHypothesis =>
    simp only [insertAll, List.foldlM_cons, Option.bind_eq_bind,
      Option.bind_eq_some_iff] at returned
    obtain ⟨middle, inserted, remaining⟩ := returned
    exact inductionHypothesis (insert_represents represents inserted) remaining

/-- A new table represents nothing. -/
theorem init_represents (capacity : Nat) :
    Represents (init capacity : VHashTable V).items (fun _ => none) := by
  have positive := init_positive (V := V) capacity
  rw [capacity_init] at positive
  exact replicate_represents _ positive

/-- Every initial capacity, every sequence of insertions that return: a get gives
the value of the key's last insertion, a get of any other key that returns gives
NULL, keys are stored once and under their own hash, and each item can be reached
from its home slot over occupied slots only.

The table represents the assignments made by the sequence, so the first two parts
are reads of that function and the rest is soundness. The steps to an item are
its distance from home. The s32 index of a rehash reaches fewer than 2^31 slots. -/
theorem insertions_exact (capacity : Nat) (calls : List (CString × V)) (table : VHashTable V)
    (returned : insertAll (init capacity) calls = some table) :
    (∀ before key value later, calls = before ++ (key, value) :: later →
      key ∉ later.map Prod.fst → get table key = some (some value)) ∧
    (∀ key result, key ∉ calls.map Prod.fst → get table key = some result → result = none) ∧
    (∀ index other key, Holds table.items index key → Holds table.items other key →
      index = other) ∧
    (∀ (index : Nat) (item : VHashItem V) key, table.items[index]? = some item →
      item.key = some key → item.hash = hash key) ∧
    (∀ (index : Nat) (item : VHashItem V), table.items[index]? = some item → item.key ≠ none →
      ∃ steps, index = slot table.capacity (item.hash.toNat % table.capacity) steps ∧
        ∀ nearer, nearer < steps →
          Occupied table.items (slot table.capacity (item.hash.toNat % table.capacity) nearer)) := by
  have represents := insertAll_represents calls (init_represents capacity) returned
  have sound := represents.1
  refine ⟨?_, ?_, sound.unique, sound.hashed, ?_⟩
  · rintro before key value later rfl last
    exact get_present represents (assign_last _ before later key value last)
  · intro key result absent found
    rw [get_exact represents found, assign_absent _ _ _ absent]
  · intro index item read occupied
    obtain ⟨key, sameKey⟩ := Option.ne_none_iff_exists'.mp occupied
    have inside : index < table.items.length := (List.getElem?_eq_some_iff.mp read).1
    rw [sound.hashed index item key read sameKey]
    refine ⟨distance table.items.length (home table.items (hash key)) index, ?_, ?_⟩
    · exact (slot_distance _ _ _ (home_lt _ _ sound.positive) inside).symm
    · exact sound.chained index key ⟨item, read, sameKey⟩

/-- The key "a". -/
def aKey : CString := ⟨[97], by decide⟩

/-- The key "b", with another home than "a" at every even capacity. -/
def bKey : CString := ⟨[98], by decide⟩

/-- The key "q", with the home of "a" at sixteen slots. -/
def qKey : CString := ⟨[113], by decide⟩

/-- Two keys, the first of them twice. -/
def repeatedCalls : List (CString × Nat) :=
  [(aKey, 1), (bKey, 2), (aKey, 3)]

/-- From a single slot, the second key makes the table grow, and the repeated key
then finds its slot in the new array. -/
theorem insertions_exact_after_growth :
    ∃ table, insertAll (init 1) repeatedCalls = some table ∧ table.capacity = 2 ∧
      get table aKey = some (some 3) ∧ get table bKey = some (some 2) := by
  have returns : (insertAll (init 1) repeatedCalls).isSome = true := by decide
  obtain ⟨table, returned⟩ := Option.isSome_iff_exists.mp returns
  have gets := (insertions_exact 1 repeatedCalls table returned).1
  have grown : (insertAll (init 1) repeatedCalls).map capacity = some 2 := by decide
  rw [returned, Option.map_some, Option.some.injEq] at grown
  refine ⟨table, returned, grown, ?_, ?_⟩
  · exact gets (repeatedCalls.take 2) _ 3 [] rfl (by simp)
  · exact gets (repeatedCalls.take 1) _ 2 (repeatedCalls.drop 2) rfl (by decide)

end VHttp.VHashTable
