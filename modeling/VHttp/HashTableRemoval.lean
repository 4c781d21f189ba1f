import VHttp.Foundations.Runs
import VHttp.HashTableInsertions
import VHttp.HashTableTermination

/-!
# Removal from an open-addressing table

`VHashTable_Remove` empties the slot of its key and moves nothing. An item whose
probe path, from its home to its own slot, runs through that slot can no longer
be reached: a get does not find it and an insert adds it a second time. When no
item's path runs through the emptied slot, removal keeps the array sound and
clears exactly its own key in the represented function.

What a caller expects of removal is stated once, for any condition on the calls:
with the condition that admits everything it fails, and with unobstructed
removals it holds in every state of every run.
-/

namespace VHttp.VHashTable

open Circular Probing Runs

variable {V : Type}

/-- The key a call names. -/
def Call.key : Call V → CString
  | .insert key _ => key
  | .remove key => key

/-- The value each key last received and has not lost since, read off the calls. -/
def latest (trace : List (Call V)) : CString → Option V :=
  trace.foldl (fun meaning call => match call with
    | .insert key value => Function.update meaning key (some value)
    | .remove key => Function.update meaning key none) (fun _ => none)

/-- The probe path of the key at `other`, from its home slot to its own, runs
through the slot at `index`. -/
def RunsThrough (items : List (VHashItem V)) (other index : Nat) : Prop :=
  ∃ key, Holds items other key ∧
    distance items.length (home items (hash key)) index <
      distance items.length (home items (hash key)) other

/-- A removal is unobstructed when no other item's probe path runs through the
slot it empties. Insertions are not restricted. -/
def Unobstructed (table : VHashTable V) : Call V → Prop
  | .insert _ _ => True
  | .remove key => ∀ index, Holds table.items index key →
      ∀ other, ¬ RunsThrough table.items other index

/-- What is expected of a table reached by a sequence of calls. Removing a stored
key is expected to return its value, to leave what every other key gets as it
was, and to keep the key absent until its next insertion; inserting a stored key
is expected to replace its entry. The removal is one that `admitted` allows. -/
structure RemovalContract (admitted : VHashTable V → Call V → Prop) (trace : List (Call V))
    (table : VHashTable V) : Prop where
  returns : ∀ key value, Stored table.items key value → admitted table (.remove key) →
    latest trace key = some value ∧ ∃ after, remove table key = some (some value, after)
  others : ∀ key value after, Stored table.items key value → admitted table (.remove key) →
    remove table key = some (some value, after) →
    ∀ other found, other ≠ key → get table other = some found → get after other = some found
  absent : ∀ key value after, Stored table.items key value → admitted table (.remove key) →
    remove table key = some (some value, after) →
    ∀ later final, Run apply (fun _ call => call.key ≠ key) after later final →
      Absent final.items key ∧ ∀ found, get final key = some found → found = none
  replaces : ∀ key old value, Stored table.items key old →
    ∃ after, insert table key value = some after ∧
      (∀ index other, Holds after.items index key → Holds after.items other key → index = other) ∧
      ∀ found, Stored after.items key found ↔ found = value

theorem latest_append (trace : List (Call V)) (call : Call V) :
    latest (trace ++ [call]) = match call with
      | .insert key value => Function.update (latest trace) key (some value)
      | .remove key => Function.update (latest trace) key none := by
  simp [latest]

/-- Emptying a slot that no path runs through keeps every chain. -/
theorem Sound.clear {items : List (VHashItem V)} (sound : Sound items) {index : Nat}
    {item : VHashItem V} (read : items[index]? = some item)
    (clear : ∀ other, ¬ RunsThrough items other index) :
    Sound (items.set index { item with key := none }) := by
  have inside : index < items.length := (List.getElem?_eq_some_iff.mp read).1
  have holdsBefore : ∀ tested key, Holds (items.set index { item with key := none }) tested key →
      tested ≠ index ∧ Holds items tested key := by
    intro tested key holds
    simpa [holds_set _ _ _ _ _ inside] using holds
  refine ⟨by simpa using sound.positive, ?_, ?_, ?_, ?_⟩
  · intro tested other key again sameKey
    obtain ⟨apart, _⟩ := holdsBefore tested key ⟨other, again, sameKey⟩
    rw [List.getElem?_set_ne (Ne.symm apart)] at again
    exact sound.hashed tested other key again sameKey
  · intro tested other again occupied
    obtain ⟨key, sameKey⟩ := Option.ne_none_iff_exists'.mp occupied
    obtain ⟨apart, _⟩ := holdsBefore tested key ⟨other, again, sameKey⟩
    rw [List.getElem?_set_ne (Ne.symm apart)] at again
    exact sound.filled tested other again occupied
  · intro first second key holdsFirst holdsSecond
    exact sound.unique first second key (holdsBefore _ _ holdsFirst).2 (holdsBefore _ _ holdsSecond).2
  · intro tested key holds nearer closer
    simp only [home, List.length_set] at closer ⊢
    obtain ⟨_, old⟩ := holdsBefore tested key holds
    have homeInside := home_lt items (hash key) sound.positive
    have turn : nearer < items.length := lt_trans closer (distance_lt _ _ _ sound.positive)
    refine (occupied_set _ _ _ _ inside).mpr (Or.inr ⟨?_, sound.chained tested key old nearer closer⟩)
    -- A path slot equal to the emptied one would make this path run through it.
    intro same
    apply clear tested
    refine ⟨key, old, ?_⟩
    rw [← same]
    change distance items.length (home items (hash key))
      (slot items.length (home items (hash key)) nearer) < _
    rw [distance_slot _ _ _ homeInside turn]
    exact closer

/-- `VHashTable_Remove` of a stored key, unobstructed: it returns the key's value
and clears the represented function there. -/
theorem remove_represents {table after : VHashTable V} {meaning : CString → Option V}
    {key : CString} {result : Option V} (represents : Represents table.items meaning)
    (clear : Unobstructed table (.remove key))
    (returned : remove table key = some (result, after)) :
    result = meaning key ∧ Represents after.items (Function.update meaning key none) := by
  obtain ⟨sound, contents⟩ := represents
  obtain ⟨index, item, stopped, read, outcome⟩ := remove_cases returned
  have inside : index < table.items.length := (List.getElem?_eq_some_iff.mp read).1
  rcases outcome with ⟨vacantKey, rfl, rfl⟩ | ⟨occupiedKey, rfl, rfl⟩
  · have unset := Represents.unset ⟨sound, contents⟩ (sound.probe_vacant stopped read vacantKey).2
    have unchanged : Function.update meaning key none = meaning := by
      rw [← unset, Function.update_eq_self]
    exact ⟨unset.symm, by rw [unchanged]; exact ⟨sound, contents⟩⟩
  · have sameKey := sound.probe_occupied stopped read occupiedKey
    have holds : Holds table.items index key := ⟨item, read, sameKey⟩
    obtain ⟨value, valued⟩ := Option.ne_none_iff_exists'.mp
      (sound.filled index item read occupiedKey)
    have present : meaning key = some value :=
      (contents key value).mp ⟨index, item, read, sameKey, valued⟩
    refine ⟨valued.trans present.symm, sound.clear read (clear index holds), ?_⟩
    intro tested found
    by_cases same : tested = key
    · subst tested
      rw [stored_set _ _ _ _ _ inside]
      simp only [reduceCtorEq, false_and, false_or, Function.update_self, iff_false, not_exists]
      rintro other entry ⟨apart, again, otherKey, _⟩
      exact apart (sound.unique other index key ⟨entry, again, otherKey⟩ holds)
    · have apart : item.key ≠ some tested := by simpa [sameKey] using Ne.symm same
      have others : Stored (table.items.set index { item with key := none }) tested found ↔
          Stored table.items tested found := stored_set_other read apart (by simp) found
      rw [others, contents, Function.update_of_ne same]

/-- `VHashTable_Remove` of a stored key always returns. -/
theorem remove_present {table : VHashTable V} (sound : Sound table.items) {key : CString}
    {value : V} (stored : Stored table.items key value) :
    ∃ after, remove table key = some (some value, after) := by
  obtain ⟨index, item, read, sameKey, valued⟩ := stored
  have stopped := sound.probe_held ⟨item, read, sameKey⟩
  simp [remove, stopped, read, itemIsEmpty, sameKey, valued]

/-- Copying items never makes a key appear. -/
theorem foldlM_place_absent (pending items after : List (VHashItem V)) (key : CString)
    (absent : Absent items key) (others : ∀ item ∈ pending, item.key ≠ some key)
    (copied : pending.foldlM place items = some after) : Absent after key := by
  induction pending generalizing items with
  | nil =>
    have same : items = after := Option.some.inj copied
    exact same ▸ absent
  | cons item rest inductionHypothesis =>
    simp only [List.foldlM_cons, place, Option.bind_eq_bind, Option.bind_eq_some_iff,
      Option.pure_def, Option.some.injEq] at copied
    obtain ⟨_, ⟨index, stopped, rfl⟩, remaining⟩ := copied
    obtain ⟨old, read, _⟩ := search_stops stopped
    have inside : index < items.length := (List.getElem?_eq_some_iff.mp read).1
    refine inductionHypothesis (items.set index item) ?_
      (fun other member => others other (List.mem_cons_of_mem _ member)) remaining
    intro tested holds
    rcases (holds_set _ _ _ _ _ inside).mp holds with ⟨_, sameKey⟩ | ⟨_, older⟩
    · exact others item List.mem_cons_self sameKey
    · exact absent tested older

/-- The growth test never makes a key appear, whatever state the table is in. -/
theorem grow_absent {table after : VHashTable V} {key : CString} (absent : Absent table.items key)
    (returned : grow table = some after) : Absent after.items key := by
  rcases grow_cases returned with ⟨_, _, copied⟩ | ⟨_, rfl⟩
  · refine foldlM_place_absent table.items _ _ key ?_ ?_ copied
    · rintro index ⟨item, read, sameKey⟩
      rw [List.getElem?_replicate] at read
      split at read
      · rw [← Option.some.inj read] at sameKey
        simp [VHashItem.empty] at sameKey
      · simp at read
    · intro item member sameKey
      obtain ⟨index, read⟩ := List.mem_iff_getElem?.mp member
      exact absent index ⟨item, read, sameKey⟩
  · exact absent

/-- No call on another key makes a key appear, whatever state the table is in. -/
theorem apply_absent {table after : VHashTable V} {key : CString} {call : Call V}
    (absent : Absent table.items key) (other : call.key ≠ key)
    (returned : apply table call = some after) : Absent after.items key := by
  cases call with
  | insert named value =>
    obtain ⟨grown, index, item, hasGrown, _, read, outcome⟩ := insert_cases returned
    have grownAbsent := grow_absent absent hasGrown
    have inside : index < grown.items.length := (List.getElem?_eq_some_iff.mp read).1
    rcases outcome with ⟨_, rfl⟩ | ⟨_, rfl⟩ <;> intro tested holds <;>
      rcases (holds_set _ _ _ _ _ inside).mp holds with ⟨_, sameKey⟩ | ⟨_, older⟩
    · exact other (Option.some.inj sameKey)
    · exact grownAbsent tested older
    · exact grownAbsent index ⟨item, read, sameKey⟩
    · exact grownAbsent tested older
  | remove named =>
    simp only [apply, Option.map_eq_some_iff, Prod.exists] at returned
    obtain ⟨result, _, removed, rfl⟩ := returned
    obtain ⟨index, item, _, read, outcome⟩ := remove_cases removed
    have inside : index < table.items.length := (List.getElem?_eq_some_iff.mp read).1
    rcases outcome with ⟨_, _, rfl⟩ | ⟨_, _, rfl⟩
    · exact absent
    · intro tested holds
      rcases (holds_set _ _ _ _ _ inside).mp holds with ⟨_, sameKey⟩ | ⟨_, older⟩
      · simp at sameKey
      · exact absent tested older

/-- An absent key is never found. -/
theorem get_absent {table : VHashTable V} {key : CString} {found : Option V}
    (absent : Absent table.items key) (returned : get table key = some found) : found = none := by
  simp only [get, Option.bind_eq_bind, Option.bind_eq_some_iff, Option.pure_def,
    Option.some.injEq] at returned
  obtain ⟨index, stopped, item, read, rfl⟩ := returned
  obtain ⟨stop, again, satisfied⟩ := search_stops stopped
  rw [read, Option.some.injEq] at again
  subst stop
  simp only [stopsAt, Bool.or_eq_true, decide_eq_true_eq] at satisfied
  rcases satisfied with empty | sameKey
  · simp [empty]
  · exact absurd ⟨item, read, sameKey⟩ (absent index)

/-- Along a run of unobstructed calls the table represents what the calls say. -/
theorem run_represents {capacity : Nat} {trace : List (Call V)} {table : VHashTable V}
    (run : Run apply Unobstructed (init capacity) trace table) :
    Represents table.items (latest trace) := by
  apply run.induct (fun calls reached => Represents reached.items (latest calls))
  · exact init_represents capacity
  · intro calls before call after _ represents allowed taken
    rw [latest_append]
    cases call with
    | insert key value => exact insert_represents represents taken
    | remove key =>
      simp only [apply, Option.map_eq_some_iff, Prod.exists] at taken
      obtain ⟨result, _, removed, rfl⟩ := taken
      exact (remove_represents represents allowed removed).2

/-- An obstructed removal does harm: in a sound array, a key whose path ran through
the emptied slot is no longer found. The probe stops at that slot, since every
slot before it is occupied by another key. -/
theorem obstructed_removal_hides {table after : VHashTable V} {meaning : CString → Option V}
    {key other : CString} {result : Option V} {index place : Nat}
    (represents : Represents table.items meaning) (holds : Holds table.items index key)
    (held : Holds table.items place other)
    (through : distance table.items.length (home table.items (hash other)) index <
      distance table.items.length (home table.items (hash other)) place)
    (removed : remove table key = some (result, after)) : get after other = some none := by
  have sound := represents.1
  obtain ⟨found, item, stopped, read, outcome⟩ := remove_cases removed
  have here : index = found := Option.some.inj ((sound.probe_held holds).symm.trans stopped)
  subst found
  have inside := holds.occupied.lt
  have homeInside := home_lt table.items (hash other) sound.positive
  rcases outcome with ⟨vacantKey, _⟩ | ⟨_, _, rfl⟩
  · obtain ⟨same, again, sameKey⟩ := holds
    rw [read, Option.some.injEq] at again
    rw [← again, vacantKey] at sameKey
    simp at sameKey
  · have emptied : (table.items.set index { item with key := none })[index]? =
        some { item with key := none } := List.getElem?_set_self inside
    have probed : probe (table.items.set index { item with key := none }) other = some index := by
      apply search_of_chained
      · simpa [home] using homeInside
      · exact ⟨_, emptied, by simp [stopsAt, itemIsEmpty]⟩
      · intro nearer closer
        simp only [home, List.length_set] at closer ⊢
        change nearer < distance table.items.length (home table.items (hash other)) index at closer
        change ¬ Stops (stopsAt other) _
          (slot table.items.length (home table.items (hash other)) nearer)
        have turn : nearer < table.items.length := lt_trans closer (distance_lt _ _ _ sound.positive)
        have nearInside := slot_lt table.items.length (home table.items (hash other)) nearer
          sound.positive
        have apart : slot table.items.length (home table.items (hash other)) nearer ≠ index := by
          intro same
          rw [← same, distance_slot _ _ _ homeInside turn] at closer
          exact lt_irrefl _ closer
        have away : slot table.items.length (home table.items (hash other)) nearer ≠ place := by
          intro same
          rw [← same, distance_slot _ _ _ homeInside turn] at through
          exact lt_asymm closer through
        rw [not_stops_iff _ _ _ (by simpa using nearInside), occupied_set _ _ _ _ inside,
          holds_set _ _ _ _ _ inside]
        refine ⟨Or.inr ⟨apart, sound.chained place other held nearer (lt_trans closer through)⟩, ?_⟩
        rintro (⟨same, _⟩ | ⟨_, again⟩)
        · exact apart same
        · exact away (sound.unique _ _ other again held)
    simp [get, probed, emptied, itemIsEmpty]

/-- Every table reached by unobstructed calls, from any capacity, meets the
contract for unobstructed removals; and a removal that leaves every other key's
get as it was is unobstructed.

The table represents the latest values. An unobstructed removal clears that
function at its key, so the other keys get what they got; the emptied key is
absent, and no call on another key brings it back, obstructed or not. -/
theorem removal_contract {capacity : Nat} {trace : List (Call V)} {table : VHashTable V}
    (run : Run apply Unobstructed (init capacity) trace table) :
    RemovalContract Unobstructed trace table ∧
      ∀ key result after, remove table key = some (result, after) →
        (∀ other found, other ≠ key → get table other = some found →
          get after other = some found) → Unobstructed table (.remove key) := by
  have represents := run_represents run
  have cleared : ∀ key value after, Unobstructed table (.remove key) →
      remove table key = some (some value, after) →
      Represents after.items (Function.update (latest trace) key none) :=
    fun key value after clear removed => (remove_represents represents clear removed).2
  refine ⟨⟨?_, ?_, ?_, ?_⟩, ?_⟩
  · intro key value stored _
    exact ⟨(represents.2 key value).mp stored, remove_present represents.1 stored⟩
  · intro key value after _ clear removed other found apart before
    have afterwards := cleared key value after clear removed
    have same : found = latest trace other := get_exact represents before
    cases present : latest trace other with
    | some kept =>
      rw [same, present]
      exact get_present afterwards (by rw [Function.update_of_ne apart, present])
    | none =>
      -- The removal has left an empty slot, so a probe for an absent key ends.
      obtain ⟨index, item, _, read, outcome⟩ := remove_cases removed
      have vacant : ∃ empty, Stops (stopsAt other) after.items empty := by
        rcases outcome with ⟨_, missing, _⟩ | ⟨_, _, rfl⟩
        · simp at missing
        · have inside : index < table.items.length := (List.getElem?_eq_some_iff.mp read).1
          exact ⟨index, _, List.getElem?_set_self inside, by simp [stopsAt, itemIsEmpty]⟩
      obtain ⟨empty, stops⟩ := vacant
      obtain ⟨found', stopped⟩ := search_total (stopsAt other) after.items
        (home after.items (hash other)) empty (home_lt _ _ afterwards.1.positive) stops
      obtain ⟨rest, again, _⟩ := search_stops stopped
      have returns : get after other =
          some (if itemIsEmpty rest then none else rest.value) := by
        have probed : probe after.items other = some found' := stopped
        simp [get, probed, again]
      have unset := get_exact afterwards returns
      rw [Function.update_of_ne apart, present] at unset
      rw [returns, unset, same, present]
  · intro key value after _ clear removed later final continued
    have afterwards := cleared key value after clear removed
    have gone : Absent after.items key := by
      intro index holds
      obtain ⟨kept, stored⟩ := afterwards.1.stored_of_holds holds
      simp [afterwards.2] at stored
    have absent : Absent final.items key :=
      continued.invariant (fun reached => Absent reached.items key) gone
        (fun _ _ _ missing other taken => apply_absent missing other taken)
    exact ⟨absent, fun found returned => get_absent absent returned⟩
  · intro key old value stored
    obtain ⟨after, inserted⟩ := insert_present value represents ((represents.2 key old).mp stored)
    have afterwards := insert_represents represents inserted
    refine ⟨after, inserted, fun index other => afterwards.1.unique index other key, ?_⟩
    intro found
    rw [afterwards.2, Function.update_self, Option.some.injEq, eq_comm]
  · rintro key result after removed kept index holds place ⟨other, held, through⟩
    have different : other ≠ key := by
      rintro rfl
      rw [represents.1.unique index place other holds held] at through
      exact lt_irrefl _ through
    obtain ⟨value, stored⟩ := represents.1.stored_of_holds held
    have before := get_present represents ((represents.2 other value).mp stored)
    have hidden := obstructed_removal_hides represents holds held through removed
    rw [kept other (some value) different before] at hidden
    simp at hidden

/-- Two keys with one home: "a" takes the slot and "q" the next one. -/
def collidingCalls : List (Call Nat) := [.insert aKey 1, .insert qKey 2]

/-- Removing the first of two colliding keys hides the second: its get, which
returned 2, then returns NULL. -/
theorem removal_hides_colliding_key :
    ¬ ∀ (trace : List (Call Nat)) (table : VHashTable Nat),
      Run apply anywhere (init 0) trace table → RemovalContract anywhere trace table := by
  intro contract
  obtain ⟨table, run, slots, before, removes, hidden⟩ := Run.reaches (fun table =>
      table.items[6]? = some ⟨some aKey, some 1, 177670⟩ ∧ get table qKey = some (some 2) ∧
        (remove table aKey).map Prod.fst = some (some 1) ∧
        (remove table aKey).bind (fun result => get result.2 qKey) = some none)
    (by decide : (collidingCalls.foldlM apply (init 0)).any _ = true)
  obtain ⟨⟨result, after⟩, removed, rfl⟩ := Option.map_eq_some_iff.mp removes
  rw [removed, Option.bind_some] at hidden
  have stored : Stored table.items aKey 1 := ⟨6, _, slots, rfl, rfl⟩
  have kept := (contract collidingCalls table run).others _ 1 after stored
    trivial removed qKey (some 2) (by decide) before
  rw [hidden] at kept
  simp at kept

/-- Two slots, and two keys at their own homes. -/
def separateTable : VHashTable Nat :=
  ⟨[⟨some aKey, some 1, 177670⟩, ⟨some bKey, some 2, 177671⟩], 2⟩

/-- Keys at their own homes obstruct nothing: after both are inserted and the
first removed, the second is still found. -/
theorem removal_contract_separate :
    ∃ after, Run apply Unobstructed (init 2) [.insert aKey 1,
        .insert bKey 2] separateTable ∧
      remove separateTable aKey = some (some 1, after) ∧
      get after bKey = some (some 2) := by
  have first : Run apply Unobstructed (init 2) ([] ++ [.insert aKey 1])
      (⟨[⟨some aKey, some 1, 177670⟩, VHashItem.empty], 1⟩ : VHashTable Nat) :=
    Run.next Run.start trivial (by decide)
  have run : Run apply Unobstructed (init 2) ([] ++ [.insert aKey 1] ++
      [.insert bKey 2]) separateTable :=
    Run.next first trivial (by decide)
  have clear : Unobstructed separateTable (.remove aKey) := by
    rintro index _ other ⟨key, ⟨item, read, sameKey⟩, closer⟩
    have inside : other < 2 := (List.getElem?_eq_some_iff.mp read).1
    have atHome : distance 2 (home separateTable.items (hash key)) other = 0 := by
      rcases (by omega : other = 0 ∨ other = 1) with rfl | rfl
      · obtain rfl := Option.some.inj read
        obtain rfl : aKey = key := Option.some.inj sameKey
        decide
      · obtain rfl := Option.some.inj read
        obtain rfl : bKey = key := Option.some.inj sameKey
        decide
    exact absurd (lt_of_lt_of_eq closer atHome) (Nat.not_lt_zero _)
  have stored : Stored separateTable.items aKey 1 := ⟨0, _, rfl, rfl, rfl⟩
  have contract := (removal_contract run).1
  obtain ⟨_, after, removed⟩ := contract.returns _ 1 stored clear
  refine ⟨after, run, removed, ?_⟩
  exact contract.others _ 1 after stored clear removed _ (some 2) (by decide) (by decide)

end VHttp.VHashTable
