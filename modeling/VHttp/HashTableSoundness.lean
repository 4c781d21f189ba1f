import VHttp.VHashTable

/-!
# The probing invariant and the finite map a table represents

In a sound item array every key sits in one slot, under its own hash, chained to
the home of that hash by occupied slots. A probe for a key then stops at the
key's slot if it has one, and can only stop at an empty slot if it has none.

The abstract view of a table is a partial function from keys to values. Filling
the empty slot at which a probe stopped, replacing a value, and copying all items
into a larger array keep soundness and act on the represented function as
function update and as the identity. No step of the growth loop can fail to end:
the new array has more slots than there are items to place.
-/

namespace VHttp.VHashTable

open Circular Probing

variable {V : Type}

/-- The array invariant of a table changed only by insertions. -/
structure Sound (items : List (VHashItem V)) : Prop where
  positive : 0 < items.length
  hashed : ∀ (index : Nat) (item : VHashItem V) key, items[index]? = some item →
    item.key = some key → item.hash = hash key
  filled : ∀ (index : Nat) (item : VHashItem V), items[index]? = some item →
    item.key ≠ none → item.value ≠ none
  unique : ∀ index other key, Holds items index key → Holds items other key → index = other
  chained : ∀ index key, Holds items index key →
    Chained (Occupied items) items.length (home items (hash key)) index

/-- No slot has this key. -/
def Absent (items : List (VHashItem V)) (key : CString) : Prop := ∀ index, ¬ Holds items index key

/-- A sound array stores exactly the graph of a partial function. -/
def Represents (items : List (VHashItem V)) (meaning : CString → Option V) : Prop :=
  Sound items ∧ ∀ key value, Stored items key value ↔ meaning key = some value

theorem occupied_set (items : List (VHashItem V)) (index tested : Nat) (item : VHashItem V)
    (inside : index < items.length) :
    Occupied (items.set index item) tested ↔
      (tested = index ∧ item.key ≠ none) ∨ (tested ≠ index ∧ Occupied items tested) := by
  by_cases same : tested = index
  · subst tested
    simp [Occupied, List.getElem?_set_self inside]
  · have apart : index ≠ tested := fun equal => same equal.symm
    simp [Occupied, List.getElem?_set_ne apart, same]

theorem holds_set (items : List (VHashItem V)) (index tested : Nat) (item : VHashItem V)
    (key : CString) (inside : index < items.length) :
    Holds (items.set index item) tested key ↔
      (tested = index ∧ item.key = some key) ∨ (tested ≠ index ∧ Holds items tested key) := by
  by_cases same : tested = index
  · subst tested
    simp [Holds, List.getElem?_set_self inside]
  · have apart : index ≠ tested := fun equal => same equal.symm
    simp [Holds, List.getElem?_set_ne apart, same]

theorem stored_set (items : List (VHashItem V)) (index : Nat) (item : VHashItem V)
    (key : CString) (value : V) (inside : index < items.length) :
    Stored (items.set index item) key value ↔
      (item.key = some key ∧ item.value = some value) ∨
        ∃ (tested : Nat) (other : VHashItem V), tested ≠ index ∧ items[tested]? = some other ∧
          other.key = some key ∧ other.value = some value := by
  constructor
  · rintro ⟨tested, other, read, sameKey, sameValue⟩
    by_cases same : tested = index
    · subst tested
      rw [List.getElem?_set_self inside, Option.some.injEq] at read
      subst read
      exact Or.inl ⟨sameKey, sameValue⟩
    · rw [List.getElem?_set_ne (fun equal => same equal.symm)] at read
      exact Or.inr ⟨tested, other, same, read, sameKey, sameValue⟩
  · rintro (⟨sameKey, sameValue⟩ | ⟨tested, other, apart, read, sameKey, sameValue⟩)
    · exact ⟨index, item, List.getElem?_set_self inside, sameKey, sameValue⟩
    · exact ⟨tested, other, by rwa [List.getElem?_set_ne (Ne.symm apart)], sameKey, sameValue⟩

theorem Stored.holds {items : List (VHashItem V)} {key : CString} {value : V}
    (stored : Stored items key value) : ∃ index, Holds items index key := by
  obtain ⟨index, item, read, sameKey, _⟩ := stored
  exact ⟨index, item, read, sameKey⟩

/-- In a sound array a held key has a value. -/
theorem Sound.stored_of_holds {items : List (VHashItem V)} (sound : Sound items) {index : Nat}
    {key : CString} (holds : Holds items index key) : ∃ value, Stored items key value := by
  obtain ⟨item, read, sameKey⟩ := holds
  obtain ⟨value, present⟩ := Option.ne_none_iff_exists'.mp
    (sound.filled index item read (by simp [sameKey]))
  exact ⟨value, index, item, read, sameKey, present⟩

/-- A freshly allocated array is sound and represents the empty function. -/
theorem replicate_represents (length : Nat) (positive : 0 < length) :
    Represents (List.replicate length (VHashItem.empty (V := V))) (fun _ => none) := by
  have vacant : ∀ index key, ¬ Holds (List.replicate length (VHashItem.empty (V := V))) index key := by
    rintro index key ⟨item, read, sameKey⟩
    rw [List.getElem?_replicate] at read
    split at read
    · rw [← Option.some.inj read] at sameKey
      simp [VHashItem.empty] at sameKey
    · simp at read
  have contents : ∀ key value,
      Stored (List.replicate length (VHashItem.empty (V := V))) key value ↔
        (none : Option V) = some value := by
    intro key value
    constructor
    · intro stored
      obtain ⟨index, holds⟩ := stored.holds
      exact absurd holds (vacant index key)
    · simp
  refine ⟨⟨by simpa using positive, ?_, ?_, ?_, ?_⟩, contents⟩
  · intro index item key read sameKey
    exact absurd ⟨item, read, sameKey⟩ (vacant index key)
  · intro index item read occupied
    obtain ⟨key, sameKey⟩ := Option.ne_none_iff_exists'.mp occupied
    exact absurd ⟨item, read, sameKey⟩ (vacant index key)
  · intro index other key holds
    exact absurd holds (vacant index key)
  · intro index key holds
    exact absurd holds (vacant index key)

/-- A probe for a held key ends at its slot: every slot before it is occupied,
and no other slot has this key. -/
theorem Sound.probe_held {items : List (VHashItem V)} (sound : Sound items) {index : Nat}
    {key : CString} (holds : Holds items index key) : probe items key = some index := by
  have inside : index < items.length := holds.occupied.lt
  have homeInside := home_lt items (hash key) sound.positive
  have satisfied : Stops (stopsAt key) items index := by
    by_contra passed
    exact ((not_stops_iff items key index inside).mp passed).2 holds
  refine search_of_chained homeInside satisfied ?_
  intro nearer closer
  have nearInside := slot_lt items.length (home items (hash key)) nearer sound.positive
  refine (not_stops_iff items key _ nearInside).mpr ⟨sound.chained index key holds nearer closer, ?_⟩
  intro again
  have same := sound.unique _ _ key again holds
  have turn : nearer < items.length := lt_trans closer (distance_lt _ _ _ sound.positive)
  rw [← same, distance_slot _ _ _ homeInside turn] at closer
  exact lt_irrefl _ closer

/-- A probe that ends at an empty slot proves the key absent. -/
theorem Sound.probe_vacant {items : List (VHashItem V)} (sound : Sound items) {index : Nat}
    {key : CString} {item : VHashItem V} (stopped : probe items key = some index)
    (read : items[index]? = some item) (vacantKey : item.key = none) :
    ¬ Occupied items index ∧ Absent items key := by
  have unoccupied : ¬ Occupied items index := by
    rintro ⟨other, again, occupied⟩
    rw [read, Option.some.injEq] at again
    exact occupied (again ▸ vacantKey)
  refine ⟨unoccupied, ?_⟩
  intro other holds
  have same : index = other := Option.some.inj (stopped.symm.trans (sound.probe_held holds))
  exact unoccupied (same ▸ holds.occupied)

/-- A probe that ends at an occupied slot has found the key's. -/
theorem Sound.probe_occupied {items : List (VHashItem V)} (sound : Sound items) {index : Nat}
    {key : CString} {item : VHashItem V} (stopped : probe items key = some index)
    (read : items[index]? = some item) (occupiedKey : item.key ≠ none) : item.key = some key := by
  obtain ⟨found, again, outcome, _⟩ := probe_cases sound.positive stopped
  rw [read, Option.some.injEq] at again
  subst again
  exact outcome.resolve_left occupiedKey

/-- A key that is absent has no value. -/
theorem Represents.unset {items : List (VHashItem V)} {meaning : CString → Option V}
    {key : CString} (represents : Represents items meaning) (absent : Absent items key) :
    meaning key = none := by
  cases present : meaning key with
  | none => rfl
  | some value =>
    obtain ⟨index, holds⟩ := ((represents.2 key value).mpr present).holds
    exact absurd holds (absent index)

/-- Put a new key in an empty slot to which it is chained. -/
theorem Sound.fill {items : List (VHashItem V)} (sound : Sound items) {index : Nat}
    {key : CString} {value : V} (inside : index < items.length)
    (vacant : ¬ Occupied items index) (absent : Absent items key)
    (chained : Chained (Occupied items) items.length (home items (hash key)) index) :
    Sound (items.set index ⟨some key, some value, hash key⟩) := by
  have wider : ∀ tested, Occupied items tested →
      Occupied (items.set index ⟨some key, some value, hash key⟩) tested := by
    intro tested occupied
    refine (occupied_set items index tested _ inside).mpr (Or.inr ⟨?_, occupied⟩)
    rintro rfl
    exact vacant occupied
  refine ⟨by simpa using sound.positive, ?_, ?_, ?_, ?_⟩
  · intro tested item other read sameKey
    by_cases same : tested = index
    · subst tested
      rw [List.getElem?_set_self inside, Option.some.injEq] at read
      subst read
      exact congrArg hash (Option.some.inj sameKey)
    · rw [List.getElem?_set_ne (fun equal => same equal.symm)] at read
      exact sound.hashed tested item other read sameKey
  · intro tested item read occupied
    by_cases same : tested = index
    · subst tested
      rw [List.getElem?_set_self inside, Option.some.injEq] at read
      simp [← read]
    · rw [List.getElem?_set_ne (fun equal => same equal.symm)] at read
      exact sound.filled tested item read occupied
  · intro first second other holdsFirst holdsSecond
    rw [holds_set _ _ _ _ _ inside] at holdsFirst holdsSecond
    simp only [Option.some.injEq] at holdsFirst holdsSecond
    rcases holdsFirst with ⟨rfl, rfl⟩ | ⟨_, oldFirst⟩ <;>
      rcases holdsSecond with ⟨rfl, newSecond⟩ | ⟨_, oldSecond⟩
    · rfl
    · exact absurd oldSecond (absent second)
    · exact absurd (newSecond ▸ oldFirst) (absent first)
    · exact sound.unique first second other oldFirst oldSecond
  · intro tested other holds
    simp only [home, List.length_set]
    rw [holds_set _ _ _ _ _ inside] at holds
    simp only [Option.some.injEq] at holds
    rcases holds with ⟨rfl, rfl⟩ | ⟨_, old⟩
    · exact chained.mono wider
    · exact (sound.chained tested other old).mono wider

/-- Rewriting a slot under the same key, with the same hash and some value where
there is a key, keeps soundness. An empty slot may be rewritten freely. -/
theorem Sound.rewrite {items : List (VHashItem V)} (sound : Sound items) {index : Nat}
    {old item : VHashItem V} (read : items[index]? = some old) (sameKey : item.key = old.key)
    (kept : item.key ≠ none → item.hash = old.hash ∧ item.value ≠ none) :
    Sound (items.set index item) := by
  have inside : index < items.length := (List.getElem?_eq_some_iff.mp read).1
  have sameHolds : ∀ tested key,
      Holds (items.set index item) tested key ↔ Holds items tested key := by
    intro tested key
    rw [holds_set _ _ _ _ _ inside]
    by_cases same : tested = index
    · subst tested
      simp [Holds, read, sameKey]
    · simp [same]
  have wider : ∀ tested, Occupied items tested → Occupied (items.set index item) tested := by
    intro tested occupied
    rw [occupied_set _ _ _ _ inside]
    by_cases same : tested = index
    · subst tested
      simpa [Occupied, read, sameKey] using occupied
    · exact Or.inr ⟨same, occupied⟩
  refine ⟨by simpa using sound.positive, ?_, ?_, ?_, ?_⟩
  · intro tested other key again held
    by_cases same : tested = index
    · subst tested
      rw [List.getElem?_set_self inside, Option.some.injEq] at again
      subst again
      rw [(kept (by simp [held])).1]
      exact sound.hashed _ old key read (sameKey ▸ held)
    · rw [List.getElem?_set_ne (fun equal => same equal.symm)] at again
      exact sound.hashed tested other key again held
  · intro tested other again occupied
    by_cases same : tested = index
    · subst tested
      rw [List.getElem?_set_self inside, Option.some.injEq] at again
      subst again
      exact (kept occupied).2
    · rw [List.getElem?_set_ne (fun equal => same equal.symm)] at again
      exact sound.filled tested other again occupied
  · intro first second key holdsFirst holdsSecond
    exact sound.unique first second key ((sameHolds _ _).mp holdsFirst)
      ((sameHolds _ _).mp holdsSecond)
  · intro tested key holds
    simp only [home, List.length_set]
    exact (sound.chained tested key ((sameHolds _ _).mp holds)).mono wider

/-- Writing to an empty slot adds what the new item stores and nothing else. -/
theorem stored_set_vacant {items : List (VHashItem V)} {index : Nat} {item : VHashItem V}
    (inside : index < items.length) (vacant : ¬ Occupied items index) (key : CString) (value : V) :
    Stored (items.set index item) key value ↔
      (item.key = some key ∧ item.value = some value) ∨ Stored items key value := by
  rw [stored_set _ _ _ _ _ inside]
  apply or_congr Iff.rfl
  constructor
  · rintro ⟨tested, other, _, read, sameKey, sameValue⟩
    exact ⟨tested, other, read, sameKey, sameValue⟩
  · rintro ⟨tested, other, read, sameKey, sameValue⟩
    refine ⟨tested, other, ?_, read, sameKey, sameValue⟩
    rintro rfl
    exact vacant ⟨other, read, by simp [sameKey]⟩

/-- Rewriting a slot leaves what is stored under any other key. -/
theorem stored_set_other {items : List (VHashItem V)} {index : Nat} {old item : VHashItem V}
    (read : items[index]? = some old) {key : CString} (apartOld : old.key ≠ some key)
    (apartNew : item.key ≠ some key) (value : V) :
    Stored (items.set index item) key value ↔ Stored items key value := by
  rw [stored_set _ _ _ _ _ (List.getElem?_eq_some_iff.mp read).1]
  constructor
  · rintro (⟨sameKey, _⟩ | ⟨tested, other, _, again, otherKey, otherValue⟩)
    · exact absurd sameKey apartNew
    · exact ⟨tested, other, again, otherKey, otherValue⟩
  · rintro ⟨tested, other, again, otherKey, otherValue⟩
    refine Or.inr ⟨tested, other, ?_, again, otherKey, otherValue⟩
    rintro rfl
    rw [read, Option.some.injEq] at again
    exact apartOld (again ▸ otherKey)

/-- Items in one copying pass never repeat a key. -/
def Distinct (pending : List (VHashItem V)) : Prop :=
  pending.Pairwise (fun item other => ∀ key, item.key = some key → other.key ≠ some key)

/-- The items of a sound array are distinct. -/
theorem Sound.distinct {items : List (VHashItem V)} (sound : Sound items) : Distinct items := by
  unfold Distinct
  rw [List.pairwise_iff_getElem]
  intro first second firstInside secondInside before key sameFirst sameSecond
  have same := sound.unique first second key
    ⟨_, List.getElem?_eq_getElem firstInside, sameFirst⟩
    ⟨_, List.getElem?_eq_getElem secondInside, sameSecond⟩
  omega

/-- The copying loop on a sound array, whose items do not meet the pending ones:
every pending item is added under its key, and all else stays. The induction is
on the pending items; placing the first one keeps the rest apart from the array. -/
theorem foldlM_place_sound (pending : List (VHashItem V)) (items after : List (VHashItem V))
    (sound : Sound items) (distinct : Distinct pending)
    (hashed : ∀ item ∈ pending, ∀ key, item.key = some key → item.hash = hash key)
    (filled : ∀ item ∈ pending, item.key ≠ none → item.value ≠ none)
    (fresh : ∀ item ∈ pending, ∀ key, item.key = some key → Absent items key)
    (copied : pending.foldlM place items = some after) :
    Sound after ∧ after.length = items.length ∧
      ∀ key value, Stored after key value ↔
        (∃ item ∈ pending, item.key = some key ∧ item.value = some value) ∨
          Stored items key value := by
  induction pending generalizing items with
  | nil =>
    have same : items = after := Option.some.inj copied
    subst after
    exact ⟨sound, rfl, by simp⟩
  | cons item rest inductionHypothesis =>
    simp only [List.foldlM_cons, place, Option.bind_eq_bind, Option.bind_eq_some_iff,
      Option.pure_def, Option.some.injEq] at copied
    obtain ⟨_, ⟨index, stopped, rfl⟩, remaining⟩ := copied
    have homeInside := home_lt items item.hash sound.positive
    obtain ⟨inside, ⟨old, read, isEmpty⟩, passed⟩ := search_spec homeInside stopped
    have vacantKey : old.key = none := by simpa [itemIsEmpty] using isEmpty
    have vacant : ¬ Occupied items index := by
      rintro ⟨other, again, occupied⟩
      rw [read, Option.some.injEq] at again
      exact occupied (again ▸ vacantKey)
    have chained : Chained (Occupied items) items.length (home items item.hash) index := by
      intro nearer closer
      exact (not_empty_iff items _ (slot_lt _ _ _ sound.positive)).mp (passed nearer closer)
    obtain ⟨headApart, tailDistinct⟩ := List.pairwise_cons.mp distinct
    have placed : Sound (items.set index item) := by
      cases keyed : item.key with
      | none => exact sound.rewrite read (by rw [keyed, vacantKey]) (by simp [keyed])
      | some key =>
        obtain ⟨value, valued⟩ := Option.ne_none_iff_exists'.mp
          (filled item List.mem_cons_self (by simp [keyed]))
        have hashOf : item.hash = hash key := hashed item List.mem_cons_self key keyed
        have shape : item = ⟨some key, some value, hash key⟩ := by
          cases item
          simp_all
        rw [hashOf] at chained
        rw [shape]
        exact sound.fill inside vacant (fresh item List.mem_cons_self key keyed) chained
    have stillFresh : ∀ other ∈ rest, ∀ key, other.key = some key →
        Absent (items.set index item) key := by
      intro other member key sameKey tested holds
      rcases (holds_set _ _ _ _ _ inside).mp holds with ⟨_, placedKey⟩ | ⟨_, old⟩
      · exact headApart other member key placedKey sameKey
      · exact fresh other (List.mem_cons_of_mem _ member) key sameKey tested old
    obtain ⟨soundAfter, lengthAfter, contents⟩ := inductionHypothesis (items.set index item) placed
      tailDistinct (fun other member => hashed other (List.mem_cons_of_mem _ member))
      (fun other member => filled other (List.mem_cons_of_mem _ member)) stillFresh remaining
    refine ⟨soundAfter, by simpa using lengthAfter, ?_⟩
    intro key value
    rw [contents, stored_set_vacant inside vacant]
    simp only [List.mem_cons, exists_eq_or_imp]
    exact or_left_comm.trans or_assoc.symm

/-- `VHashTable_Rehash` doubles a sound table and changes nothing it represents. -/
theorem rehash_represents {table after : VHashTable V} {meaning : CString → Option V}
    (represents : Represents table.items meaning) (returned : rehash table = some after) :
    Represents after.items meaning ∧ after.items.length = 2 * table.items.length ∧
      after.count = 0 := by
  obtain ⟨sound, contents⟩ := represents
  simp only [rehash, Option.bind_eq_bind, Option.bind_eq_some_iff, Option.pure_def,
    Option.some.injEq] at returned
  obtain ⟨items, copied, rfl⟩ := returned
  have positive : 0 < 2 * table.capacity := Nat.mul_pos (by decide) sound.positive
  obtain ⟨blankSound, blank⟩ := replicate_represents (V := V) (2 * table.capacity) positive
  have entry : ∀ item ∈ table.items, ∃ index : Nat, table.items[index]? = some item :=
    fun item member => List.mem_iff_getElem?.mp member
  obtain ⟨soundAfter, lengthAfter, stored⟩ := foldlM_place_sound table.items _ items blankSound
    sound.distinct
    (fun item member key sameKey => by
      obtain ⟨index, read⟩ := entry item member
      exact sound.hashed index item key read sameKey)
    (fun item member occupied => by
      obtain ⟨index, read⟩ := entry item member
      exact sound.filled index item read occupied)
    (fun item member key sameKey index holds => by
      obtain ⟨value, present⟩ := blankSound.stored_of_holds holds
      simp [blank] at present)
    copied
  refine ⟨⟨soundAfter, ?_⟩, by simpa [capacity] using lengthAfter, rfl⟩
  intro key value
  have nothing : ¬ Stored (List.replicate (2 * table.capacity) VHashItem.empty) key value := by
    simp [blank]
  rw [stored, ← contents key value]
  constructor
  · rintro (⟨item, member, sameKey, sameValue⟩ | present)
    · obtain ⟨index, read⟩ := entry item member
      exact ⟨index, item, read, sameKey, sameValue⟩
    · exact absurd present nothing
  · rintro ⟨index, item, read, sameKey, sameValue⟩
    exact Or.inl ⟨item, List.mem_of_getElem? read, sameKey, sameValue⟩

/-- The growth test changes nothing a table represents. -/
theorem grow_represents {table after : VHashTable V} {meaning : CString → Option V}
    (represents : Represents table.items meaning) (returned : grow table = some after) :
    Represents after.items meaning := by
  unfold grow at returned
  split at returned
  · exact (rehash_represents represents returned).1
  · exact Option.some.inj returned ▸ represents

/-- `VHashTable_Insert` updates the represented function at its key. -/
theorem insert_represents {table after : VHashTable V} {meaning : CString → Option V}
    {key : CString} {value : V} (represents : Represents table.items meaning)
    (returned : insert table key value = some after) :
    Represents after.items (Function.update meaning key (some value)) := by
  obtain ⟨grown, index, item, hasGrown, stopped, read, outcome⟩ := insert_cases returned
  obtain ⟨sound, contents⟩ := grow_represents represents hasGrown
  have inside : index < grown.items.length := (List.getElem?_eq_some_iff.mp read).1
  rcases outcome with ⟨vacantKey, rfl⟩ | ⟨occupiedKey, rfl⟩
  · obtain ⟨_, _, _, chained⟩ := probe_cases sound.positive stopped
    obtain ⟨vacant, absent⟩ := sound.probe_vacant stopped read vacantKey
    refine ⟨sound.fill inside vacant absent (chained.mono fun _ => And.left), ?_⟩
    intro tested found
    rw [stored_set_vacant inside vacant, contents]
    by_cases same : tested = key
    · subst tested
      have unset := Represents.unset ⟨sound, contents⟩ absent
      simp [unset]
    · simp [Function.update_of_ne same, Ne.symm same]
  · have sameKey := sound.probe_occupied stopped read occupiedKey
    have holds : Holds grown.items index key := ⟨item, read, sameKey⟩
    refine ⟨sound.rewrite read rfl (fun _ => ⟨rfl, by simp⟩), ?_⟩
    intro tested found
    by_cases same : tested = key
    · subst tested
      rw [stored_set _ _ _ _ _ inside]
      simp only [sameKey, true_and, Function.update_self, Option.some.injEq, or_iff_left_iff_imp]
      rintro ⟨other, entry, apart, again, otherKey, _⟩
      exact absurd (sound.unique other index key ⟨entry, again, otherKey⟩ holds) apart
    · have apart : item.key ≠ some tested := by simpa [sameKey] using Ne.symm same
      have others : Stored (grown.items.set index { item with value := some value }) tested found ↔
          Stored grown.items tested found := stored_set_other read apart (by exact apart) found
      rw [others, contents, Function.update_of_ne same]

/-- `VHashTable_Get` that returns gives the represented value, or NULL where
there is none. -/
theorem get_exact {table : VHashTable V} {meaning : CString → Option V} {key : CString}
    {result : Option V} (represents : Represents table.items meaning)
    (returned : get table key = some result) : result = meaning key := by
  obtain ⟨sound, contents⟩ := represents
  simp only [get, Option.bind_eq_bind, Option.bind_eq_some_iff, Option.pure_def,
    Option.some.injEq] at returned
  obtain ⟨index, stopped, item, read, rfl⟩ := returned
  by_cases vacantKey : item.key = none
  · have unset := Represents.unset ⟨sound, contents⟩ (sound.probe_vacant stopped read vacantKey).2
    simp [itemIsEmpty, vacantKey, unset]
  · have sameKey := sound.probe_occupied stopped read vacantKey
    obtain ⟨value, valued⟩ := Option.ne_none_iff_exists'.mp
      (sound.filled index item read vacantKey)
    have present : meaning key = some value :=
      (contents key value).mp ⟨index, item, read, sameKey, valued⟩
    simp [itemIsEmpty, sameKey, valued, present]

/-- `VHashTable_Get` of a represented key always returns. -/
theorem get_present {table : VHashTable V} {meaning : CString → Option V} {key : CString}
    {value : V} (represents : Represents table.items meaning) (present : meaning key = some value) :
    get table key = some (some value) := by
  obtain ⟨index, item, read, sameKey, valued⟩ := (represents.2 key value).mpr present
  have stopped := represents.1.probe_held ⟨item, read, sameKey⟩
  simp [get, stopped, read, itemIsEmpty, sameKey, valued]

end VHttp.VHashTable
