import VHttp.HashTableCount

/-!
# Walking over a table

An iterator trusts the count: `VHashTable_Next` passes over empty slots without a look at
the capacity, as long as fewer items have been handed out than the count says. With too
small a count a walk ends early. With too large a count it reads on behind the array,
unless the last slot is occupied.

The table does not change during a walk, so an iterator is its cursor and its count. No
result means a read of a slot at or beyond the capacity.
-/

namespace VHttp.VHashTable

open Runs

variable {V : Type}

/-- `vhash_iterator`, without the table. -/
structure VHashIterator where
  cursor : Nat
  count : Nat
  deriving DecidableEq

/-- `VHashTable_Iterator`. -/
def iterator : VHashIterator := ⟨0, 0⟩

/-- The loop of `VHashTable_Next` over empty slots. It leaves the array before more
rounds than the array has slots behind the cursor. -/
def skipEmpty (items : List (VHashItem V)) : Nat → Nat → Option Nat
  | 0, _ => none
  | fuel + 1, cursor => do
    let item ← items[cursor]?
    if itemIsEmpty item then skipEmpty items fuel (cursor + 1) else some cursor

/-- `VHashTable_Next`, with the index of the item that it returns, or NULL. -/
def next (table : VHashTable V) (iterator : VHashIterator) : Option (VHashIterator × Option Nat) :=
  if table.capacity ≤ iterator.cursor ∨ iterator.count = table.count then some (iterator, none)
  else do
    let cursor ← skipEmpty table.items (table.capacity + 1) iterator.cursor
    pure (⟨cursor + 1, iterator.count + 1⟩, some cursor)

/-- Call `VHashTable_Next` until it returns NULL. The cursor moves with every item, so
fewer calls are made than the array has slots and one more. -/
def walk (table : VHashTable V) : Nat → VHashIterator → Option (List Nat)
  | 0, _ => none
  | fuel + 1, iterator => do
    match ← next table iterator with
    | (_, none) => some []
    | (iterator, some index) =>
      let rest ← walk table fuel iterator
      pure (index :: rest)

/-- What a walk is for: it stays inside the array, and hands out every occupied slot once
and no empty one. -/
def WalkExact (table : VHashTable V) : Prop :=
  ∃ indices, walk table (table.capacity + 1) iterator = some indices ∧
    indices.Nodup ∧ ∀ index, index ∈ indices ↔ Occupied table.items index

/-! ## The occupied slots in order -/

/-- The indices of the occupied slots of an array that begins at `index`. -/
def occupiedSlots : Nat → List (VHashItem V) → List Nat
  | _, [] => []
  | index, item :: rest =>
    if itemIsEmpty item then occupiedSlots (index + 1) rest
    else index :: occupiedSlots (index + 1) rest

theorem occupiedSlots_length (items : List (VHashItem V)) (index : Nat) :
    (occupiedSlots index items).length = occupancy items := by
  induction items generalizing index with
  | nil => rfl
  | cons item rest inductionHypothesis =>
    have headed : occupancy (item :: rest) =
        occupancy rest + (if itemIsEmpty item then 0 else 1) := by
      cases vacant : itemIsEmpty item <;> simp [occupancy, vacant]
    rw [headed, occupiedSlots]
    cases itemIsEmpty item with
    | true => simpa using inductionHypothesis (index + 1)
    | false => simpa using inductionHypothesis (index + 1)

theorem mem_occupiedSlots (items : List (VHashItem V)) (index tested : Nat) :
    tested ∈ occupiedSlots index items ↔ index ≤ tested ∧ Occupied items (tested - index) := by
  induction items generalizing index with
  | nil => simp [occupiedSlots, Occupied]
  | cons item rest inductionHypothesis =>
    have beyond : index + 1 ≤ tested →
        (Occupied (item :: rest) (tested - index) ↔ Occupied rest (tested - (index + 1))) := by
      intro later
      have shifted : tested - index = tested - (index + 1) + 1 := by omega
      simp [Occupied, shifted]
    have here : Occupied (item :: rest) 0 ↔ itemIsEmpty item = false := by
      simp [Occupied, itemIsEmpty, Option.isSome_iff_ne_none]
    have member : tested ∈ occupiedSlots index (item :: rest) ↔
        (itemIsEmpty item = false ∧ tested = index) ∨ tested ∈ occupiedSlots (index + 1) rest := by
      cases vacant : itemIsEmpty item <;> simp [occupiedSlots, vacant]
    rw [member, inductionHypothesis, ← here]
    rcases lt_trichotomy tested index with before | rfl | later
    · omega
    · simp
    · have apart : tested ≠ index := by omega
      have inside : index ≤ tested := by omega
      simp only [apart, and_false, false_or, inside, true_and, beyond later,
        and_iff_right_iff_imp]
      exact fun _ => later

theorem occupiedSlots_nodup (items : List (VHashItem V)) (index : Nat) :
    (occupiedSlots index items).Nodup := by
  induction items generalizing index with
  | nil => exact List.nodup_nil
  | cons item rest inductionHypothesis =>
    rw [occupiedSlots]
    cases itemIsEmpty item with
    | true => exact inductionHypothesis (index + 1)
    | false =>
      refine List.nodup_cons.mpr ⟨?_, inductionHypothesis (index + 1)⟩
      rw [mem_occupiedSlots]
      omega

/-- The loop over empty slots ends at the first occupied slot, if there is one. -/
theorem skipEmpty_eq (items : List (VHashItem V)) (fuel cursor : Nat)
    (enough : items.length < cursor + fuel) :
    skipEmpty items fuel cursor = (occupiedSlots cursor (items.drop cursor)).head? := by
  induction fuel generalizing cursor with
  | zero =>
    rw [List.drop_eq_nil_of_le (by omega)]
    rfl
  | succ fuel inductionHypothesis =>
    by_cases inside : cursor < items.length
    · have skipped := inductionHypothesis (cursor + 1) (by omega)
      rw [List.drop_eq_getElem_cons inside]
      simp only [skipEmpty, occupiedSlots, List.getElem?_eq_getElem inside, Option.bind_eq_bind,
        Option.bind_some]
      cases itemIsEmpty items[cursor] with
      | true => simpa using skipped
      | false => rfl
    · rw [List.drop_eq_nil_of_le (by omega)]
      simp [skipEmpty, occupiedSlots, List.getElem?_eq_none (Nat.le_of_not_lt inside)]

/-- Behind the first occupied slot come the others. -/
theorem occupiedSlots_tail {items : List (VHashItem V)} {cursor index : Nat} {rest : List Nat}
    (slots : occupiedSlots cursor (items.drop cursor) = index :: rest) :
    occupiedSlots (index + 1) (items.drop (index + 1)) = rest := by
  by_cases inside : cursor < items.length
  · rw [List.drop_eq_getElem_cons inside, occupiedSlots] at slots
    cases vacant : itemIsEmpty items[cursor] with
    | true =>
      simp only [vacant, ↓reduceIte] at slots
      exact occupiedSlots_tail slots
    | false =>
      simp only [vacant, Bool.false_eq_true, ↓reduceIte, List.cons.injEq] at slots
      obtain ⟨rfl, rfl⟩ := slots
      rfl
  · rw [List.drop_eq_nil_of_le (Nat.le_of_not_lt inside)] at slots
    simp [occupiedSlots] at slots
termination_by items.length - cursor

/-! ## The walk -/

/-- Where the cursor stands after these slots have been handed out. -/
def cursorBehind (cursor : Nat) (slots : List Nat) : Nat :=
  slots.foldl (fun _ index => index + 1) cursor

/-- A walk hands out the occupied slots from its cursor on, as many as the count allows.
If it allows more than there are, the walk ends only with the cursor behind the array.

Induct over the occupied slots that are left. -/
theorem walk_eq (table : VHashTable V) (slots : List Nat) (fuel cursor seen : Nat)
    (left : occupiedSlots cursor (table.items.drop cursor) = slots)
    (enough : slots.length < fuel) (few : seen ≤ table.count) :
    walk table fuel ⟨cursor, seen⟩ =
      if table.count - seen ≤ slots.length ∨ table.capacity ≤ cursorBehind cursor slots then
        some (slots.take (table.count - seen))
      else none := by
  induction slots generalizing fuel cursor seen with
  | nil =>
    obtain ⟨fuel, rfl⟩ : ∃ smaller, fuel = smaller + 1 := ⟨fuel - 1, by simp at enough; omega⟩
    have skipped := skipEmpty_eq table.items (table.capacity + 1) cursor (by
      rw [capacity]
      omega)
    rw [left] at skipped
    by_cases done : table.capacity ≤ cursor ∨ seen = table.count
    · have allowed : table.count - seen ≤ ([] : List Nat).length ∨
          table.capacity ≤ cursorBehind cursor [] := by
        simp only [List.length_nil, cursorBehind, List.foldl_nil]
        omega
      rw [if_pos allowed]
      simp [walk, next, done]
    · have refused : ¬ (table.count - seen ≤ ([] : List Nat).length ∨
          table.capacity ≤ cursorBehind cursor []) := by
        simp only [List.length_nil, cursorBehind, List.foldl_nil]
        omega
      rw [if_neg refused]
      simp [walk, next, done, skipped]
  | cons index rest inductionHypothesis =>
    obtain ⟨fuel, rfl⟩ : ∃ smaller, fuel = smaller + 1 := ⟨fuel - 1, by simp at enough; omega⟩
    have skipped := skipEmpty_eq table.items (table.capacity + 1) cursor (by
      rw [capacity]
      omega)
    have inside : ¬ table.capacity ≤ cursor := by
      intro outside
      rw [List.drop_eq_nil_of_le outside] at left
      simp [occupiedSlots] at left
    by_cases done : seen = table.count
    · simp [walk, next, done]
    · have remaining := inductionHypothesis fuel (index + 1) (seen + 1) (occupiedSlots_tail left)
        (by simp only [List.length_cons] at enough; omega) (by omega)
      obtain ⟨still, counted⟩ : ∃ still, table.count - seen = still + 1 :=
        ⟨table.count - seen - 1, by omega⟩
      have before : table.count - (seen + 1) = still := by omega
      rw [left] at skipped
      have continued : walk table (fuel + 1) ⟨cursor, seen⟩ =
          (walk table fuel ⟨index + 1, seen + 1⟩).map (index :: ·) := by
        simp only [walk, next, inside, done, or_self, ↓reduceIte, skipped, List.head?_cons,
          Option.bind_eq_bind, Option.bind_some, Option.pure_def]
        cases walk table fuel ⟨index + 1, seen + 1⟩ <;> rfl
      have behind : cursorBehind cursor (index :: rest) = cursorBehind (index + 1) rest := rfl
      rw [continued, remaining, before, counted, behind]
      simp only [List.length_cons, Nat.add_le_add_iff_right, List.take_succ_cons]
      split
      · rfl
      · rfl

theorem mem_occupiedSlots_drop (items : List (VHashItem V)) (cursor tested : Nat) :
    tested ∈ occupiedSlots cursor (items.drop cursor) ↔ cursor ≤ tested ∧ Occupied items tested := by
  rw [mem_occupiedSlots]
  apply and_congr_right
  intro behind
  rw [Occupied, List.getElem?_drop, Nat.add_sub_cancel' behind, Occupied]

/-- From inside the array, the cursor ends behind it exactly when the last slot is
occupied. -/
theorem cursorBehind_iff {items : List (VHashItem V)} (slots : List Nat) {cursor : Nat}
    (left : occupiedSlots cursor (items.drop cursor) = slots) (inside : cursor < items.length) :
    items.length ≤ cursorBehind cursor slots ↔ Occupied items (items.length - 1) := by
  have members := mem_occupiedSlots_drop items cursor
  rw [left] at members
  induction slots generalizing cursor with
  | nil =>
    have vacant : ¬ Occupied items (items.length - 1) := fun occupied =>
      List.not_mem_nil ((members _).mpr ⟨by omega, occupied⟩)
    simp only [cursorBehind, List.foldl_nil, vacant, iff_false]
    omega
  | cons index rest inductionHypothesis =>
    have behind : cursorBehind cursor (index :: rest) = cursorBehind (index + 1) rest := rfl
    have tail := occupiedSlots_tail left
    obtain ⟨_, occupied⟩ := (members index).mp List.mem_cons_self
    rw [behind]
    by_cases last : index + 1 < items.length
    · have others := mem_occupiedSlots_drop items (index + 1)
      rw [tail] at others
      exact inductionHypothesis tail last others
    · have here : index = items.length - 1 := by
        have bound := occupied.lt
        omega
      rw [List.drop_eq_nil_of_le (Nat.le_of_not_lt last)] at tail
      obtain rfl : [] = rest := tail
      simp only [cursorBehind, List.foldl_nil, ← here, occupied, iff_true]
      omega

/-- A walk is exact when the count is the number of occupied slots, or is larger while
the last slot is occupied; and only then. -/
theorem walkExact_iff {table : VHashTable V} (positive : 0 < table.items.length) :
    WalkExact table ↔ table.count = occupancy table.items ∨
      (occupancy table.items < table.count ∧ Occupied table.items (table.capacity - 1)) := by
  have slots := occupiedSlots_length table.items 0
  have nodup := occupiedSlots_nodup table.items 0
  have members : ∀ index, index ∈ occupiedSlots 0 table.items ↔ Occupied table.items index := by
    simp [mem_occupiedSlots]
  have walked := walk_eq table (occupiedSlots 0 table.items) (table.capacity + 1) 0 0 (by simp)
    (by rw [slots]; exact Nat.lt_succ_of_le (occupancy_le table.items)) (Nat.zero_le _)
  have last := cursorBehind_iff (occupiedSlots 0 table.items) (by simp) positive
  have allowed : (table.count - 0 ≤ (occupiedSlots 0 table.items).length ∨
      table.capacity ≤ cursorBehind 0 (occupiedSlots 0 table.items)) ↔
      table.count ≤ occupancy table.items ∨ Occupied table.items (table.capacity - 1) := by
    rw [slots, Nat.sub_zero]
    exact or_congr_right last
  constructor
  · rintro ⟨indices, returned, _, exactly⟩
    by_cases ends : table.count ≤ occupancy table.items ∨ Occupied table.items (table.capacity - 1)
    · rw [if_pos (allowed.mpr ends), Nat.sub_zero] at walked
      obtain rfl := Option.some.inj (walked.symm.trans returned)
      have whole : occupiedSlots 0 table.items ⊆ (occupiedSlots 0 table.items).take table.count :=
        fun index member => (exactly index).mpr ((members index).mp member)
      have long := (nodup.subperm whole).length_le
      rw [List.length_take, slots] at long
      rcases ends with few | occupied
      · left
        omega
      · by_cases same : table.count = occupancy table.items
        · exact Or.inl same
        · exact Or.inr ⟨by omega, occupied⟩
    · rw [if_neg (fun ended => ends (allowed.mp ended))] at walked
      cases walked.symm.trans returned
  · intro enough
    have all : occupancy table.items ≤ table.count := by
      rcases enough with same | ⟨more, _⟩ <;> omega
    have ends : table.count ≤ occupancy table.items ∨ Occupied table.items (table.capacity - 1) := by
      rcases enough with same | ⟨_, occupied⟩
      · exact Or.inl (le_of_eq same)
      · exact Or.inr occupied
    rw [if_pos (allowed.mpr ends), Nat.sub_zero, List.take_of_length_le (slots ▸ all)] at walked
    exact ⟨occupiedSlots 0 table.items, walked, nodup, members⟩

/-- From any initial capacity: a walk over a table that was never rehashed is exact; and
in every state that a run reaches, a walk is exact when the count is the number of occupied
slots, or is larger while the last slot is occupied, and only then. -/
theorem walk_exact (capacity : UInt64) {trace : List (Call V)} {table : VHashTable V}
    (run : Run apply anywhere (init capacity.toNat) trace table) :
    (Run apply Fitting (init capacity.toNat) trace table → WalkExact table) ∧
      (WalkExact table ↔ table.count = occupancy table.items ∨
        (occupancy table.items < table.count ∧ Occupied table.items (table.capacity - 1))) := by
  have positive := run_positive run
  refine ⟨?_, walkExact_iff positive⟩
  intro fitting
  have counted : Counted (init capacity.toNat : VHashTable V).items.length table :=
    fitting.invariant (Counted _) ⟨rfl, by simp [init, occupancy_replicate]⟩
      (fun _ _ _ kept fits taken => kept.apply (init_length capacity) fits taken)
  exact (walkExact_iff positive).mpr (Or.inl counted.counted)

/-- Two keys from a single slot, and a count of one: the walk hands out the first only. -/
theorem walk_misses_slot :
    ¬ ∀ (capacity : UInt64) (trace : List (Call Nat)) (table : VHashTable Nat),
      Run apply anywhere (init capacity.toNat) trace table → WalkExact table := by
  intro always
  obtain ⟨indices, walked, _, exactly⟩ := always 1 [.insert aKey 1, .insert bKey 2]
    ⟨[⟨some aKey, some 1, 177670⟩, ⟨some bKey, some 2, 177671⟩], 1⟩ (Run.of_foldlM (by decide))
  have first : indices = [0] := Option.some.inj (walked.symm.trans (by decide))
  have second : 1 ∈ indices := (exactly 1).mpr ⟨_, rfl, by simp⟩
  simp [first] at second

/-- With the second key removed again, behind the rehash, the count is below zero and
wraps: the walk leaves the array. -/
example : (([.insert aKey 1, .insert bKey 2, .remove bKey, .remove aKey] :
    List (Call Nat)).foldlM apply (init 1)).bind (fun table => walk table 3 iterator) = none := by
  decide

/-- With two slots from the start both keys are handed out. -/
theorem walk_exact_separate : WalkExact separateTable := by
  have run : Run apply Fitting (init (2 : UInt64).toNat)
      ([] ++ [Call.insert aKey 1] ++ [.insert bKey 2]) separateTable :=
    Run.next (Run.next Run.start (by decide) rfl) (by decide) (by decide)
  exact (walk_exact 2 (run.weaken (fun _ _ _ => trivial))).1 run

end VHttp.VHashTable
