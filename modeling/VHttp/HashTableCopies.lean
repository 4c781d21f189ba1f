import VHttp.HashTableRemoval

/-!
# Who frees the copies

A table owns a copy of every key and value that is inserted. The copies are numbered in
the order in which they are made; beside the table stand how many there are, those that
it has freed, and those that `VHashTable_Remove` has handed to its caller, who frees each
of them once. What a key copy holds matters to the probes, what a value copy holds does
not, so an insertion is its key alone.

Removal leaves its value in the slot. The slot is empty, but `VHashTable_Free` looks at
keys and values separately and frees the value a second time.

The loops of `VHashTable_Rehash` and `VHashTable_Free` count in an s32, which goes through
fewer than 2^31 slots (`rehash_indexed`, `free_indexed`).
-/

namespace VHttp.VHashTable

open Circular Probing Runs

/-- A `vhash_item` with the numbers of its copies; the key's comes with the key. -/
structure CopiedItem where
  key : Option (CString × Nat)
  value : Option Nat
  hash : UInt64
  deriving DecidableEq

namespace CopiedItem

/-- A slot as calloc leaves it. -/
def empty : CopiedItem := ⟨none, none, 0⟩

/-- The item of which the probes know. -/
def plain (item : CopiedItem) : VHashItem Nat := ⟨item.key.map Prod.fst, item.value, item.hash⟩

/-- What `VHashTable_Free` frees in a slot. -/
def copies (item : CopiedItem) : List Nat := (item.key.map Prod.snd).toList ++ item.value.toList

end CopiedItem

/-- `struct vhash_table`, with the copies made, freed and handed out so far. -/
structure CopiedTable where
  items : List CopiedItem
  count : Nat
  made : Nat
  released : List Nat
  handed : List Nat
  deriving DecidableEq

namespace CopiedTable

/-- The table of which the probes know. -/
def plain (table : CopiedTable) : VHashTable Nat := ⟨table.items.map CopiedItem.plain, table.count⟩

/-- `VHashTable_Init`. -/
def init (capacity : Nat) : CopiedTable :=
  ⟨List.replicate (if capacity = 0 then initCapacity else capacity) CopiedItem.empty, 0, 0, [], []⟩

/-- One round of the copying loop of `VHashTable_Rehash`; the item moves with its copies. -/
def place (items : List CopiedItem) (item : CopiedItem) : Option (List CopiedItem) := do
  let index ← search (fun tested => itemIsEmpty tested.plain) items items.length
    (item.hash.toNat % items.length)
  pure (items.set index item)

/-- `VHashTable_Rehash`. -/
def rehash (table : CopiedTable) : Option CopiedTable := do
  let items ← table.items.foldlM place (List.replicate (2 * table.items.length) CopiedItem.empty)
  pure { table with items := items, count := 0 }

/-- The growth test that opens `VHashTable_Insert`. -/
def grow (table : CopiedTable) : Option CopiedTable :=
  if table.items.length ≤ table.count then rehash table else some table

/-- The probe loops of insert and remove. -/
def probe (items : List CopiedItem) (key : CString) : Option Nat :=
  search (fun tested => stopsAt key tested.plain) items items.length
    ((hash key).toNat % items.length)

/-- `VHashTable_Insert`: the value's copy is made first, then the key's. An equal key keeps
its own copy, and the new one is freed with the value that is replaced. -/
def insert (table : CopiedTable) (key : CString) : Option CopiedTable := do
  let grown ← grow table
  let index ← probe grown.items key
  let item ← grown.items[index]?
  let value := grown.made
  let copy := grown.made + 1
  if item.key = none then
    pure { grown with
      items := grown.items.set index ⟨some (key, copy), some value, hash key⟩
      count := u64 (grown.count + 1)
      made := grown.made + 2 }
  else
    pure { grown with
      items := grown.items.set index { item with value := some value }
      made := grown.made + 2
      released := grown.released ++ copy :: item.value.toList }

/-- `VHashTable_Remove`, with the pointer that it returns. -/
def remove (table : CopiedTable) (key : CString) : Option (Option Nat × CopiedTable) := do
  let index ← probe table.items key
  let item ← table.items[index]?
  match item.key with
  | none => pure (none, table)
  | some (_, copy) =>
    pure (item.value, { table with
      items := table.items.set index { item with key := none }
      count := u64 (table.count + (2 ^ 64 - 1))
      released := table.released ++ [copy]
      handed := table.handed ++ item.value.toList })

/-- `VHashTable_Free`: everything that the table has freed when it is gone. -/
def free (table : CopiedTable) : List Nat :=
  table.released ++ table.items.flatMap CopiedItem.copies

/-- With the s32 index of the source a table of fewer than 2^31 slots is rehashed the same way. -/
theorem rehash_indexed {table : CopiedTable} (short : table.items.length < 2 ^ 31) :
    rehash table = (indexedLoop place 0 table.items
      (List.replicate (2 * table.items.length) CopiedItem.empty)).map
        (fun items => { table with items := items, count := 0 }) := by
  rw [rehash, indexedLoop_eq place ((Nat.zero_add _).symm ▸ short), Option.map_eq_bind]
  rfl

/-- So is it freed, slot by slot. -/
theorem free_indexed {table : CopiedTable} (short : table.items.length < 2 ^ 31) :
    indexedLoop (fun released item => some (released ++ CopiedItem.copies item)) 0 table.items
      table.released = some (free table) := by
  have frees : ∀ (items : List CopiedItem) (released : List Nat),
      items.foldlM (fun released item => some (released ++ CopiedItem.copies item)) released =
        some (released ++ items.flatMap CopiedItem.copies) := by
    intro items
    induction items with
    | nil => simp
    | cons item rest inductionHypothesis =>
      intro released
      rw [List.foldlM_cons, Option.bind_eq_bind, Option.bind_some, inductionHypothesis,
        List.flatMap_cons, List.append_assoc]
  rw [indexedLoop_eq _ ((Nat.zero_add _).symm ▸ short), frees, free]

/-- The table after a call that returns. -/
def apply (table : CopiedTable) : Call Unit → Option CopiedTable
  | .insert key _ => insert table key
  | .remove key => (remove table key).map Prod.snd

/-- Once the table is freed and the caller has freed what it was handed, every copy has been
freed once, and nothing else has. -/
def ReleasedOnce (table : CopiedTable) : Prop :=
  ∀ copy, (table.handed ++ table.free).count copy = if copy < table.made then 1 else 0

/-- A slot without a key holds no value. -/
def NoStray (table : CopiedTable) : Prop :=
  ∀ item ∈ table.items, item.key = none → item.value = none

/-- A removal asks for a key that no slot has. Insertions are not restricted. -/
def NothingRemoved (table : CopiedTable) : Call Unit → Prop
  | .insert _ _ => True
  | .remove key => Absent table.plain.items key

/-! ## The table behind the copies -/

theorem plain_empty (item : CopiedItem) : itemIsEmpty item.plain = true ↔ item.key = none := by
  simp [itemIsEmpty, CopiedItem.plain]

theorem place_plain (items : List CopiedItem) (item : CopiedItem) :
    (place items item).map (List.map CopiedItem.plain) =
      VHashTable.place (items.map CopiedItem.plain) item.plain := by
  have same := search_map CopiedItem.plain itemIsEmpty items items.length
    (item.hash.toNat % items.length)
  have start : VHashTable.home (items.map CopiedItem.plain) item.plain.hash =
      item.hash.toNat % items.length := by simp [VHashTable.home, CopiedItem.plain]
  simp only [place, VHashTable.place, start, List.length_map, ← same, Option.bind_eq_bind,
    Option.pure_def, Option.map_bind]
  congr 1
  funext index
  simp [List.map_set]

theorem foldlM_place_plain (pending items : List CopiedItem) :
    (pending.foldlM place items).map (List.map CopiedItem.plain) =
      (pending.map CopiedItem.plain).foldlM VHashTable.place (items.map CopiedItem.plain) := by
  induction pending generalizing items with
  | nil => rfl
  | cons item rest inductionHypothesis =>
    simp only [List.map_cons, List.foldlM_cons, Option.bind_eq_bind, ← place_plain,
      Option.map_bind, Option.bind_map]
    congr 1
    funext middle
    exact inductionHypothesis middle

theorem rehash_plain (table : CopiedTable) :
    (rehash table).map plain = VHashTable.rehash table.plain := by
  have copied := foldlM_place_plain table.items
    (List.replicate (2 * table.items.length) CopiedItem.empty)
  have blank : (List.replicate (2 * table.items.length) CopiedItem.empty).map CopiedItem.plain =
      List.replicate (2 * table.plain.capacity) VHashItem.empty := by
    simp [plain, VHashTable.capacity, CopiedItem.plain, CopiedItem.empty, VHashItem.empty]
  rw [blank] at copied
  rw [VHashTable.rehash]
  show _ = (table.items.map CopiedItem.plain).foldlM _ _ >>= _
  rw [← copied]
  simp only [rehash, Option.bind_eq_bind, Option.pure_def, Option.map_bind, Option.bind_map]
  rfl

theorem grow_plain (table : CopiedTable) :
    (grow table).map plain = VHashTable.grow table.plain := by
  have length : table.plain.capacity = table.items.length := by
    simp [plain, VHashTable.capacity]
  rw [grow, VHashTable.grow, length]
  show _ = if table.items.length ≤ table.count then _ else _
  split
  · exact rehash_plain table
  · rfl

theorem probe_plain (items : List CopiedItem) (key : CString) :
    probe items key = VHashTable.probe (items.map CopiedItem.plain) key := by
  simp only [probe, VHashTable.probe, VHashTable.home, List.length_map]
  exact search_map CopiedItem.plain (stopsAt key) items items.length _

/-! ## What a call can do -/

/-- A rehash makes, frees and hands out nothing. -/
theorem grow_else {table grown : CopiedTable} (returned : grow table = some grown) :
    grown.made = table.made ∧ grown.released = table.released ∧ grown.handed = table.handed := by
  unfold grow at returned
  split at returned
  · simp only [rehash, Option.bind_eq_bind, Option.bind_eq_some_iff, Option.pure_def,
      Option.some.injEq] at returned
    obtain ⟨items, _, rfl⟩ := returned
    exact ⟨rfl, rfl, rfl⟩
  · obtain rfl : table = grown := Option.some.inj returned
    exact ⟨rfl, rfl, rfl⟩

/-- What an insertion that returns has done. -/
theorem insert_cases {table after : CopiedTable} {key : CString}
    (returned : insert table key = some after) :
    ∃ grown index item, grow table = some grown ∧ probe grown.items key = some index ∧
      grown.items[index]? = some item ∧
      ((item.key = none ∧ after = { grown with
          items := grown.items.set index ⟨some (key, grown.made + 1), some grown.made, hash key⟩
          count := u64 (grown.count + 1)
          made := grown.made + 2 }) ∨
        (item.key ≠ none ∧ after = { grown with
          items := grown.items.set index { item with value := some grown.made }
          made := grown.made + 2
          released := grown.released ++ (grown.made + 1) :: item.value.toList })) := by
  simp only [insert, Option.bind_eq_bind, Option.bind_eq_some_iff, Option.pure_def] at returned
  obtain ⟨grown, hasGrown, index, stopped, item, read, result⟩ := returned
  refine ⟨grown, index, item, hasGrown, stopped, read, ?_⟩
  by_cases vacant : item.key = none
  · simp only [vacant, ↓reduceIte, Option.some.injEq] at result
    exact Or.inl ⟨vacant, result.symm⟩
  · simp only [vacant, ↓reduceIte, Option.some.injEq] at result
    exact Or.inr ⟨vacant, result.symm⟩

/-- What a removal that returns has done. -/
theorem remove_cases {table after : CopiedTable} {key : CString} {result : Option Nat}
    (returned : remove table key = some (result, after)) :
    ∃ index item, probe table.items key = some index ∧ table.items[index]? = some item ∧
      ((item.key = none ∧ result = none ∧ after = table) ∨
        ∃ named copy, item.key = some (named, copy) ∧ result = item.value ∧ after = { table with
          items := table.items.set index { item with key := none }
          count := u64 (table.count + (2 ^ 64 - 1))
          released := table.released ++ [copy]
          handed := table.handed ++ item.value.toList }) := by
  simp only [remove, Option.bind_eq_bind, Option.bind_eq_some_iff, Option.pure_def] at returned
  obtain ⟨index, stopped, item, read, outcome⟩ := returned
  refine ⟨index, item, stopped, read, ?_⟩
  cases keyed : item.key with
  | none =>
    simp only [keyed, Option.some.injEq, Prod.mk.injEq] at outcome
    exact Or.inl ⟨rfl, outcome.1.symm, outcome.2.symm⟩
  | some pair =>
    obtain ⟨named, copy⟩ := pair
    simp only [keyed, Option.some.injEq, Prod.mk.injEq] at outcome
    exact Or.inr ⟨named, copy, rfl, outcome.1.symm, outcome.2.symm⟩

/-- An insertion is one into the table behind the copies; the value is its copy's number. -/
theorem insert_plain {table after : CopiedTable} {key : CString}
    (returned : insert table key = some after) :
    VHashTable.insert table.plain key table.made = some after.plain := by
  obtain ⟨grown, index, item, hasGrown, stopped, read, outcome⟩ := insert_cases returned
  have plainGrown : VHashTable.grow table.plain = some grown.plain := by
    rw [← grow_plain, hasGrown]
    rfl
  have plainStopped : VHashTable.probe grown.plain.items key = some index := by
    rw [← stopped, probe_plain]
    rfl
  have plainRead : grown.plain.items[index]? = some item.plain := by
    simp [plain, List.getElem?_map, read]
  obtain ⟨made, _, _⟩ := grow_else hasGrown
  simp only [VHashTable.insert, plainGrown, plainStopped, plainRead, Option.bind_eq_bind,
    Option.bind_some, plain_empty, ← made]
  rcases outcome with ⟨vacant, rfl⟩ | ⟨occupied, rfl⟩
  · simp [vacant, plain, List.map_set, CopiedItem.plain]
  · simp [occupied, plain, List.map_set, CopiedItem.plain]

/-- A removal is one from the table behind the copies. -/
theorem remove_plain {table after : CopiedTable} {key : CString} {result : Option Nat}
    (returned : remove table key = some (result, after)) :
    VHashTable.remove table.plain key = some (result, after.plain) := by
  obtain ⟨index, item, stopped, read, outcome⟩ := remove_cases returned
  have plainStopped : VHashTable.probe table.plain.items key = some index := by
    rw [← stopped, probe_plain]
    rfl
  have plainRead : table.plain.items[index]? = some item.plain := by
    simp [plain, List.getElem?_map, read]
  simp only [VHashTable.remove, plainStopped, plainRead, Option.bind_eq_bind,
    Option.bind_some, plain_empty]
  rcases outcome with ⟨vacant, rfl, rfl⟩ | ⟨named, copy, keyed, rfl, rfl⟩
  · simp [vacant]
  · simp [keyed, plain, List.map_set, CopiedItem.plain]

/-! ## The ledger -/

/-- How often a copy is in the slots. -/
def held (items : List CopiedItem) (copy : Nat) : Nat :=
  (items.flatMap CopiedItem.copies).count copy

theorem held_set {items : List CopiedItem} {index : Nat} {old : CopiedItem} (item : CopiedItem)
    (read : items[index]? = some old) (copy : Nat) :
    held (items.set index item) copy + old.copies.count copy =
      held items copy + item.copies.count copy := by
  induction items generalizing index with
  | nil => simp at read
  | cons head rest inductionHypothesis =>
    cases index with
    | zero =>
      obtain rfl : head = old := Option.some.inj read
      simp only [held, List.set_cons_zero, List.flatMap_cons, List.count_append]
      omega
    | succ index =>
      have others := inductionHypothesis (show rest[index]? = some old by simpa using read)
      simp only [held, List.set_cons_succ, List.flatMap_cons, List.count_append] at others ⊢
      omega

/-- A slot with neither key nor value holds no copies. -/
theorem copies_vacant {item : CopiedItem} (vacant : item.key = none) (clear : item.value = none)
    (copy : Nat) : item.copies.count copy = 0 := by
  simp [CopiedItem.copies, vacant, clear]

/-- The copying loop moves every copy, and no copy is overwritten while slots without a key
hold no value. -/
theorem foldlM_place_held (pending items after : List CopiedItem)
    (clearPending : ∀ item ∈ pending, item.key = none → item.value = none)
    (clear : ∀ item ∈ items, item.key = none → item.value = none)
    (copied : pending.foldlM place items = some after) :
    (∀ copy, held after copy = held items copy + held pending copy) ∧
      ∀ item ∈ after, item.key = none → item.value = none := by
  induction pending generalizing items with
  | nil =>
    obtain rfl : items = after := Option.some.inj copied
    exact ⟨fun copy => by simp [held], clear⟩
  | cons item rest inductionHypothesis =>
    simp only [List.foldlM_cons, place, Option.bind_eq_bind, Option.bind_eq_some_iff,
      Option.pure_def, Option.some.injEq] at copied
    obtain ⟨_, ⟨index, stopped, rfl⟩, remaining⟩ := copied
    obtain ⟨old, read, empty⟩ := search_stops stopped
    have vacant : old.key = none := (plain_empty old).mp empty
    have oldClear := clear old (List.mem_of_getElem? read) vacant
    have placed : ∀ tested ∈ items.set index item, tested.key = none → tested.value = none := by
      intro tested member
      rcases List.mem_or_eq_of_mem_set member with before | rfl
      · exact clear tested before
      · exact clearPending tested List.mem_cons_self
    obtain ⟨moved, clearAfter⟩ := inductionHypothesis (items.set index item)
      (fun other member => clearPending other (List.mem_cons_of_mem _ member)) placed remaining
    refine ⟨?_, clearAfter⟩
    intro copy
    have replaced := held_set item read copy
    rw [copies_vacant vacant oldClear, Nat.add_zero] at replaced
    rw [moved, replaced, Nat.add_assoc]
    simp [held]

/-- The growth test moves every copy. -/
theorem grow_held {table grown : CopiedTable} (clear : NoStray table)
    (returned : grow table = some grown) :
    (∀ copy, held grown.items copy = held table.items copy) ∧ NoStray grown := by
  unfold grow at returned
  split at returned
  · simp only [rehash, Option.bind_eq_bind, Option.bind_eq_some_iff, Option.pure_def,
      Option.some.injEq] at returned
    obtain ⟨items, copied, rfl⟩ := returned
    have blank : ∀ item ∈ List.replicate (2 * table.items.length) CopiedItem.empty,
        item.key = none → item.value = none := by
      intro item member _
      rw [List.eq_of_mem_replicate member]
      rfl
    obtain ⟨moved, clearAfter⟩ := foldlM_place_held _ _ _ clear blank copied
    refine ⟨fun copy => ?_, clearAfter⟩
    have none_held : held (List.replicate (2 * table.items.length) CopiedItem.empty) copy = 0 := by
      simp [held, List.flatMap_replicate, CopiedItem.copies, CopiedItem.empty]
    rw [moved, none_held, Nat.zero_add]
  · obtain rfl : table = grown := Option.some.inj returned
    exact ⟨fun _ => rfl, clear⟩

theorem releasedOnce_iff (table : CopiedTable) :
    ReleasedOnce table ↔ ∀ copy, table.handed.count copy + table.released.count copy +
      held table.items copy = if copy < table.made then 1 else 0 := by
  simp only [ReleasedOnce, free, List.count_append, held, Nat.add_assoc]

/-- While nothing has been removed: the table is sound, slots without a key are clear, and
every copy is in one place. -/
structure Ledger (table : CopiedTable) : Prop where
  sound : ∃ meaning, Represents table.plain.items meaning
  clear : NoStray table
  once : ReleasedOnce table

theorem init_plain (capacity : Nat) : (init capacity).plain = VHashTable.init capacity := by
  simp [plain, init, VHashTable.init, CopiedItem.plain, CopiedItem.empty, VHashItem.empty]

theorem init_ledger (capacity : Nat) : Ledger (init capacity) where
  sound := ⟨fun _ => none, init_plain capacity ▸ init_represents capacity⟩
  clear := by
    intro item member _
    rw [List.eq_of_mem_replicate member]
    rfl
  once := by
    intro copy
    simp [free, init, List.flatMap_replicate, CopiedItem.copies, CopiedItem.empty]

/-- An insertion makes two copies; it stores both, or frees one and what the other
replaces. -/
theorem Ledger.insert {table after : CopiedTable} {key : CString} (ledger : Ledger table)
    (returned : CopiedTable.insert table key = some after) : Ledger after := by
  obtain ⟨⟨meaning, represents⟩, clear, once⟩ := ledger
  have plainReturned := insert_plain returned
  obtain ⟨grown, index, item, hasGrown, _, read, outcome⟩ := insert_cases returned
  obtain ⟨moved, clearGrown⟩ := grow_held clear hasGrown
  obtain ⟨made, released, handed⟩ := grow_else hasGrown
  have member : item ∈ grown.items := List.mem_of_getElem? read
  refine ⟨⟨_, insert_represents represents plainReturned⟩, ?_, ?_⟩
  · rcases outcome with ⟨_, rfl⟩ | ⟨occupied, rfl⟩ <;> intro tested found <;>
      rcases List.mem_or_eq_of_mem_set found with before | rfl
    · exact clearGrown tested before
    · intro vacant
      cases vacant
    · exact clearGrown tested before
    · exact fun vacant => absurd vacant occupied
  · rw [releasedOnce_iff] at once ⊢
    intro copy
    have before := once copy
    rw [← moved, ← released, ← handed, ← made] at before
    rcases outcome with ⟨vacant, rfl⟩ | ⟨_, rfl⟩
    · have stored := held_set ⟨some (key, grown.made + 1), some grown.made, hash key⟩ read copy
      rw [copies_vacant vacant (clearGrown item member vacant)] at stored
      simp only [CopiedItem.copies, Option.map_some, Option.toList_some, List.cons_append,
        List.nil_append, List.count_cons, List.count_nil, beq_iff_eq] at stored ⊢
      split at before <;> split at stored <;> split at stored <;> split <;> omega
    · have stored := held_set { item with value := some grown.made } read copy
      simp only [CopiedItem.copies, List.count_append, Option.toList_some, List.count_cons,
        List.count_nil, beq_iff_eq] at stored ⊢
      split at before <;> split at stored <;> split <;> split <;> omega

/-- A removal of a key that no slot has changes nothing. -/
theorem remove_unchanged {table after : CopiedTable} {key : CString} {result : Option Nat}
    (absent : Absent table.plain.items key) (returned : remove table key = some (result, after)) :
    after = table := by
  obtain ⟨index, item, stopped, read, outcome⟩ := remove_cases returned
  rcases outcome with ⟨_, _, rfl⟩ | ⟨named, copy, keyed, _, _⟩
  · rfl
  · obtain ⟨other, again, satisfied⟩ := search_stops stopped
    obtain rfl : item = other := Option.some.inj (read.symm.trans again)
    have same : item.plain.key = some key := by
      simpa [stopsAt, itemIsEmpty, CopiedItem.plain, keyed] using satisfied
    exact absurd ⟨item.plain, by simp [plain, List.getElem?_map, read], same⟩ (absent index)

/-- A removal that finds its key leaves a value in a slot without one. -/
theorem Ledger.absent_of_noStray {table after : CopiedTable} {key : CString}
    {result : Option Nat} (ledger : Ledger table) (returned : remove table key = some (result, after))
    (clear : NoStray after) : Absent table.plain.items key := by
  obtain ⟨meaning, represents⟩ := ledger.sound
  intro place holds
  have probed := represents.1.probe_held holds
  obtain ⟨found, again, sameKey⟩ := holds
  obtain ⟨index, item, stopped, read, outcome⟩ := remove_cases returned
  rw [probe_plain] at stopped
  obtain rfl : place = index := Option.some.inj (probed.symm.trans stopped)
  have plainRead : table.plain.items[place]? = some item.plain := by
    simp [plain, List.getElem?_map, read]
  obtain rfl : found = item.plain := Option.some.inj (again.symm.trans plainRead)
  have valued : item.value ≠ none := represents.1.filled place _ plainRead (by simp [sameKey])
  have inside : place < table.items.length := (List.getElem?_eq_some_iff.mp read).1
  rcases outcome with ⟨vacant, _, _⟩ | ⟨_, _, _, _, rfl⟩
  · simp [CopiedItem.plain, vacant] at sameKey
  · exact valued (clear { item with key := none } (List.mem_set inside _) rfl)

/-- Every copy is released once in the end, and slots without a key hold no value all along
a run, exactly when no removal of the run asks for a key that the table has. The slots are fewer
than 2^31, as the s32 indices of `VHashTable_Rehash` and `VHashTable_Free` count them. -/
theorem copies_released_iff {capacity : Nat} {trace : List (Call Unit)} {table : CopiedTable}
    (run : Run apply anywhere (init capacity) trace table) :
    (ReleasedOnce table ∧ ∀ earlier reached, earlier <+: trace →
      Run apply anywhere (init capacity) earlier reached → NoStray reached) ↔
      Run apply NothingRemoved (init capacity) trace table := by
  have preserved : ∀ before call after, Ledger before → NothingRemoved before call →
      apply before call = some after → Ledger after := by
    intro before call after ledger nothing taken
    cases call with
    | insert key _ => exact ledger.insert taken
    | remove key =>
      simp only [apply, Option.map_eq_some_iff, Prod.exists] at taken
      obtain ⟨_, _, removed, rfl⟩ := taken
      exact (remove_unchanged nothing removed).symm ▸ ledger
  have always := run.always_iff NoStray Ledger (init_ledger capacity)
    (fun _ ledger => ledger.clear) preserved (by
      intro before call after ledger taken clear
      cases call with
      | insert key _ => trivial
      | remove key =>
        simp only [apply, Option.map_eq_some_iff, Prod.exists] at taken
        obtain ⟨_, _, removed, rfl⟩ := taken
        exact ledger.absent_of_noStray removed clear)
  rw [always]
  constructor
  · rintro ⟨_, nothing⟩
    exact nothing
  · intro nothing
    exact ⟨(nothing.invariant Ledger (init_ledger capacity) preserved).once, nothing⟩

/-- A key is removed and its value freed by the caller; freeing the table frees the value
again. -/
theorem removed_value_is_freed_twice :
    ¬ ∀ (capacity : Nat) (trace : List (Call Unit)) (table : CopiedTable),
      Run apply anywhere (init capacity) trace table → ReleasedOnce table := by
  intro always
  have once := always 1 [.insert aKey (), .remove aKey] ⟨[⟨none, some 0, 177670⟩], 0, 2, [1], [0]⟩
    (Run.of_foldlM (by decide))
  exact absurd (once 0) (by decide)

/-- A value that is replaced is freed once, by the insertion that replaces it. -/
theorem copies_released_replaced :
    ReleasedOnce ⟨[⟨some (aKey, 1), some 2, 177670⟩, CopiedItem.empty], 1, 4, [3, 0], []⟩ := by
  have run : Run apply NothingRemoved (init 2)
      ([] ++ [Call.insert aKey ()] ++ [.insert aKey ()])
      ⟨[⟨some (aKey, 1), some 2, 177670⟩, CopiedItem.empty], 1, 4, [3, 0], []⟩ :=
    Run.next (Run.next Run.start trivial rfl) trivial (by decide)
  exact ((copies_released_iff (run.weaken (fun _ _ _ => trivial))).mpr run).1

end CopiedTable

end VHttp.VHashTable
