import VHttp.Foundations.CString
import VHttp.Foundations.Probing

/-!
# The open-addressing hash table of vhash_table.c

A table is an array of items, probed linearly from `Hash mod Capacity`. A slot
is empty when its key pointer is NULL; its value and hash fields may still hold
what they held before a removal. The capacity is the length of the item array,
so it is not stored a second time. The value type is left open, as the source
leaves it to the caller; keys are C strings, copied on insertion.

`Count` is a u64 that the source keeps by hand: `rehash` sets it to zero, and
`remove` may take it below zero, where it wraps. Capacities and array indices are
naturals; the s32 with which `VHashTable_Rehash` goes through the items counts fewer
than 2^31 of them (`rehash_indexed`), and larger tables, of more than 50 GB, are outside
the model. Allocation always succeeds. No result from an operation means that its probe
loop never ends.
-/

namespace VHttp

/-- `vhash_item`: a NULL key marks an empty slot. -/
structure VHashItem (V : Type) where
  key : Option CString
  value : Option V
  hash : UInt64
  deriving DecidableEq

/-- A slot as calloc leaves it. -/
def VHashItem.empty {V : Type} : VHashItem V := ⟨none, none, 0⟩

/-- `struct vhash_table`. -/
structure VHashTable (V : Type) where
  items : List (VHashItem V)
  count : Nat
  deriving DecidableEq

namespace VHashTable

open Circular Probing

variable {V : Type}

/-- `INIT_V_HASH_TABLE_CAPACITY`. -/
def initCapacity : Nat := 16

/-- The value a u64 keeps of a natural number. -/
def u64 (value : Nat) : Nat := value % 2 ^ 64

def capacity (table : VHashTable V) : Nat := table.items.length

/-- `VHashTable_Init`: capacity zero asks for the default. -/
def init (capacity : Nat) : VHashTable V :=
  ⟨List.replicate (if capacity = 0 then initCapacity else capacity) VHashItem.empty, 0⟩

/-- `VHashTable_Hash`: djb2 over the key's bytes, in 64-bit arithmetic. -/
def hash (key : CString) : UInt64 :=
  key.val.foldl (fun hash byte => ((hash <<< 5) + hash) + byte.toUInt64) 5381

/-- `VHashTable_ItemIsEmpty`. -/
def itemIsEmpty (item : VHashItem V) : Bool := item.key.isNone

/-- Where a probe for an item of this hash starts. -/
def home (items : List (VHashItem V)) (hash : UInt64) : Nat := hash.toNat % items.length

/-- The probe loops of insert, get and remove stop at an empty slot or at an
equal key. -/
def stopsAt (key : CString) (item : VHashItem V) : Bool :=
  itemIsEmpty item || decide (item.key = some key)

/-- Probe for a key from its own home; one turn of the array is enough. -/
def probe (items : List (VHashItem V)) (key : CString) : Option Nat :=
  search (stopsAt key) items items.length (home items (hash key))

/-- One round of the copying loop of `VHashTable_Rehash`: the item goes to the
first empty slot from its home under the new capacity. Empty items are copied
like any others. -/
def place (items : List (VHashItem V)) (item : VHashItem V) : Option (List (VHashItem V)) := do
  let index ← search itemIsEmpty items items.length (home items item.hash)
  pure (items.set index item)

/-- `VHashTable_Rehash`: twice the capacity, every item moved in array order.
The count is reset and not restored. -/
def rehash (table : VHashTable V) : Option (VHashTable V) := do
  let items ← table.items.foldlM place (List.replicate (2 * table.capacity) VHashItem.empty)
  pure ⟨items, 0⟩

/-- A loop over the items whose index is an s32, which has no result once it overflows. -/
def indexedLoop {Item State : Type} (body : State → Item → Option State) :
    Nat → List Item → State → Option State
  | index, [], state => do
    guard (index < 2 ^ 31)
    some state
  | index, item :: rest, state => do
    guard (index < 2 ^ 31)
    let next ← body state item
    indexedLoop body (index + 1) rest next

/-- Over fewer than 2^31 items it is the loop without an index. -/
theorem indexedLoop_eq {Item State : Type} (body : State → Item → Option State) {index : Nat}
    {items : List Item} (short : index + items.length < 2 ^ 31) (state : State) :
    indexedLoop body index items state = items.foldlM body state := by
  have int : index < 2 ^ 31 := by omega
  induction items generalizing index state with
  | nil =>
    simp only [indexedLoop, guard, int, ↓reduceIte, Option.bind_eq_bind, Option.pure_def,
      Option.bind_some, List.foldlM_nil]
  | cons item rest inductionHypothesis =>
    rw [List.length_cons] at short
    have later := fun next => inductionHypothesis (by omega : index + 1 + rest.length < 2 ^ 31)
      next (by omega)
    simp only [indexedLoop, guard, int, ↓reduceIte, Option.bind_eq_bind, Option.pure_def,
      Option.bind_some, List.foldlM_cons, later]

/-- With the index of the source a table of fewer than 2^31 slots is rehashed the same way. -/
theorem rehash_indexed {table : VHashTable V} (short : table.capacity < 2 ^ 31) :
    rehash table = (indexedLoop place 0 table.items
      (List.replicate (2 * table.capacity) VHashItem.empty)).map (fun items => ⟨items, 0⟩) := by
  rw [rehash, indexedLoop_eq place ((Nat.zero_add _).symm ▸ short), Option.map_eq_bind]
  rfl

/-- The growth test that opens `VHashTable_Insert`. -/
def grow (table : VHashTable V) : Option (VHashTable V) :=
  if table.capacity ≤ table.count then rehash table else some table

/-- `VHashTable_Insert`, which returns true whenever it returns. An equal key
keeps its slot and its hash, and gets the new value. -/
def insert (table : VHashTable V) (key : CString) (value : V) : Option (VHashTable V) := do
  let grown ← grow table
  let index ← probe grown.items key
  let item ← grown.items[index]?
  if itemIsEmpty item then
    pure ⟨grown.items.set index ⟨some key, some value, hash key⟩, u64 (grown.count + 1)⟩
  else
    pure { grown with items := grown.items.set index { item with value := some value } }

/-- `VHashTable_Get`: the outer result is whether the loop ends, the inner one
the pointer returned. -/
def get (table : VHashTable V) (key : CString) : Option (Option V) := do
  let index ← probe table.items key
  let item ← table.items[index]?
  pure (if itemIsEmpty item then none else item.value)

/-- `VHashTable_Remove`: the key is dropped and the slot becomes empty at once;
its value pointer is returned and left in the slot. -/
def remove (table : VHashTable V) (key : CString) : Option (Option V × VHashTable V) := do
  let index ← probe table.items key
  let item ← table.items[index]?
  if itemIsEmpty item then
    pure (none, table)
  else
    pure (item.value,
      ⟨table.items.set index { item with key := none }, u64 (table.count + (2 ^ 64 - 1))⟩)

/-- A call that changes a table. -/
inductive Call (V : Type) where
  | insert (key : CString) (value : V)
  | remove (key : CString)

/-- The table after a call that returns. -/
def apply (table : VHashTable V) : Call V → Option (VHashTable V)
  | .insert key value => insert table key value
  | .remove key => (remove table key).map Prod.snd

/-- The slot at `index` has a key. -/
def Occupied (items : List (VHashItem V)) (index : Nat) : Prop :=
  ∃ item, items[index]? = some item ∧ item.key ≠ none

/-- The slot at `index` has this key. -/
def Holds (items : List (VHashItem V)) (index : Nat) (key : CString) : Prop :=
  ∃ item, items[index]? = some item ∧ item.key = some key

/-- Some slot maps this key to this value. -/
def Stored (items : List (VHashItem V)) (key : CString) (value : V) : Prop :=
  ∃ (index : Nat) (item : VHashItem V), items[index]? = some item ∧
    item.key = some key ∧ item.value = some value

theorem Holds.occupied {items : List (VHashItem V)} {index : Nat} {key : CString}
    (holds : Holds items index key) : Occupied items index := by
  obtain ⟨item, read, same⟩ := holds
  exact ⟨item, read, by simp [same]⟩

theorem Occupied.lt {items : List (VHashItem V)} {index : Nat}
    (occupied : Occupied items index) : index < items.length := by
  obtain ⟨item, read, _⟩ := occupied
  exact (List.getElem?_eq_some_iff.mp read).1

theorem home_lt (items : List (VHashItem V)) (hash : UInt64) (positive : 0 < items.length) :
    home items hash < items.length :=
  Nat.mod_lt _ positive

@[simp] theorem capacity_init (capacity : Nat) :
    (init capacity : VHashTable V).items.length =
      if capacity = 0 then initCapacity else capacity := by
  simp [init]

/-- The initial array has at least one slot, whatever capacity was asked for. -/
theorem init_positive (capacity : Nat) : 0 < (init capacity : VHashTable V).items.length := by
  rw [capacity_init]
  split
  · decide
  · omega

/-- A probe for a key passes exactly over the slots of other keys. -/
theorem not_stops_iff (items : List (VHashItem V)) (key : CString) (index : Nat)
    (inside : index < items.length) :
    ¬ Stops (stopsAt key) items index ↔ Occupied items index ∧ ¬ Holds items index key := by
  have read : items[index]? = some items[index] := List.getElem?_eq_getElem inside
  simp only [Stops, Occupied, Holds, read, Option.some.injEq, exists_eq_left', stopsAt, itemIsEmpty,
    Bool.or_eq_true, Option.isNone_iff_eq_none, decide_eq_true_eq, not_or, ne_eq]

/-- A copying probe passes exactly over occupied slots. -/
theorem not_empty_iff (items : List (VHashItem V)) (index : Nat) (inside : index < items.length) :
    ¬ Stops itemIsEmpty items index ↔ Occupied items index := by
  have read : items[index]? = some items[index] := List.getElem?_eq_getElem inside
  simp [Stops, Occupied, read, itemIsEmpty]

/-- Where a probe for a key stops, and what it passed on the way. -/
theorem probe_cases {items : List (VHashItem V)} {key : CString} {index : Nat}
    (positive : 0 < items.length) (stopped : probe items key = some index) :
    ∃ item, items[index]? = some item ∧ (item.key = none ∨ item.key = some key) ∧
      Chained (fun nearer => Occupied items nearer ∧ ¬ Holds items nearer key)
        items.length (home items (hash key)) index := by
  have homeInside := home_lt items (hash key) positive
  obtain ⟨inside, ⟨item, read, satisfied⟩, chained⟩ := search_spec homeInside stopped
  refine ⟨item, read, by simpa [stopsAt, itemIsEmpty] using satisfied, ?_⟩
  intro nearer closer
  exact (not_stops_iff items key _ (slot_lt _ _ _ positive)).mp (chained nearer closer)

/-- What the growth test has done: the items are copied into an array of twice the size, with
the count at zero, or the table stays as it is. -/
theorem grow_cases {table grown : VHashTable V} (returned : grow table = some grown) :
    (table.capacity ≤ table.count ∧ grown.count = 0 ∧
      table.items.foldlM place (List.replicate (2 * table.capacity) VHashItem.empty) =
        some grown.items) ∨
      table.count < table.capacity ∧ grown = table := by
  unfold grow at returned
  split at returned
  · rename_i crowded
    simp only [rehash, Option.bind_eq_bind, Option.bind_eq_some_iff, Option.pure_def,
      Option.some.injEq] at returned
    obtain ⟨items, copied, rfl⟩ := returned
    exact Or.inl ⟨crowded, rfl, copied⟩
  · rename_i room
    exact Or.inr ⟨Nat.lt_of_not_le room, (Option.some.inj returned).symm⟩

/-- What an insertion that returns has done: after the growth test, the probe
stopped at an empty slot, which is filled, or at the key's own slot, whose value
is replaced. -/
theorem insert_cases {table after : VHashTable V} {key : CString} {value : V}
    (returned : insert table key value = some after) :
    ∃ grown index item, grow table = some grown ∧ probe grown.items key = some index ∧
      grown.items[index]? = some item ∧
      ((item.key = none ∧
          after = ⟨grown.items.set index ⟨some key, some value, hash key⟩, u64 (grown.count + 1)⟩) ∨
        (item.key ≠ none ∧
          after = ⟨grown.items.set index { item with value := some value }, grown.count⟩)) := by
  simp only [insert, Option.bind_eq_bind, Option.bind_eq_some_iff, Option.pure_def] at returned
  obtain ⟨grown, hasGrown, index, stopped, item, read, result⟩ := returned
  refine ⟨grown, index, item, hasGrown, stopped, read, ?_⟩
  by_cases vacant : item.key = none
  · left
    simp only [itemIsEmpty, vacant, Option.isNone_none, ↓reduceIte, Option.some.injEq] at result
    exact ⟨vacant, result.symm⟩
  · right
    have taken : itemIsEmpty item = false := by
      simpa [itemIsEmpty, Option.isSome_iff_ne_none] using vacant
    simp only [taken, Bool.false_eq_true, ↓reduceIte, Option.some.injEq] at result
    exact ⟨vacant, result.symm⟩

/-- What a removal that returns has done. -/
theorem remove_cases {table after : VHashTable V} {key : CString} {result : Option V}
    (returned : remove table key = some (result, after)) :
    ∃ index item, probe table.items key = some index ∧ table.items[index]? = some item ∧
      ((item.key = none ∧ result = none ∧ after = table) ∨
        (item.key ≠ none ∧ result = item.value ∧
          after = ⟨table.items.set index { item with key := none },
            u64 (table.count + (2 ^ 64 - 1))⟩)) := by
  simp only [remove, Option.bind_eq_bind, Option.bind_eq_some_iff, Option.pure_def] at returned
  obtain ⟨index, stopped, item, read, outcome⟩ := returned
  refine ⟨index, item, stopped, read, ?_⟩
  by_cases vacant : item.key = none
  · left
    simp only [itemIsEmpty, vacant, Option.isNone_none, ↓reduceIte, Option.some.injEq,
      Prod.mk.injEq] at outcome
    exact ⟨vacant, outcome.1.symm, outcome.2.symm⟩
  · right
    have taken : itemIsEmpty item = false := by
      simpa [itemIsEmpty, Option.isSome_iff_ne_none] using vacant
    simp only [taken, Bool.false_eq_true, ↓reduceIte, Option.some.injEq, Prod.mk.injEq] at outcome
    exact ⟨vacant, outcome.1.symm, outcome.2.symm⟩

end VHashTable

end VHttp
