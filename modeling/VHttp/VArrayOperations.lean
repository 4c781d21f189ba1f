import Mathlib.Tactic.Ring
import VHttp.Foundations.Slots
import VHttp.VArray

/-!
# The operations of varray.h on an allocated block

The header of an array keeps a capacity of its own, and the block behind it has as many slots as
calloc and realloc were asked for. What they are asked for is computed in 64 bits. Where the size
of the items wraps there, the block has fewer slots than the header says, and the array is only
kept from running over by its capacity.

calloc and realloc may fail, and no object is larger than 2^63 - 1 bytes. An assertion that fails
ends the program. The items and indices that the macros are given are values.
-/

namespace VHttp

open Slots

/-- A `varray_header` and the item slots that lie in its block. -/
structure VArrayBlock (α : Type) where
  slots : List α
  count : Nat
  capacity : Nat
  growable : Bool
  deriving DecidableEq

namespace VArrayBlock

variable {α : Type}

/-- A block that has its size is the array of its header. -/
def toVArray (block : VArrayBlock α) : VArray α := ⟨block.slots, block.count, block.growable⟩

/-- The array that a function or a macro leaves, if the program has not ended. -/
inductive Outcome (α : Type) where
  | array (block : VArrayBlock α)
  | aborted
  deriving DecidableEq

/-- `sizeof(varray_header)`. -/
def headerSize : Nat := 32

/-- Whether the allocator gives a block that it could give. -/
def grants (granted : Bool) (bytes : Nat) : Bool := granted && decide (bytes < 2 ^ 63)

/-- The size that `_VArray_Init` asks for. -/
def initSize (itemSize capacity : Nat) : Nat := (headerSize + itemSize * capacity) % 2 ^ 64

/-- `_VArray_Init`: calloc fills every slot with the all-zero item. -/
def init (itemSize capacity : Nat) (zero : α) (growable granted : Bool) : Option (Outcome α) :=
  let bytes := initSize itemSize capacity
  if grants granted bytes then do
    guard (headerSize ≤ bytes)
    pure (.array ⟨List.replicate ((bytes - headerSize) / itemSize) zero, 0, capacity, growable⟩)
  else some .aborted

/-- `VArray_Realloc` with `_VArray_Realloc`: `fresh` is what the new slots hold. -/
def realloc (itemSize : Nat) (block : VArrayBlock α) (fresh : Nat → α) (granted : Bool) :
    Option (Outcome α) :=
  let newCapacity := block.capacity * 2 % 2 ^ 64
  let bytes := (headerSize + newCapacity * itemSize) % 2 ^ 64
  if grants granted bytes then do
    guard (headerSize ≤ bytes)
    let size := (bytes - headerSize) / itemSize
    let slots := block.slots.take size ++ (List.range (size - block.slots.length)).map fresh
    pure (.array { block with slots := slots, capacity := newCapacity })
  else some .aborted

/-- The test of `VArray_Push` and `VArray_Insert`: a full array grows if it may, and otherwise
refuses the item with nothing but a warning. -/
def withRoom (itemSize : Nat) (block : VArrayBlock α) (fresh : Nat → α) (granted : Bool)
    (add : VArrayBlock α → Option (VArrayBlock α)) : Option (Outcome α) :=
  if block.capacity ≤ block.count ∧ block.growable = true then do
    match ← realloc itemSize block fresh granted with
    | .array grown => (add grown).map .array
    | .aborted => some .aborted
  else if block.capacity ≤ block.count ∧ block.growable = false then some (.array block)
  else (add block).map .array

/-- The end of `VArray_Push`. -/
def append (item : α) (block : VArrayBlock α) : Option (VArrayBlock α) := do
  let slots ← store block.slots block.count item
  pure { block with slots := slots, count := (block.count + 1) % 2 ^ 64 }

/-- The end of `VArray_Insert`. -/
def insertAt (item : α) (index : Nat) (block : VArrayBlock α) : Option (VArrayBlock α) := do
  let slots ← move block.slots (index + 1) index (block.count - index)
  let slots ← store slots index item
  pure { block with slots := slots, count := (block.count + 1) % 2 ^ 64 }

/-- `VArray_Push`. -/
def push (itemSize : Nat) (block : VArrayBlock α) (item : α) (fresh : Nat → α) (granted : Bool) :
    Option (Outcome α) :=
  withRoom itemSize block fresh granted (append item)

/-- `VArray_Insert`. -/
def insert (itemSize : Nat) (block : VArrayBlock α) (item : α) (index : Nat) (fresh : Nat → α)
    (granted : Bool) : Option (Outcome α) :=
  if index ≤ block.count then withRoom itemSize block fresh granted (insertAt item index)
  else some .aborted

/-- `Header->Count - 1`. -/
def lastIndex (block : VArrayBlock α) : Nat := (block.count + (2 ^ 64 - 1)) % 2 ^ 64

/-- `VArray_Remove`. -/
def remove (block : VArrayBlock α) (index : Nat) : Option (Outcome α) :=
  if index = block.lastIndex then some (.array { block with count := block.lastIndex })
  else if index < block.count then do
    let slots ← move block.slots index (index + 1) (block.count - index - 1)
    pure (.array { block with slots := slots, count := block.lastIndex })
  else some (.array block)

/-- `VArray_UnorderedRemove`. -/
def unorderedRemove (block : VArrayBlock α) (index : Nat) : Option (Outcome α) :=
  if index = block.lastIndex then some (.array { block with count := block.lastIndex })
  else if index < block.count then do
    let item ← block.slots[block.lastIndex]?
    let slots ← store block.slots index item
    pure (.array { block with slots := slots, count := block.lastIndex })
  else some (.array block)

/-- An operation, with the allocator's answer to it. -/
inductive Operation (α : Type) where
  | push (item : α) (fresh : Nat → α) (granted : Bool)
  | insert (item : α) (index : Nat) (fresh : Nat → α) (granted : Bool)
  | remove (index : Nat)
  | unorderedRemove (index : Nat)

/-- The index is below 2^64 - 1. -/
def Operation.InRange : Operation α → Prop
  | .remove index | .unorderedRemove index => index < 2 ^ 64 - 1
  | _ => True

/-- One operation; nothing follows the end of the program. -/
def step (itemSize : Nat) : Outcome α → Operation α → Option (Outcome α)
  | .aborted, _ => some .aborted
  | .array block, .push item fresh granted => push itemSize block item fresh granted
  | .array block, .insert item index fresh granted => insert itemSize block item index fresh granted
  | .array block, .remove index => remove block index
  | .array block, .unorderedRemove index => unorderedRemove block index

/-- An array is allocated, and operations follow. -/
def run (itemSize capacity : Nat) (zero : α) (growable granted : Bool)
    (operations : List (Operation α)) : Option (Outcome α) := do
  let outcome ← init itemSize capacity zero growable granted
  operations.foldlM (step itemSize) outcome

/-! ## The list that an array stands for -/

/-- The number of items that an array is bound to, if it does not grow. -/
def bound (growable : Bool) (capacity : Nat) : Option Nat :=
  if growable then none else some capacity

/-- A list that is bound and full. -/
def full (bound : Option Nat) (items : List α) : Bool :=
  bound.any fun capacity => decide (capacity ≤ items.length)

/-- What an operation does to a list. -/
def Operation.apply (bound : Option Nat) (items : List α) : Operation α → List α
  | .push item _ _ => if full bound items then items else items ++ [item]
  | .insert item index _ _ => if full bound items then items else items.insertIdx index item
  | .remove index => items.eraseIdx index
  | .unorderedRemove index => eraseUnordered items index

/-- An array that stands for a list: its first items are the list's, they survive a
reallocation, and where it is full and does not grow, adding changes nothing. -/
structure Represents (itemSize : Nat) (items : List α) (block : VArrayBlock α) : Prop where
  same : block.slots.take block.count = items
  count : block.count = items.length
  within : block.count ≤ block.capacity
  survives : ∀ fresh granted grown, realloc itemSize block fresh granted = some (.array grown) →
    grown.count = block.count ∧ grown.slots.take grown.count = items
  refuses : block.growable = false → block.capacity ≤ block.count →
    (∀ item fresh granted, push itemSize block item fresh granted = some (.array block)) ∧
    ∀ item index fresh granted, index ≤ block.count →
      insert itemSize block item index fresh granted = some (.array block)

/-- Whatever the allocator grants, an array stands for what the same operations make of the empty
list, and no operation leaves its block. -/
def ActsAsList (itemSize capacity : Nat) (zero : α) (growable : Bool) : Prop :=
  ∀ granted operations, (∀ operation ∈ operations, Operation.InRange operation) →
    ∃ outcome, run itemSize capacity zero growable granted operations = some outcome ∧
      ∀ block, outcome = .array block →
        Represents itemSize (operations.foldl (Operation.apply (bound growable capacity)) []) block

/-- The size of the block does not wrap in 64 bits, or only to a size that calloc refuses. -/
def Measured (itemSize capacity : Nat) : Prop :=
  headerSize + itemSize * capacity < 2 ^ 64 ∨ 2 ^ 63 ≤ initSize itemSize capacity

instance (itemSize capacity : Nat) : Decidable (Measured itemSize capacity) :=
  inferInstanceAs (Decidable (_ ∨ _))

/-! ## Arrays whose block has its size -/

/-- A block with the slots that its header tells, within the sizes of objects, which holds the
items of a list in front and is bound as its header tells. -/
structure Holds (itemSize : Nat) (limit : Option Nat) (items : List α) (block : VArrayBlock α) :
    Prop where
  slots : ∃ rest, block.slots = items ++ rest
  count : block.count = items.length
  exact : block.slots.length = block.capacity
  small : headerSize + itemSize * block.capacity < 2 ^ 63
  positive : 0 < block.capacity
  limit : limit = bound block.growable block.capacity

section Holds

variable {itemSize : Nat} {limit : Option Nat} {items : List α} {block : VArrayBlock α}

/-- A capacity is not more than its size in bytes. -/
theorem capacity_small (sized : 0 < itemSize) {capacity : Nat}
    (small : headerSize + itemSize * capacity < 2 ^ 63) : capacity < 2 ^ 63 := by
  have below := Nat.le_mul_of_pos_left capacity sized
  omega

theorem Holds.within (holds : Holds itemSize limit items block) :
    block.count ≤ block.capacity := by
  obtain ⟨rest, slots⟩ := holds.slots
  rw [← holds.exact, slots, holds.count, List.length_append]
  exact Nat.le_add_right _ _

theorem Holds.take (holds : Holds itemSize limit items block) :
    block.slots.take block.count = items := by
  obtain ⟨rest, slots⟩ := holds.slots
  rw [slots, holds.count, List.take_left]

/-- A list is full as its array is. -/
theorem Holds.full_iff (holds : Holds itemSize limit items block) :
    full limit items = true ↔ block.growable = false ∧ block.capacity ≤ block.count := by
  rw [holds.limit, full, bound, holds.count]
  cases block.growable <;> simp

/-- A reallocation that is granted doubles the slots behind those there are. -/
theorem Holds.realloc_cases (holds : Holds itemSize limit items block) (sized : 0 < itemSize)
    (fresh : Nat → α) (granted : Bool) :
    realloc itemSize block fresh granted = some .aborted ∨
      headerSize + itemSize * (block.capacity * 2) < 2 ^ 63 ∧
        realloc itemSize block fresh granted = some (.array { block with
          slots := block.slots ++ (List.range block.capacity).map fresh
          capacity := block.capacity * 2 }) := by
  have small := holds.small
  have few := capacity_small sized small
  have newCapacity : block.capacity * 2 % 2 ^ 64 = block.capacity * 2 := by
    rw [Nat.mod_eq_of_lt]
    omega
  have product : block.capacity * 2 * itemSize = 2 * (itemSize * block.capacity) := by ring
  have bytes : (headerSize + block.capacity * 2 * itemSize) % 2 ^ 64 =
      headerSize + block.capacity * 2 * itemSize := by
    rw [Nat.mod_eq_of_lt]
    rw [headerSize] at small ⊢
    omega
  have size : (headerSize + block.capacity * 2 * itemSize - headerSize) / itemSize =
      block.capacity * 2 := by
    rw [Nat.add_sub_cancel_left, Nat.mul_div_cancel _ sized]
  have kept : block.slots.take (block.capacity * 2) = block.slots := by
    rw [List.take_of_length_le]
    rw [holds.exact]
    omega
  have more : block.capacity * 2 - block.slots.length = block.capacity := by
    rw [holds.exact]
    omega
  by_cases given : grants granted (headerSize + block.capacity * 2 * itemSize) = true
  · refine Or.inr ⟨?_, ?_⟩
    · have below := of_decide_eq_true (Bool.and_eq_true_iff.mp given).2
      rw [Nat.mul_comm itemSize]
      exact below
    · simp only [realloc, newCapacity, bytes, given, ↓reduceIte, guard, Nat.le_add_right, size,
        kept, more, Option.bind_eq_bind, Option.pure_def, Option.bind_some]
  · refine Or.inl ?_
    simp only [realloc, newCapacity, bytes, given, ↓reduceIte, Bool.false_eq_true]

/-- The items survive it. -/
theorem Holds.survives (holds : Holds itemSize limit items block) (sized : 0 < itemSize)
    {fresh : Nat → α} {granted : Bool} {grown : VArrayBlock α}
    (moved : realloc itemSize block fresh granted = some (.array grown)) :
    grown.count = block.count ∧ grown.slots.take grown.count = items := by
  rcases holds.realloc_cases sized fresh granted with failed | ⟨_, doubled⟩
  · rw [failed] at moved
    cases moved
  · rw [doubled] at moved
    obtain rfl := Outcome.array.inj (Option.some.inj moved)
    obtain ⟨rest, slots⟩ := holds.slots
    refine ⟨rfl, ?_⟩
    simp only [slots, holds.count, List.append_assoc, List.take_left]

/-- So does the rest of what an array that grows promises, and it has room then. -/
theorem Holds.grow (holds : Holds itemSize limit items block) (sized : 0 < itemSize)
    (grows : block.growable = true) (fresh : Nat → α) (granted : Bool) :
    realloc itemSize block fresh granted = some .aborted ∨
      ∃ grown, realloc itemSize block fresh granted = some (.array grown) ∧
        Holds itemSize limit items grown ∧ grown.count < grown.capacity := by
  have within := holds.within
  have positive := holds.positive
  rcases holds.realloc_cases sized fresh granted with failed | ⟨small, doubled⟩
  · exact Or.inl failed
  · obtain ⟨rest, slots⟩ := holds.slots
    refine Or.inr ⟨_, doubled, ⟨⟨rest ++ (List.range block.capacity).map fresh, ?_⟩, holds.count,
      ?_, small, ?_, ?_⟩, ?_⟩
    · rw [slots, List.append_assoc]
    · have exact := holds.exact
      simp only [List.length_append, List.length_map, List.length_range]
      omega
    · exact Nat.mul_pos positive (Nat.succ_pos 1)
    · rw [holds.limit]
      simp only [bound, grows, ↓reduceIte]
    · show block.count < block.capacity * 2
      omega

/-- An operation that adds an item finds room, or the array is full and does not grow, or the
program ends. -/
theorem Holds.withRoom_cases (holds : Holds itemSize limit items block) (sized : 0 < itemSize)
    (fresh : Nat → α) (granted : Bool) (add : VArrayBlock α → Option (VArrayBlock α)) :
    (full limit items = true ∧ withRoom itemSize block fresh granted add = some (.array block)) ∨
    (full limit items = false ∧ (withRoom itemSize block fresh granted add = some .aborted ∨
      ∃ roomy, Holds itemSize limit items roomy ∧ roomy.count < roomy.capacity ∧
        withRoom itemSize block fresh granted add = (add roomy).map .array)) := by
  have isFull := holds.full_iff
  by_cases crowded : block.capacity ≤ block.count
  · cases grows : block.growable with
    | true =>
      refine Or.inr ⟨Bool.eq_false_iff.mpr fun filled => ?_, ?_⟩
      · have bounded := (isFull.mp filled).1
        rw [grows] at bounded
        cases bounded
      · rcases holds.grow sized grows fresh granted with failed | ⟨grown, moved, kept, room⟩
        · refine Or.inl ?_
          simp only [withRoom, crowded, grows, and_self, ↓reduceIte, failed, Option.bind_eq_bind,
            Option.bind_some]
        · refine Or.inr ⟨grown, kept, room, ?_⟩
          simp only [withRoom, crowded, grows, and_self, ↓reduceIte, moved, Option.bind_eq_bind,
            Option.bind_some]
    | false =>
      refine Or.inl ⟨isFull.mpr ⟨grows, crowded⟩, ?_⟩
      simp only [withRoom, crowded, grows, Bool.false_eq_true, and_false, and_self, ↓reduceIte]
  · refine Or.inr ⟨Bool.eq_false_iff.mpr fun filled => crowded (isFull.mp filled).2, Or.inr ?_⟩
    refine ⟨block, holds, Nat.lt_of_not_le crowded, ?_⟩
    simp only [withRoom, crowded, false_and, ↓reduceIte]

/-- Other items in the slots of the block. -/
theorem Holds.replace (holds : Holds itemSize limit items block) {others rest : List α}
    (size : (others ++ rest).length = block.slots.length) :
    Holds itemSize limit others
      { block with slots := others ++ rest, count := others.length } :=
  ⟨⟨rest, rfl⟩, rfl, size.trans holds.exact, holds.small, holds.positive, holds.limit⟩

/-- A free slot behind the items. -/
theorem Holds.free (holds : Holds itemSize limit items block)
    (room : block.count < block.capacity) : ∃ gap rest, block.slots = items ++ gap :: rest := by
  obtain ⟨rest, slots⟩ := holds.slots
  have nonempty : rest ≠ [] := by
    rintro rfl
    have exact := holds.exact
    rw [slots, List.append_nil, ← holds.count] at exact
    omega
  obtain ⟨gap, rest, rfl⟩ := List.exists_cons_of_ne_nil nonempty
  exact ⟨gap, rest, slots⟩

/-- The count does not wrap. -/
theorem Holds.next (holds : Holds itemSize limit items block) (sized : 0 < itemSize)
    (room : block.count < block.capacity) : (block.count + 1) % 2 ^ 64 = items.length + 1 := by
  have few := capacity_small sized holds.small
  rw [← holds.count, Nat.mod_eq_of_lt]
  omega

/-- An item is stored behind the others, if a slot is there. -/
theorem append_some (item : α) (inside : block.count < block.slots.length)
    (few : block.count + 1 < 2 ^ 64) : append item block = some { block with
      slots := block.slots.set block.count item
      count := block.count + 1 } := by
  simp only [append, store, inside, ↓reduceIte, Nat.mod_eq_of_lt few, Option.bind_eq_bind,
    Option.bind_some, Option.pure_def]

theorem Holds.append (holds : Holds itemSize limit items block) (sized : 0 < itemSize)
    (room : block.count < block.capacity) (item : α) :
    ∃ after, append item block = some after ∧ Holds itemSize limit (items ++ [item]) after := by
  obtain ⟨gap, rest, slots⟩ := holds.free room
  have few := capacity_small sized holds.small
  have stored : block.slots.set block.count item = items ++ [item] ++ rest := by
    rw [slots, holds.count, List.set_append_right _ _ (Nat.le_refl _), Nat.sub_self,
      List.set_cons_zero, List.append_assoc]
    rfl
  have size : (items ++ [item] ++ rest).length = block.slots.length := by
    rw [slots]
    simp
  have count : block.count + 1 = (items ++ [item]).length := by
    rw [holds.count, List.length_append, List.length_singleton]
  refine ⟨_, append_some item (holds.exact.symm ▸ room) (by omega), ?_⟩
  rw [stored, count]
  exact holds.replace size

theorem Holds.insertAt (holds : Holds itemSize limit items block) (sized : 0 < itemSize)
    (room : block.count < block.capacity) (item : α) {index : Nat}
    (inside : index ≤ block.count) :
    ∃ after, insertAt item index block = some after ∧
      Holds itemSize limit (items.insertIdx index item) after := by
  obtain ⟨gap, rest, slots⟩ := holds.free room
  have next := holds.next sized room
  rw [holds.count] at inside
  -- the items in front of the index, and those that move up
  obtain ⟨front, back, rfl, rfl⟩ : ∃ front back, items = front ++ back ∧ index = front.length :=
    ⟨items.take index, items.drop index, (List.take_append_drop _ _).symm, by
      rw [List.length_take, Nat.min_eq_left inside]⟩
  obtain ⟨free, moved⟩ := move_up front back rest gap
  have distance : block.count - front.length = back.length := by
    rw [holds.count, List.length_append, Nat.add_sub_cancel_left]
  have stored : store (front ++ free :: back ++ rest) front.length item =
      some (front ++ item :: back ++ rest) := by
    simp only [List.append_assoc, List.cons_append, store_behind]
  have size : (front ++ item :: back ++ rest).length = block.slots.length := by
    rw [slots]
    simp only [List.length_append, List.length_cons]
    omega
  rw [insertIdx_between]
  refine ⟨_, ?_, holds.replace size⟩
  have length : (front ++ item :: back).length = (front ++ back).length + 1 := by
    simp only [List.length_append, List.length_cons]
    omega
  simp only [VArrayBlock.insertAt, slots, distance, moved, stored, next, length,
    Option.bind_eq_bind, Option.bind_some, Option.pure_def]

/-- Count - 1, where there is an item. -/
theorem Holds.lastIndex {front : List α} {last : α}
    (holds : Holds itemSize limit (front ++ [last]) block) (sized : 0 < itemSize) :
    block.lastIndex = front.length := by
  have few := capacity_small sized holds.small
  have within := holds.within
  have count := holds.count
  rw [List.length_append, List.length_singleton] at count
  rw [VArrayBlock.lastIndex]
  omega

/-- The last item is dropped by the count alone. -/
theorem Holds.drop {front : List α} {last : α}
    (holds : Holds itemSize limit (front ++ [last]) block) (sized : 0 < itemSize) :
    Holds itemSize limit front { block with count := block.lastIndex } := by
  obtain ⟨rest, slots⟩ := holds.slots
  rw [List.append_assoc] at slots
  exact ⟨⟨_, slots⟩, holds.lastIndex sized, holds.exact, holds.small, holds.positive, holds.limit⟩

/-- An index that is out of range matches no item. -/
theorem Holds.outside (holds : Holds itemSize limit items block) (sized : 0 < itemSize)
    {index : Nat} (inRange : index < 2 ^ 64 - 1) (outside : items.length ≤ index) :
    index ≠ block.lastIndex ∧ ¬ index < block.count := by
  have few := capacity_small sized holds.small
  have within := holds.within
  rw [← holds.count] at outside
  rw [VArrayBlock.lastIndex]
  omega

theorem Holds.remove (holds : Holds itemSize limit items block) (sized : 0 < itemSize)
    {index : Nat} (inRange : index < 2 ^ 64 - 1) :
    ∃ after, remove block index = some (.array after) ∧
      Holds itemSize limit (items.eraseIdx index) after := by
  by_cases inside : index < items.length
  · rcases index_cases inside with ⟨front, last, rfl, rfl⟩ | ⟨front, gap, back, last, rfl, rfl⟩
    · refine ⟨_, if_pos (holds.lastIndex sized).symm, ?_⟩
      rw [eraseIdx_between, List.append_nil]
      exact holds.drop sized
    · obtain ⟨rest, slots⟩ := holds.slots
      have lastIndex := holds.lastIndex sized
      have count := holds.count
      obtain ⟨left, moved⟩ := move_down front (back ++ [last]) rest gap
      have whole : block.slots = front ++ gap :: (back ++ [last]) ++ rest := by
        rw [slots]
        simp only [List.append_assoc, List.cons_append]
      simp only [List.length_append, List.length_cons, List.length_nil] at count lastIndex inside
      have other : front.length ≠ block.lastIndex := by omega
      have before : front.length < block.count := by omega
      have distance : block.count - front.length - 1 = (back ++ [last]).length := by
        simp only [List.length_append, List.length_singleton]
        omega
      have length : block.lastIndex = (front ++ (back ++ [last])).length := by
        simp only [List.length_append, List.length_singleton]
        omega
      have size : (front ++ (back ++ [last]) ++ left :: rest).length = block.slots.length := by
        rw [whole]
        simp only [List.length_append, List.length_cons]
        omega
      have erased : (front ++ gap :: back ++ [last]).eraseIdx front.length =
          front ++ (back ++ [last]) := by
        rw [List.append_assoc, List.cons_append, eraseIdx_between]
      rw [erased]
      refine ⟨_, ?_, holds.replace size⟩
      rw [VArrayBlock.remove, if_neg other, if_pos before]
      simp only [distance, whole, moved, length, Option.bind_eq_bind, Option.bind_some,
        Option.pure_def]
  · have out := Nat.le_of_not_lt inside
    obtain ⟨other, behind⟩ := holds.outside sized inRange out
    refine ⟨block, ?_, ?_⟩
    · simp only [VArrayBlock.remove, other, behind, ↓reduceIte]
    · rw [List.eraseIdx_of_length_le out]
      exact holds

theorem Holds.unorderedRemove (holds : Holds itemSize limit items block) (sized : 0 < itemSize)
    {index : Nat} (inRange : index < 2 ^ 64 - 1) :
    ∃ after, unorderedRemove block index = some (.array after) ∧
      Holds itemSize limit (eraseUnordered items index) after := by
  by_cases inside : index < items.length
  · rcases index_cases inside with ⟨front, last, rfl, rfl⟩ | ⟨front, gap, back, last, rfl, rfl⟩
    · refine ⟨_, if_pos (holds.lastIndex sized).symm, ?_⟩
      rw [eraseUnordered_last]
      exact holds.drop sized
    · obtain ⟨rest, slots⟩ := holds.slots
      have lastIndex := holds.lastIndex sized
      have count := holds.count
      have read : block.slots[block.lastIndex]? = some last := by
        rw [lastIndex, slots, List.append_assoc, List.getElem?_append_right (Nat.le_refl _),
          Nat.sub_self]
        rfl
      have stored : store block.slots front.length last =
          some (front ++ last :: back ++ last :: rest) := by
        rw [slots]
        simp only [List.append_assoc, List.cons_append, store_behind, List.nil_append]
      simp only [List.length_append, List.length_cons, List.length_nil] at count lastIndex inside
      have other : front.length ≠ block.lastIndex := by omega
      have before : front.length < block.count := by omega
      have length : block.lastIndex = (front ++ last :: back).length := by
        simp only [List.length_append, List.length_cons]
        omega
      have size : (front ++ last :: back ++ last :: rest).length = block.slots.length := by
        rw [slots]
        simp only [List.length_append, List.length_cons, List.length_nil]
        omega
      rw [eraseUnordered_between]
      refine ⟨_, ?_, holds.replace size⟩
      rw [VArrayBlock.unorderedRemove, if_neg other, if_pos before]
      simp only [read, stored, Option.bind_eq_bind, Option.bind_some, Option.pure_def]
      rw [length]
  · have out := Nat.le_of_not_lt inside
    obtain ⟨other, behind⟩ := holds.outside sized inRange out
    refine ⟨block, ?_, ?_⟩
    · simp only [VArrayBlock.unorderedRemove, other, behind, ↓reduceIte]
    · rw [eraseUnordered_outside out]
      exact holds

/-- An operation ends the program, or the array stands for what it makes of the list. -/
theorem Holds.step (holds : Holds itemSize limit items block) (sized : 0 < itemSize)
    {operation : Operation α} (inRange : operation.InRange) :
    step itemSize (.array block) operation = some .aborted ∨
      ∃ after, step itemSize (.array block) operation = some (.array after) ∧
        Holds itemSize limit (operation.apply limit items) after := by
  cases operation with
  | push item fresh granted =>
    rcases holds.withRoom_cases sized fresh granted (VArrayBlock.append item) with
      ⟨filled, same⟩ | ⟨bounded, failed | ⟨roomy, kept, room, added⟩⟩
    · refine Or.inr ⟨block, same, ?_⟩
      rw [Operation.apply, if_pos filled]
      exact holds
    · exact Or.inl failed
    · obtain ⟨after, appended, held⟩ := kept.append sized room item
      rw [appended] at added
      refine Or.inr ⟨after, added, ?_⟩
      rw [Operation.apply, bounded]
      exact held
  | insert item index fresh granted =>
    by_cases inside : index ≤ block.count
    · have unfolded : VArrayBlock.step itemSize (.array block) (.insert item index fresh granted) =
          withRoom itemSize block fresh granted (VArrayBlock.insertAt item index) := if_pos inside
      rw [unfolded]
      rcases holds.withRoom_cases sized fresh granted (VArrayBlock.insertAt item index) with
        ⟨filled, same⟩ | ⟨bounded, failed | ⟨roomy, kept, room, added⟩⟩
      · refine Or.inr ⟨block, same, ?_⟩
        rw [Operation.apply, if_pos filled]
        exact holds
      · exact Or.inl failed
      · have within : index ≤ roomy.count := by
          rw [kept.count, ← holds.count]
          exact inside
        obtain ⟨after, inserted, held⟩ := kept.insertAt sized room item within
        rw [inserted] at added
        refine Or.inr ⟨after, added, ?_⟩
        rw [Operation.apply, bounded]
        exact held
    · exact Or.inl (if_neg inside)
  | remove index => exact Or.inr (holds.remove sized inRange)
  | unorderedRemove index => exact Or.inr (holds.unorderedRemove sized inRange)

/-- Nothing follows the end of the program. -/
theorem foldlM_aborted (itemSize : Nat) (operations : List (Operation α)) :
    operations.foldlM (VArrayBlock.step itemSize) .aborted = some .aborted := by
  induction operations with
  | nil => rfl
  | cons operation rest inductionHypothesis =>
    rw [List.foldlM_cons, VArrayBlock.step]
    exact inductionHypothesis

/-- So do all operations that follow. -/
theorem Holds.run (holds : Holds itemSize limit items block) (sized : 0 < itemSize)
    {operations : List (Operation α)} (inRange : ∀ operation ∈ operations, operation.InRange) :
    operations.foldlM (VArrayBlock.step itemSize) (.array block) = some .aborted ∨
      ∃ after, operations.foldlM (VArrayBlock.step itemSize) (.array block) = some (.array after) ∧
        Holds itemSize limit (operations.foldl (Operation.apply limit) items) after := by
  induction operations generalizing block items with
  | nil => exact Or.inr ⟨block, rfl, holds⟩
  | cons operation rest inductionHypothesis =>
    obtain ⟨first, others⟩ := List.forall_mem_cons.mp inRange
    rw [List.foldlM_cons, List.foldl_cons]
    rcases holds.step sized first with ended | ⟨after, stepped, held⟩
    · rw [ended]
      exact Or.inl (foldlM_aborted itemSize rest)
    · rw [stepped]
      exact inductionHypothesis held others

/-- A push on it is one on the array, unless the program ends. -/
theorem Holds.push_toVArray (holds : Holds itemSize limit items block) (sized : 0 < itemSize)
    (item fresh : α) (granted : Bool) :
    push itemSize block item (fun _ => fresh) granted = some .aborted ∨
      ∃ after, push itemSize block item (fun _ => fresh) granted = some (.array after) ∧
        after.toVArray = block.toVArray.push item fresh := by
  have few := capacity_small sized holds.small
  have within := holds.within
  have positive := holds.positive
  have exact := holds.exact
  have capacity : block.toVArray.capacity = block.capacity := exact
  by_cases crowded : block.capacity ≤ block.count
  · cases grows : block.growable with
    | true =>
      rcases holds.realloc_cases sized (fun _ => fresh) granted with failed | ⟨_, doubled⟩
      · refine Or.inl ?_
        simp only [push, withRoom, crowded, grows, and_self, ↓reduceIte, failed,
          Option.bind_eq_bind, Option.bind_some]
      · obtain ⟨grown, isGrown⟩ : ∃ grown : VArrayBlock α, grown = { block with
            slots := block.slots ++ (List.range block.capacity).map fun _ => fresh
            capacity := block.capacity * 2 } := ⟨_, rfl⟩
        rw [← isGrown] at doubled
        have inside : grown.count < grown.slots.length := by
          simp only [isGrown, List.length_append, List.length_map, List.length_range]
          omega
        have small : grown.count + 1 < 2 ^ 64 := by
          simp only [isGrown]
          omega
        refine Or.inr ⟨{ grown with
          slots := grown.slots.set grown.count item
          count := grown.count + 1 }, ?_, ?_⟩
        · rw [push, withRoom, if_pos ⟨crowded, grows⟩, doubled, Option.bind_eq_bind,
            Option.bind_some]
          exact congrArg (Option.map Outcome.array) (append_some item inside small)
        · simp only [isGrown, toVArray, VArray.push, VArray.capacity, VArray.realloc, exact,
            crowded, grows, and_self, ↓reduceIte, List.map_const', List.length_range]
    | false =>
      refine Or.inr ⟨block, ?_, ?_⟩
      · simp only [push, withRoom, crowded, grows, Bool.false_eq_true, and_false, and_self,
          ↓reduceIte]
      · simp only [toVArray, VArray.push, VArray.capacity, exact, crowded, grows,
          Bool.false_eq_true, and_false, and_self, ↓reduceIte]
  · have room : block.toVArray.count < block.toVArray.capacity := by
      rw [capacity]
      exact Nat.lt_of_not_le crowded
    refine Or.inr ⟨{ block with
      slots := block.slots.set block.count item
      count := block.count + 1 }, ?_, (VArray.push_room _ item fresh room).symm⟩
    rw [push, withRoom, if_neg (fun both => crowded both.1), if_neg (fun both => crowded both.1),
      append_some item room (by omega), Option.map_some]

/-- What holds of the items of an array makes it stand for the list. -/
theorem Holds.represents (holds : Holds itemSize limit items block) (sized : 0 < itemSize) :
    Represents itemSize items block := by
  refine ⟨holds.take, holds.count, holds.within, fun _ _ _ moved => holds.survives sized moved, ?_⟩
  intro bounded crowded
  have unchanged : ∀ fresh granted add,
      withRoom itemSize block fresh granted add = some (.array block) := by
    intro fresh granted add
    simp only [withRoom, crowded, bounded, Bool.false_eq_true, and_false, and_self, ↓reduceIte]
  refine ⟨fun item fresh granted => unchanged _ _ _, fun item index fresh granted inside => ?_⟩
  rw [insert, if_pos inside]
  exact unchanged _ _ _

/-- An array whose size does not wrap begins as the empty list, if it is allocated. -/
theorem init_holds (sized : 0 < itemSize) {capacity : Nat} (positive : 0 < capacity)
    (measured : headerSize + itemSize * capacity < 2 ^ 64) (zero : α) (growable granted : Bool) :
    init itemSize capacity zero growable granted = some .aborted ∨
      ∃ block, init itemSize capacity zero growable granted = some (.array block) ∧
        Holds itemSize (bound growable capacity) [] block := by
  have bytes : initSize itemSize capacity = headerSize + itemSize * capacity :=
    Nat.mod_eq_of_lt measured
  by_cases given : grants granted (headerSize + itemSize * capacity) = true
  · have small := of_decide_eq_true (Bool.and_eq_true_iff.mp given).2
    refine Or.inr ⟨⟨List.replicate capacity zero, 0, capacity, growable⟩, ?_,
      ⟨⟨_, rfl⟩, rfl, List.length_replicate, small, positive, rfl⟩⟩
    simp only [init, bytes, given, ↓reduceIte, guard, Nat.le_add_right, Nat.add_sub_cancel_left,
      Nat.mul_div_cancel_left _ sized, Option.bind_eq_bind, Option.pure_def, Option.bind_some]
  · refine Or.inl ?_
    simp only [init, bytes, given, ↓reduceIte, Bool.false_eq_true]

/-- An array that was given fewer slots than its header tells takes items until they are used
up. -/
theorem pushes_fill {slots : List α} {capacity : Nat} (short : slots.length < capacity)
    (range : capacity < 2 ^ 64) (item : α) (growable : Bool) {pushed : Nat}
    (few : pushed ≤ slots.length) :
    ∃ block : VArrayBlock α, (List.replicate pushed
        (.push item (fun _ => item) true : Operation α)).foldlM (VArrayBlock.step itemSize)
          (.array ⟨slots, 0, capacity, growable⟩) = some (.array block) ∧
      block.count = pushed ∧ block.slots.length = slots.length ∧ block.capacity = capacity := by
  induction pushed with
  | zero => exact ⟨_, rfl, rfl, rfl, rfl⟩
  | succ pushed inductionHypothesis =>
    obtain ⟨block, filled, count, size, same⟩ := inductionHypothesis (by omega)
    have room : ¬ block.capacity ≤ block.count := by omega
    have inside : block.count < block.slots.length := by omega
    refine ⟨{ block with slots := block.slots.set block.count item, count := block.count + 1 }, ?_,
      congrArg (· + 1) count, ?_, same⟩
    · rw [List.replicate_succ', List.foldlM_append, filled]
      simp only [List.foldlM_cons, List.foldlM_nil, VArrayBlock.step, push, withRoom, room,
        false_and, ↓reduceIte, append_some item inside (by omega), Option.bind_eq_bind,
        Option.bind_some, Option.map_some, Option.pure_def]
    · rw [List.length_set]
      exact size

/-- The item behind them leaves the block. -/
theorem pushes_overrun {slots : List α} {capacity : Nat} (short : slots.length < capacity)
    (range : capacity < 2 ^ 64) (item : α) (growable : Bool) :
    (List.replicate (slots.length + 1)
      (.push item (fun _ => item) true : Operation α)).foldlM (VArrayBlock.step itemSize)
        (.array ⟨slots, 0, capacity, growable⟩) = none := by
  obtain ⟨block, filled, count, size, same⟩ :=
    @pushes_fill α itemSize slots capacity short range item growable _ (Nat.le_refl _)
  have room : ¬ block.capacity ≤ block.count := by omega
  have outside : store block.slots block.count item = none := store_outside (by omega) item
  rw [List.replicate_succ', List.foldlM_append, filled]
  simp only [List.foldlM_cons, List.foldlM_nil, VArrayBlock.step, push, withRoom, room, false_and,
    ↓reduceIte, VArrayBlock.append, outside, Option.bind_eq_bind, Option.bind_some,
    Option.bind_none, Option.map_none]

/-- Where the size wraps to one that is granted, some pushes leave the block. -/
theorem wrapped_overruns {capacity : Nat} (range : capacity < 2 ^ 64)
    (unmeasured : ¬ Measured itemSize capacity) (zero : α) (growable : Bool) :
    ¬ ActsAsList itemSize capacity zero growable := by
  intro acts
  rw [Measured, not_or] at unmeasured
  obtain ⟨wraps, small⟩ := unmeasured
  have given : grants true (initSize itemSize capacity) = true := by
    rw [grants, Bool.true_and]
    exact decide_eq_true (Nat.lt_of_not_le small)
  by_cases header : headerSize ≤ initSize itemSize capacity
  · have fewer : (initSize itemSize capacity - headerSize) / itemSize < capacity := by
      refine Nat.div_lt_of_lt_mul ?_
      rw [initSize, headerSize] at header ⊢
      rw [headerSize] at wraps
      omega
    obtain ⟨slots, short, allocated⟩ : ∃ slots : List α, slots.length < capacity ∧
        init itemSize capacity zero growable true =
          some (.array ⟨slots, 0, capacity, growable⟩) := by
      refine ⟨List.replicate ((initSize itemSize capacity - headerSize) / itemSize) zero, ?_, ?_⟩
      · rw [List.length_replicate]
        exact fewer
      · simp only [init, given, header, ↓reduceIte, guard, Option.bind_eq_bind, Option.pure_def,
          Option.bind_some]
    have valid : ∀ operation ∈ List.replicate (slots.length + 1)
        (.push zero (fun _ => zero) true : Operation α), operation.InRange := by
      intro operation member
      rw [List.eq_of_mem_replicate member]
      exact trivial
    obtain ⟨outcome, ran, _⟩ := acts true _ valid
    rw [VArrayBlock.run, allocated, Option.bind_eq_bind, Option.bind_some,
      pushes_overrun short range] at ran
    cases ran
  · obtain ⟨outcome, ran, _⟩ := acts true [] (by simp)
    have outside : init itemSize capacity zero growable true = none := by
      simp only [init, given, header, ↓reduceIte, guard, Option.bind_eq_bind, Option.bind_none,
        failure]
    rw [VArrayBlock.run, outside] at ran
    cases ran

end Holds

/-- For all item types, capacities and operations: an array acts as a list, exactly if the size of
its block does not wrap in 64 bits, or wraps only to one that calloc refuses. -/
theorem acts_as_list_iff {itemSize capacity : Nat} (sized : 0 < itemSize) (positive : 0 < capacity)
    (range : capacity < 2 ^ 64) (zero : α) (growable : Bool) :
    ActsAsList itemSize capacity zero growable ↔ Measured itemSize capacity := by
  constructor
  · intro acts
    by_contra unmeasured
    exact wrapped_overruns range unmeasured zero growable acts
  · rintro (measured | refused) granted operations inRange
    · rcases init_holds sized positive measured zero growable granted with
        ended | ⟨block, begun, held⟩
      · refine ⟨.aborted, ?_, nofun⟩
        rw [run, ended]
        exact foldlM_aborted itemSize operations
      · rcases held.run sized inRange with ended | ⟨after, ran, kept⟩
        · refine ⟨.aborted, ?_, nofun⟩
          rw [run, begun]
          exact ended
        · refine ⟨.array after, ?_, ?_⟩
          · rw [run, begun]
            exact ran
          · rintro block same
            exact Outcome.array.inj same ▸ kept.represents sized
    · have refuses : grants granted (initSize itemSize capacity) = false := by
        rw [grants, decide_eq_false (Nat.not_lt.mpr refused), Bool.and_false]
      refine ⟨.aborted, ?_, nofun⟩
      have ended : init itemSize capacity zero growable granted = some .aborted := by
        simp only [init, refuses, Bool.false_eq_true, ↓reduceIte]
      rw [run, ended]
      exact foldlM_aborted itemSize operations

/-- Room for 2^61 items of eight bytes each: the block is just a header, and the first push leaves
it. -/
theorem huge_array_overruns : ¬ ∀ (itemSize capacity : Nat), 0 < itemSize → 0 < capacity →
    capacity < 2 ^ 64 → ∀ (item : Nat) (growable : Bool),
      ActsAsList itemSize capacity item growable := by
  intro always
  obtain ⟨outcome, ran, _⟩ := always 8 (2 ^ 61) (by decide) (by decide) (by decide) 0 true true
    [.push 7 (fun _ => 0) true] (by simp [Operation.InRange])
  have outside : run 8 (2 ^ 61) 0 true true [.push 7 (fun _ => 0) true] = none := by
    decide +kernel
  rw [outside] at ran
  cases ran

/-- An array with room for three items acts as a list. -/
theorem acts_as_list_iff_three : ActsAsList 8 3 0 true :=
  (acts_as_list_iff (by decide) (by decide) (by decide) 0 true).mpr (by decide)

end VArrayBlock

end VHttp
