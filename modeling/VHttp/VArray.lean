import Mathlib.Data.List.Basic

/-!
# The array of varray.h

An array is a block of item slots with a header in front of it: how many leading
slots are in use, and whether the block may grow. The capacity is the number of
slots of the block. Slots past the count hold what the allocation or an earlier
item left there.
-/

namespace VHttp

/-- A `varray_header` and the item slots behind it. -/
structure VArray (α : Type) where
  slots : List α
  count : Nat
  growable : Bool
  deriving DecidableEq

namespace VArray

variable {α : Type}

/-- `VArray_Capacity`. -/
def capacity (array : VArray α) : Nat := array.slots.length

/-- `_VArray_Init`: calloc fills every slot with the all-zero item. -/
def init (capacity : Nat) (zero : α) (growable : Bool) : VArray α :=
  ⟨List.replicate capacity zero, 0, growable⟩

/-- `_VArray_Realloc`: twice the capacity; `fresh` is what the new slots hold. -/
def realloc (array : VArray α) (fresh : α) : VArray α :=
  { array with slots := array.slots ++ List.replicate array.capacity fresh }

/-- `VArray_Push`: a full array grows if it may, and otherwise refuses the item
with nothing but a warning. -/
def push (array : VArray α) (item fresh : α) : VArray α :=
  if array.capacity ≤ array.count ∧ array.growable = true then
    let grown := realloc array fresh
    { grown with slots := grown.slots.set grown.count item, count := grown.count + 1 }
  else if array.capacity ≤ array.count ∧ array.growable = false then array
  else { array with slots := array.slots.set array.count item, count := array.count + 1 }

/-- An array with room takes the item, growable or not. -/
theorem push_room (array : VArray α) (item fresh : α) (room : array.count < array.capacity) :
    array.push item fresh =
      { array with slots := array.slots.set array.count item, count := array.count + 1 } := by
  simp [push, Nat.not_le_of_lt room]

end VArray

end VHttp
