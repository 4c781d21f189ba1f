import VHttp.Foundations.CString

/-!
# Memory

Memory is a block of bytes at addresses from zero on. An access outside it has no result,
as a C program's would not. What an access does is stated for a memory that is given in
parts: it reads or replaces the middle one, and the parts around it stay.
-/

namespace VHttp

/-- A block of memory. -/
abbrev Memory := Bytes

/-- The bytes from an address on. -/
def Memory.readRange (memory : Memory) (address count : Nat) : Option Bytes :=
  if address + count ≤ memory.length then some ((memory.drop address).take count) else none

/-- Write bytes from an address on. -/
def Memory.writeRange (memory : Memory) (address : Nat) (bytes : Bytes) : Option Memory :=
  if address + bytes.length ≤ memory.length then
    some (memory.take address ++ bytes ++ memory.drop (address + bytes.length))
  else none

/-- memmove: the source is read before anything is written. -/
def Memory.move (memory : Memory) (target source count : Nat) : Option Memory := do
  let bytes ← memory.readRange source count
  memory.writeRange target bytes

/-- The byte behind a part of the memory. -/
theorem read_behind (before rest : Bytes) (byte : UInt8) :
    (before ++ byte :: rest)[before.length]? = some byte := by
  simp

/-- A byte inside a part of the memory. -/
theorem read_inside (before field after : Bytes) (index : Nat) (inside : index < field.length) :
    (before ++ field ++ after)[before.length + index]? = some field[index] := by
  rw [List.append_assoc, List.getElem?_append_right (Nat.le_add_right _ _),
    Nat.add_sub_cancel_left, List.getElem?_append_left inside, List.getElem?_eq_getElem inside]

/-- The bytes behind a part of the memory. -/
theorem readRange_behind (before content after : Bytes) :
    Memory.readRange (before ++ content ++ after) before.length content.length = some content := by
  have inside : before.length + content.length ≤ (before ++ content ++ after).length := by simp
  rw [Memory.readRange, if_pos inside]
  simp

theorem writeRange_behind (before old after bytes : Bytes) (same : old.length = bytes.length) :
    Memory.writeRange (before ++ old ++ after) before.length bytes =
      some (before ++ bytes ++ after) := by
  have inside : before.length + bytes.length ≤ (before ++ old ++ after).length := by
    simp [same]
  rw [Memory.writeRange, if_pos inside]
  simp [← same]

theorem writeRange_some {memory : Memory} {address : Nat} {bytes : Bytes}
    (inside : address + bytes.length ≤ memory.length) :
    memory.writeRange address bytes =
      some (memory.take address ++ bytes ++ memory.drop (address + bytes.length)) :=
  if_pos inside

/-- A write has a result exactly if it stays in the memory. -/
theorem writeRange_isSome (memory : Memory) (address : Nat) (bytes : Bytes) :
    (memory.writeRange address bytes).isSome ↔ address + bytes.length ≤ memory.length := by
  rw [Memory.writeRange]
  split
  · rename_i inside
    exact iff_of_true rfl inside
  · rename_i outside
    exact iff_of_false nofun outside

/-- Writing keeps the size of the memory. -/
theorem writeRange_length {memory after : Memory} {address : Nat} {bytes : Bytes}
    (written : memory.writeRange address bytes = some after) : after.length = memory.length := by
  rw [Memory.writeRange, Option.ite_none_right_eq_some, Option.some.injEq] at written
  obtain ⟨inside, rfl⟩ := written
  simp only [List.length_append, List.length_take, List.length_drop]
  omega

/-- Writing leaves the bytes behind its range. -/
theorem writeRange_behind_kept {memory after : Memory} {address : Nat} {bytes : Bytes}
    (written : memory.writeRange address bytes = some after) {offset : Nat}
    (behind : address + bytes.length ≤ offset) : after[offset]? = memory[offset]? := by
  rw [Memory.writeRange, Option.ite_none_right_eq_some, Option.some.injEq] at written
  obtain ⟨inside, rfl⟩ := written
  have front : (memory.take address ++ bytes).length = address + bytes.length := by
    simp only [List.length_append, List.length_take]
    omega
  rw [List.getElem?_append_right (front ▸ behind), front, List.getElem?_drop]
  congr 1
  omega

/-- Moving keeps the size of the memory. -/
theorem move_length {memory after : Memory} {target source count : Nat}
    (moved : memory.move target source count = some after) : after.length = memory.length := by
  simp only [Memory.move, Option.bind_eq_bind, Option.bind_eq_some_iff] at moved
  obtain ⟨bytes, _, written⟩ := moved
  exact writeRange_length written

end VHttp
