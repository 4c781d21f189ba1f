import VHttp.Foundations.Circular

/-!
# A queue in a circular array

The items of a queue lie one after another from a start position, wrapping at the
end of the array. The slot one turn of the queue further is free while the queue
does not fill the array: writing there appends an item and touches none that is
still to be read. Moving the start one position forward takes the first item away.
-/

namespace VHttp.RingQueue

open Circular

universe u
variable {α : Type u}

/-- The slots from `start` on hold the queue's items in order. -/
structure Holds (slots : List α) (start : Nat) (queue : List α) : Prop where
  inside : start < slots.length
  fits : queue.length ≤ slots.length
  reads : ∀ offset, offset < queue.length →
    slots[slot slots.length start offset]? = queue[offset]?

theorem Holds.empty {slots : List α} {start : Nat} (inside : start < slots.length) :
    Holds slots start [] :=
  ⟨inside, Nat.zero_le _, fun offset short => absurd short (Nat.not_lt_zero offset)⟩

variable {slots queue : List α} {start : Nat}

/-- The slot behind the queue is none of those still to be read. -/
theorem Holds.free (held : Holds slots start queue) (room : queue.length < slots.length)
    {offset : Nat} (unread : offset < queue.length) :
    slot slots.length start offset ≠ slot slots.length start queue.length := by
  intro same
  have equal := slot_injective held.inside (by omega) room same
  omega

/-- Writing behind the queue appends an item to it. -/
theorem Holds.enqueue (held : Holds slots start queue) (room : queue.length < slots.length)
    (item : α) :
    Holds (slots.set (slot slots.length start queue.length) item) start (queue ++ [item]) := by
  have free : slot slots.length start queue.length < slots.length :=
    slot_lt _ _ _ (by omega)
  refine ⟨?_, ?_, ?_⟩
  · rw [List.length_set]
    exact held.inside
  · rw [List.length_set, List.length_append, List.length_singleton]
    exact room
  · intro offset short
    rw [List.length_set]
    rw [List.length_append, List.length_singleton] at short
    by_cases last : offset = queue.length
    · subst last
      rw [List.getElem?_set_self free, List.getElem?_append_right (Nat.le_refl _), Nat.sub_self]
      rfl
    · have unread : offset < queue.length := by omega
      rw [List.getElem?_set_ne (held.free room unread).symm, List.getElem?_append_left unread,
        held.reads offset unread]

/-- The first item lies at the start, and the rest from the next position on. -/
theorem Holds.dequeue {item : α} {rest : List α} (held : Holds slots start (item :: rest)) :
    slots[start]? = some item ∧ Holds slots (slot slots.length start 1) rest := by
  have positive : 0 < slots.length := Nat.zero_lt_of_lt held.inside
  have fits : rest.length + 1 ≤ slots.length := held.fits
  refine ⟨?_, slot_lt _ _ _ positive, by omega, ?_⟩
  · have first := held.reads 0 (Nat.succ_pos _)
    rwa [slot_zero _ _ held.inside] at first
  · intro offset short
    have next := held.reads (offset + 1) (Nat.succ_lt_succ short)
    rw [List.getElem?_cons_succ] at next
    rw [← next]
    simp only [slot, Nat.mod_add_mod]
    congr 2
    omega

end VHttp.RingQueue
