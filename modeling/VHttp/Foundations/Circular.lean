import Mathlib.Data.List.Basic

/-!
# Positions in a circular array

Walking forward from a home position wraps at the end of the array. The distance
from home to a position is the number of steps that reach it; within one turn the
two are inverse to each other.
-/

namespace VHttp.Circular

/-- The position reached after `distance` steps from `home`. -/
def slot (capacity home distance : Nat) : Nat := (home + distance) % capacity

/-- The number of steps from `home` to `index`, going forward around the array. -/
def distance (capacity home index : Nat) : Nat := (index + capacity - home) % capacity

theorem slot_lt (capacity home steps : Nat) (positive : 0 < capacity) :
    slot capacity home steps < capacity :=
  Nat.mod_lt _ positive

theorem distance_lt (capacity home index : Nat) (positive : 0 < capacity) :
    distance capacity home index < capacity :=
  Nat.mod_lt _ positive

@[simp] theorem slot_zero (capacity home : Nat) (inside : home < capacity) :
    slot capacity home 0 = home :=
  Nat.mod_eq_of_lt inside

/-- One step further is the next slot, wrapping at the end. -/
theorem slot_succ (capacity home steps : Nat) :
    slot capacity home (steps + 1) = (slot capacity home steps + 1) % capacity := by
  simp [slot, Nat.add_assoc]

/-- Moving the home one slot forward shortens every later probe by one step. -/
theorem slot_step (capacity home steps : Nat) :
    slot capacity ((home + 1) % capacity) steps = slot capacity home (steps + 1) := by
  simp only [slot, Nat.mod_add_mod]
  congr 1
  omega

/-- Walking the distance to a slot reaches it. -/
theorem slot_distance (capacity home index : Nat) (homeInside : home < capacity)
    (inside : index < capacity) : slot capacity home (distance capacity home index) = index := by
  simp only [slot, distance, Nat.add_mod_mod]
  rw [show home + (index + capacity - home) = index + capacity by omega, Nat.add_mod_right]
  exact Nat.mod_eq_of_lt inside

/-- Within one turn, the distance to the slot reached is the number of steps. -/
theorem distance_slot (capacity home steps : Nat) (homeInside : home < capacity)
    (short : steps < capacity) : distance capacity home (slot capacity home steps) = steps := by
  unfold distance slot
  by_cases wraps : home + steps < capacity
  · rw [Nat.mod_eq_of_lt wraps, show home + steps + capacity - home = steps + capacity by omega,
      Nat.add_mod_right, Nat.mod_eq_of_lt short]
  · have wrapped : (home + steps) % capacity = home + steps - capacity := by
      rw [Nat.mod_eq_sub_mod (by omega), Nat.mod_eq_of_lt (by omega)]
    rw [wrapped, show home + steps - capacity + capacity - home = steps by omega,
      Nat.mod_eq_of_lt short]

/-- Within one turn, different numbers of steps reach different positions. -/
theorem slot_injective {capacity home first second : Nat} (homeInside : home < capacity)
    (firstShort : first < capacity) (secondShort : second < capacity)
    (same : slot capacity home first = slot capacity home second) : first = second := by
  have reached := congrArg (distance capacity home) same
  rwa [distance_slot _ _ _ homeInside firstShort, distance_slot _ _ _ homeInside secondShort]
    at reached

end VHttp.Circular
