import Mathlib.Algebra.BigOperators.Group.Finset.Piecewise
import Mathlib.Algebra.Order.BigOperators.Group.Finset
import VHttp.Foundations.ConditionVariables

/-!
# Threads weighed by what is still to come

The threads of a kind stand in a list, and some of them sleep on a condition variable. Each is
weighed by where it stands and by whether it sleeps, and the weights are added up. A thread that
moves changes the sum by its own weights alone, and a signal adds at most the difference that
being awake makes for one thread.
-/

namespace VHttp.ConditionVariables

universe u
variable {Item : Type u}

/-- The weight of all threads of a list. -/
def weigh (weight : Item → Bool → Nat) (asleep : List Nat) (items : List Item) : Nat :=
  ∑ index ∈ Finset.range items.length,
    (items[index]?).elim 0 (fun item => weight item (decide (index ∈ asleep)))

variable {weight : Item → Bool → Nat} {asleep rest : List Nat} {items : List Item}

/-- One thread moves, and may go to sleep or wake with it. -/
theorem weigh_set {index : Nat} {old : Item} (new : Item) (read : items[index]? = some old)
    (others : ∀ other, other ≠ index → (other ∈ rest ↔ other ∈ asleep)) :
    weigh weight rest (items.set index new) + weight old (decide (index ∈ asleep)) =
      weigh weight asleep items + weight new (decide (index ∈ rest)) := by
  have inside := (List.getElem?_eq_some_iff.mp read).1
  have present : index ∈ Finset.range items.length := Finset.mem_range.mpr inside
  have apart : ∀ other ∈ (Finset.range items.length).erase index,
      ((items.set index new)[other]?).elim 0 (fun item => weight item (decide (other ∈ rest))) =
        (items[other]?).elim 0 (fun item => weight item (decide (other ∈ asleep))) := by
    intro other member
    have different := Finset.ne_of_mem_erase member
    rw [List.getElem?_set_ne different.symm]
    simp only [others other different]
  rw [weigh, weigh, List.length_set, ← Finset.add_sum_erase _ _ present,
    ← Finset.add_sum_erase _ _ present, Finset.sum_congr rfl apart, List.getElem?_set_self inside,
    read]
  simp only [Option.elim_some]
  omega

/-- A thread comes to the list. -/
theorem weigh_append (weight : Item → Bool → Nat) (asleep : List Nat) (items : List Item)
    (new : Item) : weigh weight asleep (items ++ [new]) =
      weigh weight asleep items + weight new (decide (items.length ∈ asleep)) := by
  rw [weigh, weigh, List.length_append, List.length_singleton, Finset.sum_range_succ]
  congr 1
  · apply Finset.sum_congr rfl
    intro index member
    rw [List.getElem?_append_left (Finset.mem_range.mp member)]
  · simp

/-- A signal adds no more than what being awake adds to one thread. -/
theorem weigh_signal {choice : Option Nat} {more : Nat} (signalled : signal asleep choice = some rest)
    (wakes : ∀ item, weight item false ≤ weight item true + more) :
    weigh weight rest items ≤ weigh weight asleep items + more := by
  cases choice with
  | none =>
    simp only [signal, Option.ite_none_right_eq_some, Option.some.injEq] at signalled
    rw [signalled.1, ← signalled.2]
    exact Nat.le_add_right _ _
  | some woken =>
    obtain ⟨slept, others⟩ := wake_spec signalled
    have each : ∀ index ∈ Finset.range items.length,
        (items[index]?).elim 0 (fun item => weight item (decide (index ∈ rest))) ≤
          (items[index]?).elim 0 (fun item => weight item (decide (index ∈ asleep))) +
            if index = woken then more else 0 := by
      intro index _
      cases items[index]? with
      | none => exact Nat.zero_le _
      | some item =>
        by_cases same : index = woken
        · subst same
          have awake : index ∉ rest := fun member => ((others index).mp member).2 rfl
          simpa [awake, slept] using wakes item
        · simp [others, same]
    calc weigh weight rest items
        ≤ weigh weight asleep items +
          ∑ index ∈ Finset.range items.length, if index = woken then more else 0 := by
          rw [weigh, weigh, ← Finset.sum_add_distrib]
          exact Finset.sum_le_sum each
      _ ≤ weigh weight asleep items + more := by
          rw [Finset.sum_ite_eq']
          split <;> omega

/-- A condition variable can always be signalled. -/
theorem signal_possible (asleep : List Nat) : ∃ choice rest, signal asleep choice = some rest := by
  cases asleep with
  | nil => exact ⟨none, [], rfl⟩
  | cons thread others =>
    have asleep : thread ∈ thread :: others := List.mem_cons_self
    exact ⟨some thread, _, if_pos asleep⟩

end VHttp.ConditionVariables
