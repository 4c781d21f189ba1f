import Mathlib.Data.List.Basic

/-!
# Condition variables

A condition variable is the list of the threads asleep on it. A signal wakes one of them,
whichever it likes, and none only if none is asleep; the choice is an argument, so that a
system over condition variables is a partial function of its actions. A thread may also wake
without a signal. A signal is not kept: with no thread asleep it has no effect.
-/

namespace VHttp.ConditionVariables

universe u
variable {Thread : Type u} [DecidableEq Thread]

/-- One thread leaves the list. No result means that it is not asleep. -/
def wake (asleep : List Thread) (woken : Thread) : Option (List Thread) :=
  if woken ∈ asleep then some (asleep.filter (fun thread => decide (thread ≠ woken))) else none

/-- Signal a condition variable, with the thread that is woken. -/
def signal (asleep : List Thread) : Option Thread → Option (List Thread)
  | none => if asleep = [] then some [] else none
  | some woken => wake asleep woken

variable {asleep rest : List Thread} {woken : Thread} {choice : Option Thread}

omit [DecidableEq Thread] in
/-- Where a test sends a thread to sleep, everyone else asleep was so before. -/
theorem asleep_cases {test : Prop} [Decidable test] {sleeper thread : Thread}
    (member : thread ∈ if test then sleeper :: asleep else asleep) :
    thread = sleeper ∧ test ∨ thread ∈ asleep := by
  by_cases holds : test
  · rw [if_pos holds, List.mem_cons] at member
    exact member.imp_left fun same => ⟨same, holds⟩
  · rw [if_neg holds] at member
    exact Or.inr member

/-- Everyone but the woken thread sleeps on. -/
theorem wake_spec (taken : wake asleep woken = some rest) :
    woken ∈ asleep ∧ ∀ thread, thread ∈ rest ↔ thread ∈ asleep ∧ thread ≠ woken := by
  unfold wake at taken
  split at taken
  · rename_i present
    obtain rfl := Option.some.inj taken
    exact ⟨present, by simp⟩
  · cases taken

/-- A signal puts nobody to sleep. -/
theorem signal_subset (taken : signal asleep choice = some rest) :
    ∀ thread ∈ rest, thread ∈ asleep := by
  cases choice with
  | none =>
    simp only [signal, Option.ite_none_right_eq_some, Option.some.injEq] at taken
    simp [← taken.2]
  | some woken => exact fun thread member => (((wake_spec taken).2 thread).mp member).1

/-- Where somebody is asleep, a signal wakes somebody. -/
theorem signal_wakes (taken : signal asleep choice = some rest) (some_asleep : asleep ≠ []) :
    ∃ woken ∈ asleep, woken ∉ rest := by
  cases choice with
  | none =>
    simp only [signal, Option.ite_none_right_eq_some] at taken
    exact absurd taken.1 some_asleep
  | some woken =>
    obtain ⟨present, others⟩ := wake_spec taken
    exact ⟨woken, present, fun member => ((others woken).mp member).2 rfl⟩

/-- A signal wakes the only thread that is asleep. -/
theorem signal_sole (taken : signal asleep choice = some rest)
    (sole : ∀ first ∈ asleep, ∀ second ∈ asleep, first = second) : rest = [] := by
  apply List.eq_nil_iff_forall_not_mem.mpr
  intro thread member
  have present := signal_subset taken thread member
  obtain ⟨woken, before, gone⟩ := signal_wakes taken (List.ne_nil_of_mem present)
  exact gone (sole thread present woken before ▸ member)

end VHttp.ConditionVariables
