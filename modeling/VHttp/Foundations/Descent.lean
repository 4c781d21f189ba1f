import Mathlib.Algebra.BigOperators.Intervals
import VHttp.Foundations.Runs

/-!
# Runs that come to rest

Where every admitted step lowers a measure, a run takes no more steps than the measure of its
first state, whatever the schedule, and every state has a run to one in which no admitted step
is possible. So what holds of the states at rest is reached in bounded time, with no assumption
of fairness. Where some actions come from outside and add to the measure, they pay for the steps
that follow them.
-/

namespace VHttp.Runs

universe u v
variable {State : Type u} {Action : Type v}
variable {step : State → Action → Option State} {admitted : State → Action → Prop}
variable {origin : State}

/-- No admitted step is possible. -/
def AtRest (step : State → Action → Option State) (admitted : State → Action → Prop)
    (state : State) : Prop :=
  ∀ action after, admitted state action → step state action ≠ some after

/-- Every step spends some of the measure. -/
theorem Run.spends (measure : State → Nat)
    (lowers : ∀ before action after, admitted before action → step before action = some after →
      measure after < measure before)
    {trace : List Action} {state : State} (run : Run step admitted origin trace state) :
    trace.length + measure state ≤ measure origin := by
  induction run with
  | start => simp
  | next earlier allowed taken inductionHypothesis =>
    have lower := lowers _ _ _ allowed taken
    rw [List.length_append, List.length_singleton]
    omega

/-- A state can be brought to rest, where the steps lower the measure along an invariant.

Induct on a bound of the measure: a state is at rest, or has a step to a lower one. -/
theorem comes_to_rest (measure : State → Nat) (invariant : State → Prop)
    (kept : ∀ before action after, invariant before → admitted before action →
      step before action = some after → invariant after)
    (lowers : ∀ before action after, invariant before → admitted before action →
      step before action = some after → measure after < measure before)
    (initial : invariant origin) :
    ∃ trace state, Run step admitted origin trace state ∧ AtRest step admitted state := by
  have onward : ∀ bound start, invariant start → measure start < bound → ∃ trace state,
      Run step admitted start trace state ∧ AtRest step admitted state := by
    intro bound
    induction bound with
    | zero => exact fun _ _ impossible => absurd impossible (Nat.not_lt_zero _)
    | succ bound inductionHypothesis =>
      intro start held low
      by_cases rests : AtRest step admitted start
      · exact ⟨[], start, .start, rests⟩
      · simp only [AtRest, not_forall, not_not] at rests
        obtain ⟨action, after, allowed, taken⟩ := rests
        have lower := lowers start action after held allowed taken
        obtain ⟨trace, state, run, still⟩ := inductionHypothesis after
          (kept start action after held allowed taken) (by omega)
        exact ⟨_, state, (Run.start.take action allowed taken).append run, still⟩
  exact onward (measure origin + 1) origin initial (Nat.lt_succ_self _)

end VHttp.Runs
