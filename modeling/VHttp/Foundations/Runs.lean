import Mathlib.Data.List.Induction

/-!
# Finite runs of a partial transition function

A system is a partial function from a state and an action to the next state; a
missing result means that the action is not enabled, or that it never finishes.
A run applies its actions from left to right. Each action must also be admitted
by a condition on the state it meets, so that a law which only holds while a
condition is respected can be stated of the runs that respect it. The condition
that admits everything gives the ordinary runs.

Every safety law over runs is reduced here, once, to a start case and a step
case. The invariant may mention the actions taken so far.
-/

namespace VHttp.Runs

universe u v
variable {State : Type u} {Action : Type v}

/-- The condition that restricts nothing. -/
def anywhere : State → Action → Prop := fun _ _ => True

/-- A finite run from `origin`, recording its actions in order. -/
inductive Run (step : State → Action → Option State) (admitted : State → Action → Prop)
    (origin : State) : List Action → State → Prop where
  | start : Run step admitted origin [] origin
  | next {trace : List Action} {before after : State} {action : Action}
      (earlier : Run step admitted origin trace before)
      (allowed : admitted before action)
      (taken : step before action = some after) :
      Run step admitted origin (trace ++ [action]) after

variable {step : State → Action → Option State} {admitted : State → Action → Prop}
variable {origin : State}

/-- One more step, of a named action. -/
theorem Run.take {trace : List Action} {before after : State}
    (run : Run step admitted origin trace before) (action : Action)
    (allowed : admitted before action) (taken : step before action = some after) :
    Run step admitted origin (trace ++ [action]) after :=
  run.next allowed taken

/-- A property of the trace and the state that holds at the start and survives
every admitted step holds at the end of every run. -/
theorem Run.induct (invariant : List Action → State → Prop)
    (initial : invariant [] origin)
    (preserved : ∀ trace before action after, Run step admitted origin trace before →
      invariant trace before → admitted before action → step before action = some after →
      invariant (trace ++ [action]) after)
    {trace : List Action} {state : State} (run : Run step admitted origin trace state) :
    invariant trace state := by
  induction run with
  | start => exact initial
  | next earlier allowed taken inductionHypothesis =>
    exact preserved _ _ _ _ earlier inductionHypothesis allowed taken

/-- The common case: the invariant reads the state alone. -/
theorem Run.invariant (holds : State → Prop) (initial : holds origin)
    (preserved : ∀ before action after, holds before → admitted before action →
      step before action = some after → holds after)
    {trace : List Action} {state : State} (run : Run step admitted origin trace state) :
    holds state :=
  run.induct (fun _ reached => holds reached) initial
    (fun _ before action after _ held allowed taken =>
      preserved before action after held allowed taken)

/-- A run under a condition is a run under every weaker one. -/
theorem Run.weaken {weaker : State → Action → Prop}
    (implied : ∀ state action, admitted state action → weaker state action)
    {trace : List Action} {state : State} (run : Run step admitted origin trace state) :
    Run step weaker origin trace state := by
  induction run with
  | start => exact Run.start
  | next earlier allowed taken inductionHypothesis =>
    exact Run.next inductionHypothesis (implied _ _ allowed) taken

/-- Runs compose: a run from the end of another extends it. -/
theorem Run.append {middle state : State} {first second : List Action}
    (run : Run step admitted origin first middle)
    (extension : Run step admitted middle second state) :
    Run step admitted origin (first ++ second) state := by
  induction extension with
  | start => simpa using run
  | next earlier allowed taken inductionHypothesis =>
    rw [← List.append_assoc]
    exact Run.next inductionHypothesis allowed taken

/-- Executing a list of actions with the partial function itself gives a run, under
any condition that admits these actions wherever they are taken. -/
theorem Run.of_admitted {actions : List Action} {state : State}
    (admits : ∀ action ∈ actions, ∀ reached, admitted reached action)
    (executed : actions.foldlM step origin = some state) :
    Run step admitted origin actions state := by
  induction actions generalizing origin with
  | nil =>
    have same : origin = state := Option.some.inj executed
    exact same ▸ Run.start
  | cons action rest inductionHypothesis =>
    simp only [List.foldlM_cons, Option.bind_eq_bind, Option.bind_eq_some_iff] at executed
    obtain ⟨middle, taken, remaining⟩ := executed
    have first : Run step admitted origin ([] ++ [action]) middle :=
      Run.next Run.start (admits action List.mem_cons_self origin) taken
    exact first.append (inductionHypothesis
      (fun later member => admits later (List.mem_cons_of_mem _ member)) remaining)

/-- The unconditional case. -/
theorem Run.of_foldlM {actions : List Action} {state : State}
    (executed : actions.foldlM step origin = some state) :
    Run step anywhere origin actions state :=
  Run.of_admitted (fun _ _ _ => trivial) executed

/-- A trace that executes to a state in which a test holds is a run to such a state. -/
theorem Run.reaches {actions : List Action} (test : State → Prop) [DecidablePred test]
    (executed : (actions.foldlM step origin).any (fun state => decide (test state)) = true) :
    ∃ state, Run step anywhere origin actions state ∧ test state := by
  obtain ⟨state, reached, passes⟩ := (Option.any_eq_true _ _).mp executed
  exact ⟨state, Run.of_foldlM reached, of_decide_eq_true passes⟩

/-- A run is what the partial function executes. -/
theorem Run.executed {actions : List Action} {state : State}
    (run : Run step admitted origin actions state) : actions.foldlM step origin = some state := by
  induction run with
  | start => rfl
  | next earlier allowed taken inductionHypothesis =>
    rw [List.foldlM_append, inductionHypothesis]
    simpa using taken

/-- The first action of a run, and the rest of it. -/
theorem Run.first {action : Action} {rest : List Action} {state : State}
    (run : Run step anywhere origin (action :: rest) state) :
    ∃ middle, step origin action = some middle ∧ Run step anywhere middle rest state := by
  have executed := run.executed
  simp only [List.foldlM_cons, Option.bind_eq_bind, Option.bind_eq_some_iff] at executed
  obtain ⟨middle, taken, remaining⟩ := executed
  exact ⟨middle, taken, Run.of_foldlM remaining⟩

/-- A system whose steps are runs of another one, between related states, has its runs there
too. -/
theorem Run.simulates {State' : Type u} {Action' : Type v}
    {step' : State' → Action' → Option State'} {admitted' : State' → Action' → Prop}
    {origin' : State'} (related : State → State' → Prop) (initial : related origin origin')
    (forward : ∀ before action after before', related before before' → admitted before action →
      step before action = some after → ∃ trace' after',
        Run step' admitted' before' trace' after' ∧ related after after')
    {trace : List Action} {state : State} (run : Run step admitted origin trace state) :
    ∃ trace' state', Run step' admitted' origin' trace' state' ∧ related state state' := by
  induction run with
  | start => exact ⟨[], origin', Run.start, initial⟩
  | next earlier allowed taken inductionHypothesis =>
    obtain ⟨trace', before', reached, relates⟩ := inductionHypothesis
    obtain ⟨more, after', further, again⟩ := forward _ _ _ before' relates allowed taken
    exact ⟨trace' ++ more, after', reached.append further, again⟩

/-- A run can be cut anywhere. -/
theorem Run.split {first second : List Action} {state : State}
    (run : Run step admitted origin (first ++ second) state) :
    ∃ middle, Run step admitted origin first middle ∧ Run step admitted middle second state := by
  induction second using List.reverseRecOn generalizing state with
  | nil => exact ⟨state, by simpa using run, Run.start⟩
  | append_singleton rest action inductionHypothesis =>
    rw [← List.append_assoc] at run
    generalize whole : first ++ rest ++ [action] = trace at run
    cases run with
    | start => simp at whole
    | next earlier allowed taken =>
      obtain ⟨rfl, same⟩ := List.append_inj' whole rfl
      obtain rfl := (List.cons.inj same).1
      obtain ⟨middle, front, back⟩ := inductionHypothesis earlier
      exact ⟨middle, front, Run.next back allowed taken⟩

/-- When admitted steps keep an invariant that implies a law, and where it holds no other
step keeps the law, the law holds all along a run exactly if every step of the run is
admitted. -/
theorem Run.always_iff (law invariant : State → Prop) (initial : invariant origin)
    (implied : ∀ state, invariant state → law state)
    (preserved : ∀ before action after, invariant before → admitted before action →
      step before action = some after → invariant after)
    (necessary : ∀ before action after, invariant before → step before action = some after →
      law after → admitted before action)
    {trace : List Action} {state : State} (run : Run step anywhere origin trace state) :
    (∀ earlier reached, earlier <+: trace → Run step anywhere origin earlier reached →
      law reached) ↔ Run step admitted origin trace state := by
  constructor
  · intro always
    induction run with
    | start => exact Run.start
    | next earlier _ taken inductionHypothesis =>
      have after := always _ _ List.prefix_rfl (Run.next earlier trivial taken)
      have allowed := inductionHypothesis
        (fun shorter reached front => always shorter reached (front.trans (List.prefix_append _ _)))
      have before := allowed.invariant invariant initial preserved
      exact Run.next allowed (necessary _ _ _ before taken after) taken
  · intro allowed earlier reached front shorter
    obtain ⟨rest, rfl⟩ := front
    obtain ⟨middle, first, _⟩ := allowed.split
    obtain rfl : middle = reached := Option.some.inj (first.executed.symm.trans shorter.executed)
    exact implied middle (first.invariant invariant initial preserved)

/-- When every admitted step inside a region has a result and lowers a measure, a sequence of
actions that are admitted as long as the region is not left leads out of it. -/
theorem leaves_region {invariant region : State → Prop} (measure : State → Nat)
    {actions : Nat → Action} (initial : invariant origin)
    (descends : ∀ before action, invariant before → region before → admitted before action →
      ∃ after, step before action = some after ∧ invariant after ∧
        (region after → measure after < measure before))
    (offered : ∀ count state, Run step admitted origin ((List.range count).map actions) state →
      region state → admitted state (actions count)) :
    ∃ count state, Run step admitted origin ((List.range count).map actions) state ∧
      invariant state ∧ ¬ region state := by
  have onward : ∀ bound count state, measure state < bound → invariant state →
      Run step admitted origin ((List.range count).map actions) state →
      ∃ count state, Run step admitted origin ((List.range count).map actions) state ∧
        invariant state ∧ ¬ region state := by
    intro bound
    induction bound with
    | zero => exact fun _ _ impossible => absurd impossible (Nat.not_lt_zero _)
    | succ bound inductionHypothesis =>
      intro count state low held run
      by_cases inside : region state
      · have allowed := offered count state run inside
        obtain ⟨after, taken, kept, lower⟩ := descends state _ held inside allowed
        have longer : Run step admitted origin ((List.range (count + 1)).map actions) after := by
          rw [List.range_succ, List.map_append]
          exact Run.next run allowed taken
        by_cases still : region after
        · have below := lower still
          exact inductionHypothesis (count + 1) after (by omega) kept longer
        · exact ⟨count + 1, after, longer, kept, still⟩
      · exact ⟨count, state, run, held, inside⟩
  exact onward (measure origin + 1) 0 origin (Nat.lt_succ_self _) initial Run.start

/-- The actions of a run that has left a region, which no step leads back into, are admitted as
long as the region is not left, whatever follows them. -/
theorem Run.offered {region : State → Prop}
    (outside : ∀ before action after, ¬ region before → step before action = some after →
      ¬ region after)
    {actions : Nat → Action} {count : Nat} {state : State}
    (run : Run step admitted origin ((List.range count).map actions) state)
    (left : ¬ region state) (shorter : Nat) (reached : State)
    (earlier : Run step admitted origin ((List.range shorter).map actions) reached)
    (inside : region reached) : admitted reached (actions shorter) := by
  rcases Nat.lt_or_ge shorter count with below | beyond
  · obtain ⟨more, rfl⟩ := Nat.exists_eq_add_of_le (Nat.succ_le_of_lt below)
    rw [List.range_add, List.map_append, List.range_succ, List.map_append, List.map_singleton] at run
    obtain ⟨_, next, _⟩ := run.split
    generalize whole : (List.range shorter).map actions ++ [actions shorter] = trace at next
    cases next with
    | start => simp at whole
    | next first allowed _ =>
      obtain ⟨rfl, same⟩ := List.append_inj' whole rfl
      obtain rfl := Option.some.inj (first.executed.symm.trans earlier.executed)
      exact (List.cons.inj same).1 ▸ allowed
  · obtain ⟨more, rfl⟩ := Nat.exists_eq_add_of_le beyond
    rw [List.range_add, List.map_append] at earlier
    obtain ⟨middle, first, rest⟩ := earlier.split
    obtain rfl : middle = state := Option.some.inj (first.executed.symm.trans run.executed)
    exact absurd inside (rest.invariant (fun reached => ¬ region reached) left
      (fun before action after away _ taken => outside before action after away taken))

end VHttp.Runs
