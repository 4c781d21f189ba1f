import Mathlib.Data.Finset.Card
import VHttp.SleepingPool

/-!
# Queued tasks and the workers that are awake for them

`VThreadPool_AddTask` signals `TaskAvaliable` once for each task, after it has let go of the
lock. By then the task may be gone, or all workers awake. While some worker is asleep the
tasks in the list are no more than the signals still to be sent and the workers that are awake
and not bound for a procedure that never returns. So no signal is lost: a worker sleeps on
only if somebody else comes for each task.
-/

namespace VHttp.ThreadPool

open Runs ConditionVariables

/-- The call has stored its task and is still to signal it. -/
def AddCall.signalling : AddCall → Bool
  | .enqueued _ => true
  | _ => false

namespace SleepingPool

open VThreadPool

/-- How many signals for a stored task are still to be sent. -/
def signals (pool : VThreadPool) : Nat := pool.adds.countP AddCall.signalling

/-- The workers that are awake and left for a task. -/
def ready (state : SleepingPool) : Finset Nat :=
  (Finset.range state.pool.positions.length).filter (fun worker =>
    worker ∉ state.taskAvaliable ∧ (state.pool.positions[worker]?).any Position.left = true)

theorem mem_ready {state : SleepingPool} {worker : Nat} :
    worker ∈ ready state ↔ worker ∉ state.taskAvaliable ∧
      ∃ position, state.pool.positions[worker]? = some position ∧ position.left = true := by
  rw [ready, Finset.mem_filter, Finset.mem_range, Option.any_eq_true]
  constructor
  · exact fun listed => listed.2
  · rintro ⟨awake, position, place, left⟩
    exact ⟨(List.getElem?_eq_some_iff.mp place).1, awake, position, place, left⟩

/-- A call that comes to the end of its enqueue has no signal to send before. -/
theorem signals_set {before grown : VThreadPool} {action : Action} {caller : Nat} {task : VTask}
    (source : Enqueuing before action caller task grown) (moved : AddCall) :
    (before.adds.set caller moved).countP AddCall.signalling =
      signals before + if moved.signalling then 1 else 0 := by
  obtain ⟨call, found, storing⟩ := source.storing
  have silent : call.signalling = false := by
    cases call with
    | entered task => rfl
    | blocked task => rfl
    | _ => cases storing
  have share := countP_set_share moved AddCall.signalling found
  rw [silent] at share
  exact share

/-- It takes no task and sends no signal in that step. -/
theorem enqueuing_apart {before grown : VThreadPool} {action : Action} {caller : Nat}
    {task : VTask} (source : Enqueuing before action caller task grown) :
    (∀ worker, action ≠ .take worker) ∧ ∀ other, action ≠ .signal other := by
  cases source with
  | locked => exact ⟨fun _ => Action.noConfusion, fun _ => Action.noConfusion⟩
  | retried => exact ⟨fun _ => Action.noConfusion, fun _ => Action.noConfusion⟩

/-- The tasks and the signals of a step. Only a worker that takes a task and a caller that
sends its signal change the one without the other. -/
theorem pending_after {before after : VThreadPool} {action : Action}
    (effect : Effect before action after) :
    (∃ worker, action = .take worker ∧ after.taskList.count + 1 = before.taskList.count ∧
        signals after = signals before) ∨
      (∃ caller, action = .signal caller ∧ after.taskList.count = before.taskList.count ∧
        signals after + 1 = signals before) ∨
      after.taskList.count + signals before = before.taskList.count + signals after ∧
        (∀ worker, action = .take worker → after.taskList.count = 0) ∧
        ∀ caller, action ≠ .signal caller := by
  cases effect with
  | idled worker thread read position empty =>
    exact Or.inr (Or.inr ⟨rfl, fun _ _ => empty, fun _ => Action.noConfusion⟩)
  | took worker thread task taskList read position available dequeued =>
    refine Or.inl ⟨worker, rfl, ?_, rfl⟩
    rw [(VTaskList.dequeue_spec available dequeued).2]
    exact Nat.sub_add_cancel (Nat.pos_of_ne_zero available)
  | signalled caller ticket call =>
    refine Or.inr (Or.inl ⟨caller, rfl, rfl, ?_⟩)
    exact countP_set_share (.returned ticket) AddCall.signalling call
  | entered procedure arg attr =>
    refine Or.inr (Or.inr ⟨?_, by simp, by simp⟩)
    simp [signals, List.countP_append, AddCall.signalling]
  | blocked action grown caller task source full =>
    have share := signals_set source (.blocked task)
    obtain ⟨noTake, noSignal⟩ := enqueuing_apart source
    exact Or.inr (Or.inr ⟨congrArg _ share.symm, fun worker takes => absurd takes (noTake worker),
      noSignal⟩)
  | stored action grown caller task taskList source room enqueued =>
    obtain rfl := VTaskList.enqueue_spec enqueued
    have share : _ = signals before + 1 :=
      signals_set source (.enqueued before.history.enqueued.length)
    obtain ⟨noTake, noSignal⟩ := enqueuing_apart source
    refine Or.inr (Or.inr ⟨?_, fun worker takes => absurd takes (noTake worker), noSignal⟩)
    have longer := congrArg (before.taskList.count + ·) share
    exact (Nat.add_right_comm _ _ _).trans longer.symm
  | _ => exact Or.inr (Or.inr ⟨rfl, by simp, by simp⟩)

variable {before after : SleepingPool} {action : Action} {woken : Option Nat}

/-- A worker that is awake and left stays so until it takes a task, or finds none. -/
theorem Acts.ready (acts : Acts before after action woken) {worker : Nat}
    (member : worker ∈ before.ready) (apart : action ≠ .take worker) : worker ∈ after.ready := by
  obtain ⟨awake, position, place, left⟩ := mem_ready.mp member
  obtain ⟨next, found, same | moves⟩ := acts.effect.moves place
  all_goals
    refine mem_ready.mpr ⟨?_, next, found, ?_⟩
    · intro asleep
      rcases acts.workers worker asleep with ⟨present, _⟩ | ⟨takes, _⟩
      · exact awake present
      · exact apart takes
  · exact same ▸ left
  · refine moves.left left (fun _ _ takes => absurd takes apart)

/-- A worker that goes to sleep has found no task. -/
theorem Acts.slept (acts : Acts before after action woken) (asleep : after.taskAvaliable ≠ []) :
    before.taskAvaliable ≠ [] ∨ before.pool.taskList.count = 0 := by
  obtain ⟨sleeper, remains⟩ := List.exists_mem_of_ne_nil _ asleep
  rcases acts.workers sleeper remains with ⟨present, _⟩ | ⟨_, empty⟩
  · exact Or.inl (List.ne_nil_of_mem present)
  · exact Or.inr empty

/-- While some worker is asleep, every queued task has a signal still to be sent, or a worker
that is awake and left for it. -/
def Covered (state : SleepingPool) : Prop :=
  state.taskAvaliable ≠ [] → state.pool.taskList.count ≤ signals state.pool + state.ready.card

/-- Every step keeps the tasks covered. A task is stored with a signal to send; the signal
wakes a worker, if one is asleep; a worker that is awake and left takes one task. -/
theorem Acts.covered (acts : Acts before after action woken) (sleepers : Sleepers before)
    (covered : Covered before) : Covered after := by
  intro asleep
  rcases pending_after acts.effect with ⟨worker, rfl, shorter, same⟩ |
    ⟨caller, rfl, same, sent⟩ | ⟨even, idle, noSignal⟩
  · have kept : before.ready ⊆ insert worker after.ready := by
      intro other member
      by_cases taker : other = worker
      · exact Finset.mem_insert.mpr (Or.inl taker)
      · refine Finset.mem_insert_of_mem (acts.ready member ?_)
        rintro ⟨⟩
        exact taker rfl
    have fewer := (Finset.card_le_card kept).trans (Finset.card_insert_le _ _)
    have enough := covered ((acts.slept asleep).resolve_right (by omega))
    omega
  · have lists := acts.taskAvaliable
    obtain ⟨sleeper, remains⟩ := List.exists_mem_of_ne_nil _ asleep
    have sleeping := List.ne_nil_of_mem (signal_subset lists sleeper remains)
    obtain ⟨waker, slept, awake⟩ := signal_wakes lists sleeping
    have place := waiting_stays acts.effect (sleepers.workers waker slept) (by simp)
    have kept : insert waker before.ready ⊆ after.ready := by
      intro other member
      rcases Finset.mem_insert.mp member with rfl | member
      · exact mem_ready.mpr ⟨awake, .waiting, place, rfl⟩
      · exact acts.ready member (by simp)
    have more := Finset.card_le_card kept
    rw [Finset.card_insert_of_notMem (fun member => (mem_ready.mp member).1 slept)] at more
    have enough := covered sleeping
    omega
  · by_cases takes : ∃ worker, action = .take worker
    · obtain ⟨worker, takes⟩ := takes
      rw [idle worker takes]
      exact Nat.zero_le _
    · have kept : before.ready ⊆ after.ready :=
        fun other member => acts.ready member (fun same => takes ⟨other, same⟩)
      have fewer := Finset.card_le_card kept
      rcases acts.slept asleep with sleeping | empty
      · have enough := covered sleeping
        omega
      · omega

/-- No signal for a task is lost, in any run. -/
theorem run_covered {numThreads : Nat} {admitted : SleepingPool → SleepingMove → Prop}
    {trace : List SleepingMove} {state : SleepingPool}
    (run : Run step admitted (init numThreads) trace state) : Covered state := by
  have both : Sleepers state ∧ Covered state := by
    apply run.induct (fun _ reached => Sleepers reached ∧ Covered reached)
      ⟨init_sleepers numThreads, fun asleep => absurd rfl asleep⟩
    rintro trace before move after _ ⟨sleepers, covered⟩ _ taken
    rcases step_cases taken with ⟨action, woken, rfl, acts⟩ | rests
    · exact ⟨acts.sleepers sleepers, acts.covered sleepers covered⟩
    · refine ⟨rests.sleepers sleepers, fun asleep => ?_⟩
      have kept : before.ready ⊆ after.ready := by
        intro worker member
        obtain ⟨awake, placed⟩ := mem_ready.mp member
        exact mem_ready.mpr ⟨fun slept => awake (rests.workers slept), rests.pool ▸ placed⟩
      have fewer := Finset.card_le_card kept
      have enough := covered (fun nobody => asleep (List.subset_nil.mp (nobody ▸ rests.workers)))
      rw [rests.pool]
      omega
  exact both.2

end SleepingPool

end VHttp.ThreadPool
