import VHttp.EndlessTasks
import VHttp.Foundations.ConditionVariables

/-!
# The pool with its condition variables

In `VHttp.VThreadPool` a thread that waits on a condition may go on at any time. Here it is
asleep until it is woken: workers on `TaskAvaliable`, callers of `VThreadPool_AddTask` on
`ThreadDone`, callers of `VThreadPool_Wait` on `AllThreadsDone`. A section that ends in
`pthread_cond_wait` puts its thread to sleep, and one that calls `pthread_cond_signal` wakes
one thread of the schedule's choice. A thread that has been woken holds the lock again and
repeats its test, as it does after waking for no reason.

Every run of this pool is one of the pool without condition variables.
-/

namespace VHttp.ThreadPool

open ConditionVariables Runs

/-- A pool with the threads asleep on each of its condition variables. -/
structure SleepingPool where
  pool : VThreadPool
  taskAvaliable : List Nat
  threadDone : List Nat
  allThreadsDone : List Nat
  deriving DecidableEq

/-- A step of a thread, with the thread that it wakes if it signals, or a thread that wakes
for no reason. -/
inductive SleepingMove where
  | act (action : Action) (woken : Option Nat)
  | wakeWorker (worker : Nat)
  | wakeCaller (caller : Nat)
  | wakeWaiter (waiter : Nat)
  deriving DecidableEq

/-- The step of the pool that a move takes, if it takes one. -/
def SleepingMove.action : SleepingMove → Option Action
  | .act action _ => some action
  | _ => none

/-- The worker is inside a procedure marked `PROC_INFINITY`. -/
def Position.inside : Position → Bool
  | .working .running _ task => decide (task.attr = .infinity)
  | _ => false

theorem Position.inside_spec {position : Position} (inside : position.inside = true) :
    ∃ ticket task, position = .working .running ticket task ∧ task.attr = .infinity := by
  cases position with
  | working stage ticket task =>
    cases stage with
    | running => exact ⟨ticket, task, rfl, of_decide_eq_true inside⟩
    | _ => cases inside
  | _ => cases inside

namespace SleepingPool

open VThreadPool

/-- `VThreadPool_Init`. -/
def init (numThreads : Nat) : SleepingPool := ⟨VThreadPool.init numThreads, [], [], []⟩

/-- The thread that takes a step is not asleep. -/
def awake (state : SleepingPool) : Action → Bool
  | .take worker => decide (worker ∉ state.taskAvaliable)
  | .retry caller => decide (caller ∉ state.threadDone)
  | .test waiter => decide (waiter ∉ state.allThreadsDone)
  | _ => true

/-- A worker sleeps on `TaskAvaliable` when it finds no task; a caller signals it when it has
stored one and let go of the lock. -/
def taskAvaliableAfter (state : SleepingPool) (woken : Option Nat) : Action → Option (List Nat)
  | .take worker =>
    some (if state.pool.taskList.count = 0 then worker :: state.taskAvaliable
      else state.taskAvaliable)
  | .signal _ => signal state.taskAvaliable woken
  | _ => some state.taskAvaliable

/-- A caller sleeps on `ThreadDone` when it finds no room; a worker signals it when a
procedure has returned. -/
def threadDoneAfter (state : SleepingPool) (woken : Option Nat) : Action → Option (List Nat)
  | .lock caller _ =>
    some (if full state.pool then caller :: state.threadDone else state.threadDone)
  | .retry caller =>
    some (if full state.pool then caller :: state.threadDone else state.threadDone)
  | .leave _ => signal state.threadDone woken
  | _ => some state.threadDone

/-- A waiter sleeps on `AllThreadsDone` while a task is queued or counted as running; a worker
signals it when it is through with a task and none is counted. -/
def allThreadsDoneAfter (state : SleepingPool) (woken : Option Nat) : Action → Option (List Nat)
  | .test waiter =>
    some (if 0 < state.pool.normalThreadsWorking ∨ 0 < state.pool.taskList.count then
      waiter :: state.allThreadsDone else state.allThreadsDone)
  | .finish _ =>
    if state.pool.normalThreadsWorking = 0 then signal state.allThreadsDone woken
    else some state.allThreadsDone
  | _ => some state.allThreadsDone

/-- One move. -/
def step (state : SleepingPool) : SleepingMove → Option SleepingPool
  | .act action woken => do
    guard (state.awake action = true)
    let pool ← VThreadPool.step state.pool action
    let taskAvaliable ← state.taskAvaliableAfter woken action
    let threadDone ← state.threadDoneAfter woken action
    let allThreadsDone ← state.allThreadsDoneAfter woken action
    pure ⟨pool, taskAvaliable, threadDone, allThreadsDone⟩
  | .wakeWorker worker => do
    let taskAvaliable ← wake state.taskAvaliable worker
    pure { state with taskAvaliable := taskAvaliable }
  | .wakeCaller caller => do
    let threadDone ← wake state.threadDone caller
    pure { state with threadDone := threadDone }
  | .wakeWaiter waiter => do
    let allThreadsDone ← wake state.allThreadsDone waiter
    pure { state with allThreadsDone := allThreadsDone }

/-- A step of a thread: one of the pool by a thread that is awake, and what becomes of the
three condition variables. -/
structure Acts (before after : SleepingPool) (action : Action) (woken : Option Nat) : Prop where
  awake : before.awake action = true
  stepped : VThreadPool.step before.pool action = some after.pool
  taskAvaliable : before.taskAvaliableAfter woken action = some after.taskAvaliable
  threadDone : before.threadDoneAfter woken action = some after.threadDone
  allThreadsDone : before.allThreadsDoneAfter woken action = some after.allThreadsDone

theorem Acts.effect {before after : SleepingPool} {action : Action} {woken : Option Nat}
    (acts : Acts before after action woken) : Effect before.pool action after.pool :=
  step_effect acts.stepped

theorem step_acts {before after : SleepingPool} {action : Action} {woken : Option Nat}
    (taken : step before (.act action woken) = some after) : Acts before after action woken := by
  simp only [step, Option.bind_eq_bind, Option.bind_eq_some_iff, Option.guard_eq_some',
    Option.pure_def, Option.some.injEq] at taken
  obtain ⟨_, awake, pool, stepped, _, first, _, second, _, third, rfl⟩ := taken
  exact ⟨awake, stepped, first, second, third⟩

/-- A thread wakes for no reason: the pool stays as it is, and nobody goes to sleep. -/
structure Rests (before after : SleepingPool) : Prop where
  pool : after.pool = before.pool
  workers : after.taskAvaliable ⊆ before.taskAvaliable
  callers : after.threadDone ⊆ before.threadDone
  waiters : after.allThreadsDone ⊆ before.allThreadsDone

theorem step_rests {before after : SleepingPool} {move : SleepingMove}
    (taken : step before move = some after) (rests : move.action = none) :
    Rests before after := by
  cases move with
  | act action woken => cases rests
  | wakeWorker worker =>
    simp only [step, Option.bind_eq_bind, Option.bind_eq_some_iff, Option.pure_def,
      Option.some.injEq] at taken
    obtain ⟨rest, woken, rfl⟩ := taken
    exact ⟨rfl, fun _ member => (((wake_spec woken).2 _).mp member).1, fun _ => id, fun _ => id⟩
  | wakeCaller caller =>
    simp only [step, Option.bind_eq_bind, Option.bind_eq_some_iff, Option.pure_def,
      Option.some.injEq] at taken
    obtain ⟨rest, woken, rfl⟩ := taken
    exact ⟨rfl, fun _ => id, fun _ member => (((wake_spec woken).2 _).mp member).1, fun _ => id⟩
  | wakeWaiter waiter =>
    simp only [step, Option.bind_eq_bind, Option.bind_eq_some_iff, Option.pure_def,
      Option.some.injEq] at taken
    obtain ⟨rest, woken, rfl⟩ := taken
    exact ⟨rfl, fun _ => id, fun _ => id, fun _ member => (((wake_spec woken).2 _).mp member).1⟩

/-- Every move is a step of a thread, or a thread that wakes. -/
theorem step_cases {before after : SleepingPool} {move : SleepingMove}
    (taken : step before move = some after) :
    (∃ action woken, move = .act action woken ∧ Acts before after action woken) ∨
      Rests before after := by
  cases move with
  | act action woken => exact Or.inl ⟨action, woken, rfl, step_acts taken⟩
  | _ => exact Or.inr (step_rests taken rfl)

/-- Without its condition variables and the moments at which threads wake, a run is one of the
pool of `VHttp.VThreadPool`, so what holds of every state reached there holds here. -/
theorem run_pool {numThreads : Nat} {admitted : SleepingPool → SleepingMove → Prop}
    {trace : List SleepingMove} {state : SleepingPool}
    (run : Run step admitted (init numThreads) trace state) :
    Run VThreadPool.step anywhere (VThreadPool.init numThreads)
      (trace.filterMap SleepingMove.action) state.pool := by
  induction run with
  | start => exact Run.start
  | @next trace before after move earlier _ taken inductionHypothesis =>
    rw [List.filterMap_append]
    cases moved : move.action with
    | none => simpa [moved, (step_rests taken moved).pool] using inductionHypothesis
    | some action =>
      rw [List.filterMap_cons_some moved, List.filterMap_nil]
      cases move with
      | act first woken =>
        obtain rfl : first = action := Option.some.inj moved
        exact Run.next inductionHypothesis trivial (step_acts taken).stepped
      | _ => cases moved

/-- Where the sleepers stand: a worker in the loop of its test for a task, a caller in the loop
of its test for room. -/
structure Sleepers (state : SleepingPool) : Prop where
  workers : ∀ worker ∈ state.taskAvaliable, state.pool.positions[worker]? = some .waiting
  callers : ∀ caller ∈ state.threadDone, ∃ task, state.pool.adds[caller]? = some (.blocked task)

theorem init_sleepers (numThreads : Nat) : Sleepers (init numThreads) :=
  ⟨fun _ member => (List.not_mem_nil member).elim, fun _ member => (List.not_mem_nil member).elim⟩

/-- A worker in the loop of its test stays there until it tests again. -/
theorem waiting_stays {before after : VThreadPool} {action : Action} {sleeper : Nat}
    (effect : Effect before action after) (place : before.positions[sleeper]? = some .waiting)
    (apart : action ≠ .take sleeper) : after.positions[sleeper]? = some .waiting := by
  obtain ⟨next, found, same | moves⟩ := effect.moves place
  · exact same ▸ found
  · cases moves with
    | wait => exact absurd rfl apart
    | take => exact absurd rfl apart

/-- A worker that finds no task goes to sleep in the loop of its test. -/
theorem take_waits {before after : VThreadPool} {worker : Nat}
    (effect : Effect before (.take worker) after) (empty : before.taskList.count = 0) :
    after.positions[worker]? = some .waiting := by
  cases effect with
  | idled worker thread read position empty =>
    simp [positions, (List.getElem?_eq_some_iff.mp read).1]
  | took worker thread task taskList read position available dequeued =>
    exact absurd empty available
  | blocked action grown caller task source full => cases source
  | stored action grown caller task taskList source room enqueued => cases source

/-- A caller in the loop of its test stays there until it tests again. -/
theorem blocked_stays {before after : VThreadPool} {action : Action} {sleeper : Nat} {task : VTask}
    (effect : Effect before action after)
    (place : before.adds[sleeper]? = some (.blocked task)) (apart : action ≠ .retry sleeper) :
    after.adds[sleeper]? = some (.blocked task) := by
  have others : ∀ {caller : Nat} (moved : AddCall), caller ≠ sleeper →
      (before.adds.set caller moved)[sleeper]? = some (.blocked task) := by
    intro caller moved different
    rw [List.getElem?_set_ne different]
    exact place
  rcases effect.calls with same | ⟨entered, appended⟩ | ⟨caller, stored, grown, source, moved⟩ |
    ⟨caller, ticket, _, call, moved⟩
  · rw [same]
    exact place
  · rw [appended, List.getElem?_append_left (List.getElem?_eq_some_iff.mp place).1]
    exact place
  · have different : caller ≠ sleeper := by
      rintro rfl
      cases source with
      | locked caller moves task call => simp [call] at place
      | retried caller task call => exact apart rfl
    rcases moved with ⟨_, moved⟩ | ⟨_, moved⟩
    · exact moved ▸ others _ different
    · exact moved ▸ others _ different
  · have different : caller ≠ sleeper := by
      rintro rfl
      simp [call] at place
    exact moved ▸ others _ different

/-- A caller that finds no room goes to sleep in the loop of its test. -/
theorem enqueuing_blocks {before after : VThreadPool} {action : Action} {sleeper : Nat}
    (effect : Effect before action after) (noRoom : full before)
    (enqueues : (∃ moves, action = .lock sleeper moves) ∨ action = .retry sleeper) :
    ∃ task, after.adds[sleeper]? = some (.blocked task) := by
  cases effect with
  | blocked action grown caller task source full =>
    cases source with
    | locked caller moves task call =>
      obtain rfl : caller = sleeper := by simpa using enqueues
      exact ⟨task, List.getElem?_set_self (List.getElem?_eq_some_iff.mp call).1⟩
    | retried caller task call =>
      obtain rfl : caller = sleeper := by simpa using enqueues
      exact ⟨task, List.getElem?_set_self (List.getElem?_eq_some_iff.mp call).1⟩
  | stored action grown caller task taskList source room enqueued => exact absurd noRoom room
  | _ => simp at enqueues

variable {before after : SleepingPool} {action : Action} {woken : Option Nat}

/-- The workers asleep after a step: those asleep before, or one that has found no task. -/
theorem Acts.workers (acts : Acts before after action woken) :
    ∀ sleeper ∈ after.taskAvaliable, sleeper ∈ before.taskAvaliable ∧ action ≠ .take sleeper ∨
      action = .take sleeper ∧ before.pool.taskList.count = 0 := by
  intro sleeper member
  have awake := acts.awake
  have lists := acts.taskAvaliable
  cases action with
  | take worker =>
    simp only [SleepingPool.awake, decide_eq_true_eq] at awake
    simp only [taskAvaliableAfter, Option.some.injEq] at lists
    rw [← lists] at member
    rcases asleep_cases member with ⟨rfl, empty⟩ | present
    · exact Or.inr ⟨rfl, empty⟩
    · refine Or.inl ⟨present, ?_⟩
      rintro ⟨⟩
      exact awake present
  | signal caller => exact Or.inl ⟨signal_subset lists sleeper member, by simp⟩
  | _ => exact Or.inl ⟨Option.some.inj lists ▸ member, by simp⟩

/-- The callers asleep after a step: those asleep before, or one that has found no room. -/
theorem Acts.callers (acts : Acts before after action woken) :
    ∀ sleeper ∈ after.threadDone, sleeper ∈ before.threadDone ∧ action ≠ .retry sleeper ∨
      ((∃ moves, action = .lock sleeper moves) ∨ action = .retry sleeper) ∧ full before.pool := by
  intro sleeper member
  have awake := acts.awake
  have lists := acts.threadDone
  cases action with
  | lock caller moves =>
    simp only [threadDoneAfter, Option.some.injEq] at lists
    rw [← lists] at member
    rcases asleep_cases member with ⟨rfl, noRoom⟩ | present
    · exact Or.inr ⟨Or.inl ⟨moves, rfl⟩, noRoom⟩
    · exact Or.inl ⟨present, by simp⟩
  | retry caller =>
    simp only [SleepingPool.awake, decide_eq_true_eq] at awake
    simp only [threadDoneAfter, Option.some.injEq] at lists
    rw [← lists] at member
    rcases asleep_cases member with ⟨rfl, noRoom⟩ | present
    · exact Or.inr ⟨Or.inr rfl, noRoom⟩
    · refine Or.inl ⟨present, ?_⟩
      rintro ⟨⟩
      exact awake present
  | leave worker => exact Or.inl ⟨signal_subset lists sleeper member, by simp⟩
  | _ => exact Or.inl ⟨Option.some.inj lists ▸ member, by simp⟩

/-- Every step leaves the sleepers where they stand. -/
theorem Acts.sleepers (acts : Acts before after action woken) (sleepers : Sleepers before) :
    Sleepers after := by
  constructor
  · intro sleeper member
    rcases acts.workers sleeper member with ⟨present, apart⟩ | ⟨rfl, empty⟩
    · exact waiting_stays acts.effect (sleepers.workers sleeper present) apart
    · exact take_waits acts.effect empty
  · intro sleeper member
    rcases acts.callers sleeper member with ⟨present, apart⟩ | ⟨enqueues, noRoom⟩
    · obtain ⟨task, place⟩ := sleepers.callers sleeper present
      exact ⟨task, blocked_stays acts.effect place apart⟩
    · exact enqueuing_blocks acts.effect noRoom enqueues

/-- Nobody moves where a thread wakes. -/
theorem Rests.sleepers (rests : Rests before after) (sleepers : Sleepers before) :
    Sleepers after := by
  constructor
  · exact fun sleeper member => rests.pool ▸ sleepers.workers sleeper (rests.workers member)
  · exact fun sleeper member => rests.pool ▸ sleepers.callers sleeper (rests.callers member)

/-- Every sleeper stands in the loop of its test, in every run. -/
theorem run_sleepers {numThreads : Nat} {admitted : SleepingPool → SleepingMove → Prop}
    {trace : List SleepingMove} {state : SleepingPool}
    (run : Run step admitted (init numThreads) trace state) : Sleepers state := by
  apply run.invariant Sleepers (init_sleepers numThreads)
  intro before move after sleepers _ taken
  rcases step_cases taken with ⟨action, woken, rfl, acts⟩ | rests
  · exact acts.sleepers sleepers
  · exact rests.sleepers sleepers

/-! ## Nobody left to move -/

/-- Every worker is blocked on `TaskAvaliable` or inside a procedure marked `PROC_INFINITY`. -/
def Settled (state : SleepingPool) : Prop :=
  ∀ (worker : Nat) (position : Position), state.pool.positions[worker]? = some position →
    worker ∈ state.taskAvaliable ∨ position.inside = true

/-- In a settled pool nobody stands where no worker waits and none is inside such a
procedure. -/
theorem Settled.nowhere {state : SleepingPool} (settled : Settled state)
    (sleepers : Sleepers state) {test : Position → Bool} (waiting : test .waiting = false)
    (inside : ∀ position, position.inside = true → test position = false) :
    ¬ state.pool.Somewhere test := by
  rintro ⟨position, member, passes⟩
  obtain ⟨worker, place⟩ := List.mem_iff_getElem?.mp member
  have fails : test position = false := by
    rcases settled worker position place with asleep | endless
    · rw [sleepers.workers worker asleep, Option.some.injEq] at place
      exact place ▸ waiting
    · exact inside position endless
  rw [fails] at passes
  cases passes

end SleepingPool

end VHttp.ThreadPool
