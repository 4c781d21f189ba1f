import VHttp.Foundations.Descent
import VHttp.Foundations.Weights
import VHttp.PoolWait
import VHttp.TaskSignals

/-!
# A pool comes to rest

When no more calls begin, the threads of a pool have only so much left to do: each worker has
the rest of its round, each queued task a whole round before it, each call its own sections, and
a signal gives its sleeper one more test. So every schedule comes to an end after a bounded
number of steps. In the end every worker sleeps or is inside a procedure that does not return,
and if one of them sleeps, nothing is left of what the calls have enqueued: no signal for a task
is lost, and whoever dequeues a task is not asleep before it is through with it.
-/

namespace VHttp.ThreadPool

open Runs ConditionVariables

/-- What a worker still has to do before it sleeps. -/
def Position.weight : Position → Bool → Nat
  | .waiting, asleep => if asleep then 0 else 1
  | .fetching, _ => 1
  | .starting, _ => 2
  | .finishing, _ => 3
  | .working .returned _ _, _ => 5
  | .working .running _ _, _ => 6
  | .working .counted _ _, _ => 7
  | .working .announced _ _, _ => 8
  | .working .held _ _, _ => 9

/-- What a call of `VThreadPool_AddTask` still has to do, with the round of its task, the
thread that it may add and the worker that it wakes. -/
def AddCall.weight : AddCall → Bool → Nat
  | .entered _, _ => 14
  | .blocked _, asleep => if asleep then 11 else 12
  | .enqueued _, _ => 2
  | .returned _, _ => 0

/-- What a call of `VThreadPool_Wait` still has to do before it sleeps or returns. -/
def WaitCall.weight (wait : WaitCall) (asleep : Bool) : Nat :=
  if wait.state = .returned ∨ asleep = true then 0 else 1

/-- Whoever is awake has at most one test more to do than asleep. -/
theorem Position.wakes (position : Position) :
    position.weight false ≤ position.weight true + 1 := by
  cases position with
  | working stage _ _ => cases stage <;> exact Nat.le_succ _
  | waiting => exact Nat.le_refl 1
  | _ => exact Nat.le_succ _

theorem AddCall.wakes (call : AddCall) : call.weight false ≤ call.weight true + 1 := by
  cases call with
  | blocked task => exact Nat.le_refl 12
  | _ => exact Nat.le_succ _

theorem WaitCall.wakes (wait : WaitCall) : wait.weight false ≤ wait.weight true + 1 := by
  unfold WaitCall.weight
  split <;> simp

namespace SleepingPool

open VThreadPool

/-- What all threads still have to do, with a round of a worker for each queued task. -/
def work (state : SleepingPool) : Nat :=
  weigh Position.weight state.taskAvaliable state.pool.positions +
    weigh AddCall.weight state.threadDone state.pool.adds +
    weigh WaitCall.weight state.allThreadsDone state.pool.waits +
    9 * state.pool.taskList.count

/-- The steps that go on with what has begun: no call is entered, nobody wakes for no reason,
and no procedure marked `PROC_INFINITY` returns. -/
def Onward (state : SleepingPool) : SleepingMove → Prop
  | .act (.addTask _ _ _) _ | .act .enterWait _ => False
  | .act (.complete worker) _ =>
    ∀ position, state.pool.positions[worker]? = some position → position.inside = false
  | .act _ _ => True
  | _ => False

section Spending

variable {before after : VThreadPool} {action : Action}

/-- A worker that goes on has less to do. -/
theorem worker_spends {worker less : Nat} {thread next : Thread}
    (read : before.threads[worker]? = some thread) (asleep : List Nat)
    (lower : ∀ sleeps, next.position.weight sleeps + less ≤ thread.position.weight sleeps) :
    weigh Position.weight asleep ((before.threads.set worker next).map Thread.position) + less ≤
      weigh Position.weight asleep before.positions := by
  have moved : weigh Position.weight asleep (before.positions.set worker next.position) +
      thread.position.weight (decide (worker ∈ asleep)) =
      weigh Position.weight asleep before.positions +
        next.position.weight (decide (worker ∈ asleep)) :=
    weigh_set next.position (positions_read read) (fun _ _ => Iff.rfl)
  have less := lower (decide (worker ∈ asleep))
  rw [positions_set]
  omega

/-- The threads of a pool to which one may have been added. -/
theorem enqueuing_positions {grown : VThreadPool} {caller : Nat} {task : VTask}
    (source : Enqueuing before action caller task grown) :
    (∃ moves, action = .lock caller moves) ∧ grown.positions = before.positions ++ [.starting] ∨
      grown.positions = before.positions := by
  cases source with
  | locked caller moves task call =>
    by_cases crowded : before.isAllThreadsInfinite = true
    · obtain ⟨olds, threads, _, places⟩ := addThread_threads before moves
      refine Or.inl ⟨⟨moves, rfl⟩, ?_⟩
      rw [if_pos crowded, VThreadPool.positions, threads, List.map_append, places]
      rfl
    · exact Or.inr (by rw [if_neg crowded])
  | retried caller task call => exact Or.inr rfl

/-- A worker that is awake and locks the list goes on to a task, or to sleep. -/
theorem take_spends {worker : Nat} {thread next : Thread} {asleep rest : List Nat}
    (read : before.threads[worker]? = some thread)
    (idle : thread.position = .fetching ∨ thread.position = .waiting) (awake : worker ∉ asleep)
    (others : ∀ other, other ≠ worker → (other ∈ rest ↔ other ∈ asleep)) :
    weigh Position.weight rest ((before.threads.set worker next).map Thread.position) + 1 =
      weigh Position.weight asleep before.positions +
        next.position.weight (decide (worker ∈ rest)) := by
  have moved : weigh Position.weight rest (before.positions.set worker next.position) +
      thread.position.weight (decide (worker ∈ asleep)) =
      weigh Position.weight asleep before.positions +
        next.position.weight (decide (worker ∈ rest)) :=
    weigh_set next.position (positions_read read) others
  have one : thread.position.weight (decide (worker ∈ asleep)) = 1 := by
    rcases idle with fetching | waiting
    · rw [fetching]
      rfl
    · simp [waiting, Position.weight, awake]
  rw [positions_set]
  omega

/-- A call that has come to the end of its enqueue, with the thread it may have added: it has
spent its own section, and a task that it has stored is paid for. -/
theorem enqueue_spends {grown : VThreadPool} {caller : Nat} {task : VTask} {asleep : List Nat}
    {rest : List Nat} (moved : AddCall) (stored : Nat)
    (source : Enqueuing before action caller task grown)
    (awake : action = .retry caller → caller ∉ asleep)
    (others : ∀ other, other ≠ caller → (other ∈ rest ↔ other ∈ asleep))
    (workers : List Nat)
    (paid : moved.weight (decide (caller ∈ rest)) + 9 * stored ≤ 11) :
    weigh Position.weight workers grown.positions +
      weigh AddCall.weight rest (before.adds.set caller moved) + 9 * stored <
      weigh Position.weight workers before.positions + weigh AddCall.weight asleep before.adds := by
  have added : weigh Position.weight workers grown.positions ≤
      weigh Position.weight workers before.positions + 2 := by
    rcases enqueuing_positions source with ⟨_, more⟩ | same
    · rw [more, weigh_append]
      exact Nat.le_refl _
    · rw [same]
      exact Nat.le_add_right _ _
  cases source with
  | locked caller moves task call =>
    have spent : weigh AddCall.weight rest (before.adds.set caller moved) + 14 =
        weigh AddCall.weight asleep before.adds + moved.weight (decide (caller ∈ rest)) :=
      weigh_set moved call others
    omega
  | retried caller task call =>
    have spent : weigh AddCall.weight rest (before.adds.set caller moved) +
        AddCall.weight (.blocked task) (decide (caller ∈ asleep)) =
        weigh AddCall.weight asleep before.adds + moved.weight (decide (caller ∈ rest)) :=
      weigh_set moved call others
    have twelve : AddCall.weight (.blocked task) (decide (caller ∈ asleep)) = 12 := by
      simp [AddCall.weight, awake rfl]
    omega

/-- A call of `VThreadPool_Wait` that is awake and tests returns, or goes to sleep. -/
theorem test_spends {waiter : Nat} {wait next : WaitCall} {asleep rest : List Nat}
    (read : before.waits[waiter]? = some wait) (pending : wait.state ≠ .returned)
    (awake : waiter ∉ asleep) (others : ∀ other, other ≠ waiter → (other ∈ rest ↔ other ∈ asleep))
    (through : next.state = .returned ∨ waiter ∈ rest) :
    weigh WaitCall.weight rest (before.waits.set waiter next) + 1 =
      weigh WaitCall.weight asleep before.waits := by
  have moved : weigh WaitCall.weight rest (before.waits.set waiter next) +
      wait.weight (decide (waiter ∈ asleep)) =
      weigh WaitCall.weight asleep before.waits + next.weight (decide (waiter ∈ rest)) :=
    weigh_set next read others
  have one : wait.weight (decide (waiter ∈ asleep)) = 1 := by
    simp [WaitCall.weight, pending, awake]
  have none : next.weight (decide (waiter ∈ rest)) = 0 := by
    simp [WaitCall.weight, through]
  omega

end Spending

variable {before after : SleepingPool} {action : Action} {woken : Option Nat}

/-- What a worker spends pays for the thread that it wakes. -/
theorem work_spent {less : Nat} (called waited : Nat)
    (workers : weigh Position.weight after.taskAvaliable after.pool.positions + less ≤
      weigh Position.weight before.taskAvaliable before.pool.positions)
    (callers : weigh AddCall.weight after.threadDone after.pool.adds ≤
      weigh AddCall.weight before.threadDone before.pool.adds + called)
    (waiters : weigh WaitCall.weight after.allThreadsDone after.pool.waits ≤
      weigh WaitCall.weight before.allThreadsDone before.pool.waits + waited)
    (tasks : after.pool.taskList.count = before.pool.taskList.count)
    (enough : called + waited < less) : work after < work before := by
  unfold work
  omega

/-- A worker that signals nobody and does not go to sleep spends its own. -/
theorem alone_spends {worker : Nat} {thread next : Thread}
    (read : before.pool.threads[worker]? = some thread)
    (workers : some before.taskAvaliable = some after.taskAvaliable)
    (callers : some before.threadDone = some after.threadDone)
    (waiters : some before.allThreadsDone = some after.allThreadsDone)
    (moved : after.pool.positions = (before.pool.threads.set worker next).map Thread.position)
    (adds : after.pool.adds = before.pool.adds) (waits : after.pool.waits = before.pool.waits)
    (tasks : after.pool.taskList = before.pool.taskList)
    (lower : ∀ sleeps, next.position.weight sleeps + 1 ≤ thread.position.weight sleeps) :
    work after < work before := by
  have spent := worker_spends read before.taskAvaliable lower
  rw [Option.some.injEq] at workers callers waiters
  simp only [work, moved, adds, waits, tasks, ← workers, ← callers, ← waiters]
  omega

/-- A call that comes to the end of its enqueue wakes nobody, and sleeps if it finds no room. -/
theorem enqueuing_sleeps {grown : VThreadPool} {caller : Nat} {task : VTask}
    (source : Enqueuing before.pool action caller task grown) (woken : Option Nat) :
    before.taskAvaliableAfter woken action = some before.taskAvaliable ∧
      before.threadDoneAfter woken action = some (if full before.pool then
        caller :: before.threadDone else before.threadDone) ∧
      before.allThreadsDoneAfter woken action = some before.allThreadsDone := by
  cases source with
  | locked caller moves task call => exact ⟨rfl, rfl, rfl⟩
  | retried caller task call => exact ⟨rfl, rfl, rfl⟩

/-- A call that retries is awake. -/
theorem retry_awake {caller : Nat} (awake : before.awake action = true)
    (retries : action = .retry caller) : caller ∉ before.threadDone := by
  subst retries
  exact of_decide_eq_true awake

/-- Every step of a thread leaves less to do, but for the entry of a call. -/
theorem Acts.spends (acts : Acts before after action woken)
    (noAdd : ∀ procedure arg attr, action ≠ .addTask procedure arg attr)
    (noWait : action ≠ .enterWait) : work after < work before := by
  obtain ⟨awake, stepped, workers, callers, waiters⟩ := acts
  obtain ⟨pool, taskAvaliable, threadDone, allThreadsDone⟩ := after
  have sameWorkers : some before.taskAvaliable = some taskAvaliable →
      taskAvaliable = before.taskAvaliable := fun same => (Option.some.inj same).symm
  have sameCallers : some before.threadDone = some threadDone →
      threadDone = before.threadDone := fun same => (Option.some.inj same).symm
  have sameWaiters : some before.allThreadsDone = some allThreadsDone →
      allThreadsDone = before.allThreadsDone := fun same => (Option.some.inj same).symm
  cases step_effect stepped with
  | started worker thread read position =>
    exact alone_spends read workers callers waiters rfl rfl rfl rfl
      (by simp [position, Position.weight])
  | dropped worker thread ticket task read position null =>
    exact alone_spends read workers callers waiters rfl rfl rfl rfl
      (by simp [position, Position.weight])
  | announced worker thread ticket task value read position callable kind =>
    exact alone_spends read workers callers waiters rfl rfl rfl rfl
      (by simp [position, Position.weight])
  | countedInfinite worker thread ticket task read position kind =>
    exact alone_spends read workers callers waiters rfl rfl rfl rfl
      (by simp [position, Position.weight])
  | countedNormal worker thread ticket task read position kind =>
    exact alone_spends read workers callers waiters rfl rfl rfl rfl
      (by simp [position, Position.weight])
  | invoked worker thread ticket procedure task read position callable =>
    exact alone_spends read workers callers waiters rfl rfl rfl rfl
      (by simp [position, Position.weight])
  | completed worker thread ticket task read position =>
    exact alone_spends read workers callers waiters rfl rfl rfl rfl
      (by simp [position, Position.weight])
  | idled worker thread read position empty =>
    obtain rfl := sameCallers callers
    obtain rfl := sameWaiters waiters
    simp only [taskAvaliableAfter, Option.some.injEq, if_pos empty] at workers
    simp only [SleepingPool.awake, decide_eq_true_eq] at awake
    subst workers
    have spent : weigh Position.weight (worker :: before.taskAvaliable)
        ((before.pool.threads.set worker
          { thread.setState .idle with position := .waiting }).map Thread.position) + 1 =
        weigh Position.weight before.taskAvaliable before.pool.positions +
          Position.weight .waiting (decide (worker ∈ worker :: before.taskAvaliable)) :=
      take_spends read position awake (fun other apart => by simp [apart])
    have asleep : Position.weight .waiting (decide (worker ∈ worker :: before.taskAvaliable)) = 0 := by
      simp [Position.weight]
    rw [asleep] at spent
    exact work_spent 0 0 spent.le (Nat.le_refl _) (Nat.le_refl _) rfl Nat.zero_lt_one
  | took worker thread task taskList read position available dequeued =>
    obtain rfl := sameCallers callers
    obtain rfl := sameWaiters waiters
    simp only [taskAvaliableAfter, Option.some.injEq, if_neg available] at workers
    simp only [SleepingPool.awake, decide_eq_true_eq] at awake
    subst workers
    have spent : weigh Position.weight before.taskAvaliable
        ((before.pool.threads.set worker { thread with
          position := .working .held before.pool.history.dequeued.length task }).map
            Thread.position) + 1 =
        weigh Position.weight before.taskAvaliable before.pool.positions + 9 :=
      take_spends read position awake (fun _ _ => Iff.rfl)
    obtain ⟨_, rfl⟩ := VTaskList.dequeue_spec available dequeued
    simp only [work, VThreadPool.positions] at spent ⊢
    omega
  | left worker thread ticket task read position =>
    obtain rfl := sameWorkers workers
    obtain rfl := sameWaiters waiters
    have spent : ∀ sleeps, Position.weight .finishing sleeps + 2 ≤ thread.position.weight sleeps := by
      simp [position, Position.weight]
    exact work_spent 1 0 (worker_spends read _ spent) (weigh_signal callers AddCall.wakes)
      (Nat.le_refl _) rfl (by decide)
  | finished worker thread read position =>
    obtain rfl := sameWorkers workers
    obtain rfl := sameCallers callers
    have spent : ∀ sleeps, Position.weight .fetching sleeps + 2 ≤ thread.position.weight sleeps := by
      simp [position, Position.weight]
    have woken : weigh WaitCall.weight allThreadsDone before.pool.waits ≤
        weigh WaitCall.weight before.allThreadsDone before.pool.waits + 1 := by
      simp only [allThreadsDoneAfter] at waiters
      split at waiters
      · exact weigh_signal waiters WaitCall.wakes
      · obtain rfl := sameWaiters waiters
        exact Nat.le_succ _
    exact work_spent 0 1 (worker_spends read _ spent) (Nat.le_refl _) woken rfl (by decide)
  | entered procedure arg attr => exact absurd rfl (noAdd procedure arg attr)
  | waitEntered => exact absurd rfl noWait
  | signalled caller ticket call =>
    obtain rfl := sameCallers callers
    obtain rfl := sameWaiters waiters
    have woken : weigh Position.weight taskAvaliable before.pool.positions ≤
        weigh Position.weight before.taskAvaliable before.pool.positions + 1 :=
      weigh_signal workers Position.wakes
    have spent : weigh AddCall.weight before.threadDone (before.pool.adds.set caller
        (.returned ticket)) + 2 = weigh AddCall.weight before.threadDone before.pool.adds :=
      weigh_set _ call (fun _ _ => Iff.rfl)
    simp only [work, VThreadPool.positions] at woken ⊢
    omega
  | keptWaiting waiter wait read pending busy =>
    obtain rfl := sameWorkers workers
    obtain rfl := sameCallers callers
    simp only [allThreadsDoneAfter, Option.some.injEq, if_pos busy] at waiters
    simp only [SleepingPool.awake, decide_eq_true_eq] at awake
    subst waiters
    have spent : weigh WaitCall.weight (waiter :: before.allThreadsDone)
        (before.pool.waits.set waiter { wait with state := .waiting }) + 1 =
        weigh WaitCall.weight before.allThreadsDone before.pool.waits :=
      test_spends read pending awake (fun other apart => by simp [apart])
        (Or.inr List.mem_cons_self)
    simp only [work, VThreadPool.positions]
    omega
  | waitReturned waiter wait read pending quiet =>
    obtain rfl := sameWorkers workers
    obtain rfl := sameCallers callers
    have none : ¬ (0 < before.pool.normalThreadsWorking ∨ 0 < before.pool.taskList.count) := by
      simp [quiet.1, quiet.2]
    simp only [allThreadsDoneAfter, Option.some.injEq, if_neg none] at waiters
    simp only [SleepingPool.awake, decide_eq_true_eq] at awake
    subst waiters
    have spent : weigh WaitCall.weight before.allThreadsDone
        (before.pool.waits.set waiter { wait with state := .returned }) + 1 =
        weigh WaitCall.weight before.allThreadsDone before.pool.waits :=
      test_spends read pending awake (fun _ _ => Iff.rfl) (Or.inl rfl)
    simp only [work, VThreadPool.positions]
    omega
  | blocked action grown caller task source noRoom =>
    obtain ⟨first, second, third⟩ := enqueuing_sleeps source woken
    obtain rfl := sameWorkers (first.symm.trans workers)
    obtain rfl := sameWaiters (third.symm.trans waiters)
    have isFull : full before.pool := noRoom
    rw [second, if_pos isFull, Option.some.injEq] at callers
    subst callers
    have same := source.onlyThreads
    have others : ∀ other, other ≠ caller →
        (other ∈ caller :: before.threadDone ↔ other ∈ before.threadDone) := by
      intro other apart
      simp [apart]
    have spent := enqueue_spends (.blocked task) 0 source (retry_awake awake) others
      before.taskAvaliable (by simp [AddCall.weight])
    simp only [work, VThreadPool.positions, same.waits] at spent ⊢
    omega
  | stored action grown caller task taskList source room enqueued =>
    obtain ⟨first, second, third⟩ := enqueuing_sleeps source woken
    obtain rfl := sameWorkers (first.symm.trans workers)
    obtain rfl := sameWaiters (third.symm.trans waiters)
    have notFull : ¬ full before.pool := room
    rw [second, if_neg notFull, Option.some.injEq] at callers
    subst callers
    have same := source.onlyThreads
    have spent := enqueue_spends (.enqueued before.pool.history.enqueued.length) 1 source
      (retry_awake awake) (fun _ _ => Iff.rfl) before.taskAvaliable (by simp [AddCall.weight])
    obtain rfl := VTaskList.enqueue_spec enqueued
    simp only [work, VThreadPool.positions, same.waits] at spent ⊢
    omega

theorem onward_spends {before after : SleepingPool} {move : SleepingMove}
    (onward : Onward before move) (taken : step before move = some after) :
    work after < work before := by
  cases move with
  | act action woken =>
    apply (step_acts taken).spends
    · rintro procedure arg attr rfl
      exact onward
    · rintro rfl
      exact onward
  | _ => exact absurd onward id

/-! ## Who can go on -/

/-- Every task that has been looked at has a procedure. -/
def Callable (pool : VThreadPool) : Prop :=
  ∀ stage ticket task, .working stage ticket task ∈ pool.positions → stage ≠ .held →
    task.procedure ≠ none

theorem effect_callable {before after : VThreadPool} {action : Action}
    (effect : Effect before action after) (callable : Callable before) : Callable after := by
  have set : ∀ {worker : Nat} {thread : Thread} (next : Thread),
      before.threads[worker]? = some thread →
      (∀ stage ticket task, next.position = .working stage ticket task → stage ≠ .held →
        task.procedure ≠ none) →
      ∀ stage ticket task, .working stage ticket task ∈
        (before.threads.set worker next).map Thread.position → stage ≠ .held →
          task.procedure ≠ none := by
    intro worker thread next read moved stage ticket task member
    rw [positions_set] at member
    rcases List.mem_or_eq_of_mem_set member with old | same
    · exact callable stage ticket task old
    · exact moved stage ticket task same.symm
  have kept : ∀ {worker : Nat} {thread : Thread} {stage : Stage} {ticket : Nat} {task : VTask},
      before.threads[worker]? = some thread → thread.position = .working stage ticket task →
      stage ≠ .held → task.procedure ≠ none := by
    intro worker thread stage ticket task read position later
    apply callable stage ticket task _ later
    rw [← position]
    exact List.mem_of_getElem? (positions_read read)
  have grow : ∀ {caller : Nat} {task : VTask} {grown : VThreadPool},
      Enqueuing before action caller task grown → Callable grown := by
    intro caller task grown source stage ticket other member later
    rcases enqueuing_positions source with ⟨_, more⟩ | same
    · rw [more, List.mem_append] at member
      exact callable stage ticket other (member.resolve_right (by simp)) later
    · exact callable stage ticket other (same ▸ member) later
  cases effect with
  | started worker thread read position => exact set _ read nofun
  | idled worker thread read position empty => exact set _ read nofun
  | took worker thread task taskList read position available dequeued =>
    apply set _ read
    rintro stage ticket task ⟨⟩ later
    exact absurd rfl later
  | dropped worker thread ticket task read position null => exact set _ read nofun
  | announced worker thread ticket task value read position given kind =>
    apply set _ read
    rintro stage ticket task ⟨⟩ _
    exact given
  | countedInfinite worker thread ticket task read position kind =>
    apply set _ read
    rintro stage ticket task ⟨⟩ _
    exact kept read position (by decide)
  | countedNormal worker thread ticket task read position kind =>
    apply set _ read
    rintro stage ticket task ⟨⟩ _
    exact kept read position (by decide)
  | invoked worker thread ticket procedure task read position given =>
    apply set _ read
    rintro stage ticket task ⟨⟩ _
    exact kept read position (by decide)
  | completed worker thread ticket task read position =>
    apply set _ read
    rintro stage ticket task ⟨⟩ _
    exact kept read position (by decide)
  | left worker thread ticket task read position => exact set _ read nofun
  | finished worker thread read position => exact set _ read nofun
  | blocked action grown caller task source full =>
    have kept := grow source
    exact kept
  | stored action grown caller task taskList source room enqueued =>
    have kept := grow source
    exact kept
  | _ => exact callable

/-- What a pool keeps of its tasks and of its workers' hands. -/
structure Orderly (numThreads : Nat) (pool : VThreadPool) : Prop where
  queued : Queued numThreads pool
  served : Served pool
  accounted : Accounted pool
  callable : Callable pool

theorem run_orderly {numThreads : Nat} (positive : 1 ≤ numThreads) {trace : List Action}
    {pool : VThreadPool}
    (run : Run VThreadPool.step anywhere (VThreadPool.init numThreads) trace pool) :
    Orderly numThreads pool := by
  have callable : Callable (VThreadPool.init numThreads) := by
    intro stage ticket task member
    simp [VThreadPool.init, VThreadPool.positions, Thread.init] at member
  apply run.invariant (Orderly numThreads)
    ⟨init_queued positive, init_served numThreads, init_inHands _ _ _, callable⟩
  intro before action after orderly _ taken
  have effect := step_effect taken
  exact ⟨effect.queued orderly.queued, effect.served orderly.served,
    effect.accounted orderly.accounted, effect_callable effect orderly.callable⟩

section GoingOn

variable {state : SleepingPool} {numThreads : Nat}

/-- A step that goes on is possible. -/
def GoesOn (state : SleepingPool) : Prop :=
  ∃ move after, Onward state move ∧ step state move = some after

/-- A step of a thread that is awake, when its pool has it and the signal finds its sleeper. -/
theorem goesOn_of (action : Action) (woken : Option Nat) {pool : VThreadPool}
    {workers callers waiters : List Nat} (onward : Onward state (.act action woken))
    (awake : state.awake action = true) (stepped : VThreadPool.step state.pool action = some pool)
    (first : state.taskAvaliableAfter woken action = some workers)
    (second : state.threadDoneAfter woken action = some callers)
    (third : state.allThreadsDoneAfter woken action = some waiters) : GoesOn state :=
  ⟨.act action woken, ⟨pool, workers, callers, waiters⟩, onward, by
    simp only [step, awake, stepped, first, second, third, guard, ↓reduceIte, Option.bind_eq_bind,
      Option.pure_def, Option.bind_some]⟩

/-- A thread that stands somewhere is in the list. -/
theorem thread_at {pool : VThreadPool} {worker : Nat} {position : Position}
    (place : pool.positions[worker]? = some position) :
    ∃ thread, pool.threads[worker]? = some thread ∧ thread.position = position :=
  Option.map_eq_some_iff.mp ((List.getElem?_map).symm.trans place)

/-- A worker that is awake and comes for a task can lock the list. -/
theorem take_goesOn (orderly : Orderly numThreads state.pool) {worker : Nat} {thread : Thread}
    (read : state.pool.threads[worker]? = some thread)
    (idle : thread.position = .fetching ∨ thread.position = .waiting)
    (awake : worker ∉ state.taskAvaliable) : GoesOn state := by
  have isAwake : state.awake (.take worker) = true := decide_eq_true awake
  have inOrder := orderly.queued.inOrder orderly.served
  have inside : state.pool.taskList.readCursor < state.pool.taskList.items.length :=
    inOrder.readInside
  have possible : ∃ pool, VThreadPool.step state.pool (.take worker) = some pool := by
    by_cases empty : state.pool.taskList.count = 0
    · simp [VThreadPool.step, read, idle, takeTask, empty, guard]
    · simp [VThreadPool.step, read, idle, takeTask, empty, guard, VTaskList.dequeue, inside]
  obtain ⟨pool, stepped⟩ := possible
  exact goesOn_of (.take worker) none trivial isAwake stepped rfl rfl rfl

/-- A worker with a task can go on, unless it is inside a procedure that does not return. -/
theorem working_goesOn (orderly : Orderly numThreads state.pool) {worker ticket : Nat}
    {thread : Thread} {stage : Stage} {task : VTask}
    (read : state.pool.threads[worker]? = some thread)
    (position : thread.position = .working stage ticket task)
    (returns : Position.inside (.working stage ticket task) = false) : GoesOn state := by
  have place := positions_read read
  rw [position] at place
  cases stage with
  | held =>
    have stepped : VThreadPool.step state.pool (.look worker) =
        some (lookAtTask state.pool worker thread ticket task) := by
      simp [VThreadPool.step, read, position]
    exact goesOn_of (.look worker) none trivial rfl stepped rfl rfl rfl
  | announced =>
    have stepped : VThreadPool.step state.pool (.count worker) =
        some (countTask state.pool worker thread ticket task) := by
      simp [VThreadPool.step, read, position]
    exact goesOn_of (.count worker) none trivial rfl stepped rfl rfl rfl
  | counted =>
    have given := orderly.callable .counted ticket task (List.mem_of_getElem? place) (by decide)
    obtain ⟨procedure, callable⟩ := Option.ne_none_iff_exists'.mp given
    have possible : ∃ pool, VThreadPool.step state.pool (.invoke worker) = some pool := by
      simp [VThreadPool.step, read, position, callable]
    obtain ⟨pool, stepped⟩ := possible
    exact goesOn_of (.invoke worker) none trivial rfl stepped rfl rfl rfl
  | running =>
    have possible : ∃ pool, VThreadPool.step state.pool (.complete worker) = some pool := by
      simp [VThreadPool.step, read, position]
    obtain ⟨pool, stepped⟩ := possible
    have onward : Onward state (.act (.complete worker) none) := by
      intro other there
      rw [place, Option.some.injEq] at there
      exact there ▸ returns
    exact goesOn_of (.complete worker) none onward rfl stepped rfl rfl rfl
  | returned =>
    have stepped : VThreadPool.step state.pool (.leave worker) =
        some (leaveTask state.pool worker thread) := by
      simp [VThreadPool.step, read, position]
    obtain ⟨choice, callers, signalled⟩ := signal_possible state.threadDone
    exact goesOn_of (.leave worker) choice trivial rfl stepped rfl signalled rfl

/-- A worker can go on, unless it sleeps or is inside a procedure that does not return. -/
theorem worker_goesOn (orderly : Orderly numThreads state.pool) {worker : Nat}
    {position : Position} (place : state.pool.positions[worker]? = some position)
    (awake : worker ∉ state.taskAvaliable) (returns : position.inside = false) : GoesOn state := by
  obtain ⟨thread, read, rfl⟩ := thread_at place
  cases there : thread.position with
  | starting =>
    have possible : ∃ pool, VThreadPool.step state.pool (.start worker) = some pool := by
      simp [VThreadPool.step, read, there, guard]
    obtain ⟨pool, stepped⟩ := possible
    exact goesOn_of (.start worker) none trivial rfl stepped rfl rfl rfl
  | fetching => exact take_goesOn orderly read (Or.inl there) awake
  | waiting => exact take_goesOn orderly read (Or.inr there) awake
  | working stage ticket task =>
    rw [there] at returns
    exact working_goesOn orderly read there returns
  | finishing =>
    have possible : ∃ pool, VThreadPool.step state.pool (.finish worker) = some pool := by
      simp [VThreadPool.step, read, there, guard]
    obtain ⟨pool, stepped⟩ := possible
    by_cases last : state.pool.normalThreadsWorking = 0
    · obtain ⟨choice, waiters, signalled⟩ := signal_possible state.allThreadsDone
      exact goesOn_of (.finish worker) choice trivial rfl stepped rfl rfl
        ((if_pos last).trans signalled)
    · exact goesOn_of (.finish worker) none trivial rfl stepped rfl rfl (if_neg last)

/-- The end of an enqueue is possible. -/
theorem enqueue_possible (orderly : Orderly numThreads state.pool) {grown : VThreadPool}
    (same : grown.taskList = state.pool.taskList) (caller : Nat) (task : VTask) :
    ∃ pool, enqueueOrWait grown caller task = some pool := by
  have inOrder := orderly.queued.inOrder orderly.served
  unfold enqueueOrWait
  rw [same]
  split
  · exact ⟨_, rfl⟩
  · simp [VTaskList.enqueue, guard, inOrder.writeInside]

/-- A call of `VThreadPool_AddTask` can go on, unless it sleeps or has returned. -/
theorem caller_goesOn (orderly : Orderly numThreads state.pool) {caller : Nat} {call : AddCall}
    (found : state.pool.adds[caller]? = some call) (awake : caller ∉ state.threadDone)
    (pending : ∀ ticket, call ≠ .returned ticket) : GoesOn state := by
  cases call with
  | entered task =>
    obtain ⟨pool, stored⟩ := enqueue_possible orderly
      (Enqueuing.locked caller false task found).onlyThreads.taskList caller task
    have stepped : VThreadPool.step state.pool (.lock caller false) = some pool := by
      simp only [VThreadPool.step, found]
      exact stored
    exact goesOn_of (.lock caller false) none trivial rfl stepped rfl rfl rfl
  | blocked task =>
    obtain ⟨pool, stored⟩ := enqueue_possible orderly rfl caller task
    have stepped : VThreadPool.step state.pool (.retry caller) = some pool := by
      simp only [VThreadPool.step, found]
      exact stored
    have isAwake : state.awake (.retry caller) = true := decide_eq_true awake
    exact goesOn_of (.retry caller) none trivial isAwake stepped rfl rfl rfl
  | enqueued ticket =>
    have possible : ∃ pool, VThreadPool.step state.pool (.signal caller) = some pool := by
      simp [VThreadPool.step, found]
    obtain ⟨pool, stepped⟩ := possible
    obtain ⟨choice, workers, signalled⟩ := signal_possible state.taskAvaliable
    exact goesOn_of (.signal caller) choice trivial rfl stepped signalled rfl rfl
  | returned ticket => exact absurd rfl (pending ticket)

/-- A call of `VThreadPool_Wait` can go on, unless it sleeps or has returned. -/
theorem waiter_goesOn {waiter : Nat} {wait : WaitCall}
    (found : state.pool.waits[waiter]? = some wait) (awake : waiter ∉ state.allThreadsDone)
    (pending : wait.state ≠ .returned) : GoesOn state := by
  have possible : ∃ pool, VThreadPool.step state.pool (.test waiter) = some pool := by
    simp only [VThreadPool.step, found, guard, pending, ne_eq, not_false_eq_true, ↓reduceIte,
      Option.bind_eq_bind, Option.pure_def, Option.bind_some]
    split <;> exact ⟨_, rfl⟩
  obtain ⟨pool, stepped⟩ := possible
  have isAwake : state.awake (.test waiter) = true := decide_eq_true awake
  exact goesOn_of (.test waiter) none trivial isAwake stepped rfl rfl rfl

end GoingOn

/-! ## At rest -/

/-- All that has been enqueued is dequeued, every task with a procedure has been called, and
those that return have returned. -/
structure Finished (pool : VThreadPool) : Prop where
  empty : pool.taskList.count = 0
  called : ∀ ticket task, pool.history.enqueued[ticket]? = some task → task.procedure ≠ none →
    ticket ∈ pool.invokedTickets
  completed : ∀ ticket task, pool.history.enqueued[ticket]? = some task → task.procedure ≠ none →
    task.attr = .default → ticket ∈ pool.history.completed

/-- What is left of a pool that has come to rest. Every worker sleeps or is inside a procedure
that does not return, every call has returned or sleeps, and if one worker sleeps, all tasks are
done. -/
structure Rested (state : SleepingPool) : Prop where
  settled : Settled state
  adds : ∀ (caller : Nat) (call : AddCall), state.pool.adds[caller]? = some call →
    (∃ ticket, call = .returned ticket) ∨ caller ∈ state.threadDone
  waits : ∀ (waiter : Nat) (wait : WaitCall), state.pool.waits[waiter]? = some wait →
    wait.state = .returned ∨ waiter ∈ state.allThreadsDone
  finished : state.taskAvaliable ≠ [] → Finished state.pool

section Rest

variable {state : SleepingPool} {numThreads : Nat}

/-- Where everybody sleeps who can, a task has been dequeued if some worker sleeps. -/
theorem rest_empty (sleepers : Sleepers state) (covered : Covered state) (settled : Settled state)
    (adds : ∀ (caller : Nat) (call : AddCall), state.pool.adds[caller]? = some call →
      (∃ ticket, call = .returned ticket) ∨ caller ∈ state.threadDone)
    (asleep : state.taskAvaliable ≠ []) : state.pool.taskList.count = 0 := by
  have silent : signals state.pool = 0 := by
    rw [signals, List.countP_eq_zero]
    intro call member
    obtain ⟨caller, found⟩ := List.mem_iff_getElem?.mp member
    rcases adds caller call found with ⟨ticket, rfl⟩ | sleeps
    · simp [AddCall.signalling]
    · obtain ⟨task, blocked⟩ := sleepers.callers caller sleeps
      obtain rfl := Option.some.inj (found.symm.trans blocked)
      simp [AddCall.signalling]
  have nobody : state.ready = ∅ := by
    apply Finset.eq_empty_of_forall_notMem
    intro worker member
    obtain ⟨awake, position, place, left⟩ := mem_ready.mp member
    rcases settled worker position place with sleeps | inside
    · exact awake sleeps
    · obtain ⟨ticket, task, rfl, endless⟩ := Position.inside_spec inside
      simp [Position.left, Position.endless, endless] at left
  have enough := covered asleep
  rw [silent, nobody, Finset.card_empty] at enough
  omega

/-- A worker that has settled holds no task that is not called, and none that returns. -/
theorem Settled.hands (settled : Settled state) (sleepers : Sleepers state) {worker ticket : Nat}
    {stage : Stage} {task : VTask}
    (place : state.pool.positions[worker]? = some (.working stage ticket task)) :
    stage.called = true ∧ (stage ≠ .returned → task.attr ≠ .default) := by
  rcases settled worker _ place with sleeps | inside
  · have waits := sleepers.workers worker sleeps
    rw [place] at waits
    cases waits
  · obtain ⟨other, same, position, endless⟩ := Position.inside_spec inside
    cases position
    exact ⟨rfl, fun _ => by simp [endless]⟩

/-- An empty list and settled workers have nothing left to do. -/
theorem rest_finished (orderly : Orderly numThreads state.pool) (sleepers : Sleepers state)
    (settled : Settled state) (empty : state.pool.taskList.count = 0) : Finished state.pool := by
  obtain ⟨_, ⟨unread, _, length, order⟩, _⟩ := orderly.queued
  obtain rfl : unread = [] := List.length_eq_zero_iff.mp (length.trans empty)
  have taken : ∀ {ticket : Nat} {task : VTask}, state.pool.history.enqueued[ticket]? = some task →
      ∃ worker, state.pool.history.dequeued[ticket]? = some (worker, task) := by
    intro ticket task enqueued
    rw [order, List.append_nil, List.getElem?_map, Option.map_eq_some_iff] at enqueued
    obtain ⟨⟨worker, other⟩, dequeued, rfl⟩ := enqueued
    exact ⟨worker, dequeued⟩
  refine ⟨empty, ?_, ?_⟩
  · intro ticket task enqueued callable
    obtain ⟨worker, dequeued⟩ := taken enqueued
    rcases orderly.served.pending ticket worker task dequeued callable with done |
      ⟨stage, uncalled, place⟩
    · exact done
    · rw [(settled.hands sleepers place).1] at uncalled
      cases uncalled
  · intro ticket task enqueued callable returns
    obtain ⟨worker, dequeued⟩ := taken enqueued
    rcases orderly.accounted ticket worker task dequeued callable with done |
      ⟨stage, inHand, place⟩
    · exact done
    · exact absurd returns ((settled.hands sleepers place).2 inHand)

/-- A pool in which nobody can go on has come to rest. -/
theorem rest_rested (orderly : Orderly numThreads state.pool) (sleepers : Sleepers state)
    (covered : Covered state) (atRest : AtRest step Onward state) : Rested state := by
  have stuck : ¬ GoesOn state := by
    rintro ⟨move, after, onward, taken⟩
    exact atRest move after onward taken
  have settled : Settled state := by
    intro worker position place
    by_contra goes
    rw [not_or, Bool.not_eq_true] at goes
    exact stuck (worker_goesOn orderly place goes.1 goes.2)
  have adds : ∀ (caller : Nat) (call : AddCall), state.pool.adds[caller]? = some call →
      (∃ ticket, call = .returned ticket) ∨ caller ∈ state.threadDone := by
    intro caller call found
    by_contra goes
    rw [not_or, not_exists] at goes
    exact stuck (caller_goesOn orderly found goes.2 goes.1)
  refine ⟨settled, adds, ?_, ?_⟩
  · intro waiter wait found
    by_contra goes
    rw [not_or] at goes
    exact stuck (waiter_goesOn found goes.2 goes.1)
  · intro asleep
    exact rest_finished orderly sleepers settled
      (rest_empty sleepers covered settled adds asleep)

end Rest

/-- In every state of a pool with a thread, when no more calls begin, nobody wakes for no reason
and procedures marked `PROC_INFINITY` do not return: every schedule comes to an end within the
work that is left, there is one, and where a schedule has come to its end, every worker sleeps or
is inside such a procedure, every call has returned or sleeps, and if one worker sleeps, every
task that was enqueued has been called and has returned, unless it never returns.

Every step of a thread spends some of the work. Whoever is awake can go on, and while a worker
sleeps the tasks are covered by signals to be sent and workers that are awake. -/
theorem pool_comes_to_rest {numThreads : Nat} (positive : 1 ≤ numThreads)
    {trace : List SleepingMove} {state : SleepingPool}
    (run : Run step anywhere (init numThreads) trace state) :
    (∀ more later, Run step Onward state more later → more.length ≤ work state) ∧
    (∃ more later, Run step Onward state more later ∧ AtRest step Onward later) ∧
    ∀ more later, Run step Onward state more later → AtRest step Onward later → Rested later := by
  have lowers : ∀ before move after, Onward before move → step before move = some after →
      work after < work before := fun _ _ _ => onward_spends
  refine ⟨?_, comes_to_rest work (fun _ => True) (fun _ _ _ _ _ _ => trivial)
    (fun before action after _ => lowers before action after) trivial, ?_⟩
  · intro more later goes
    exact (Nat.le_add_right _ _).trans (goes.spends work lowers)
  · intro more later goes atRest
    have calm : Run step anywhere state more later := goes.weaken (fun _ _ _ => trivial)
    have whole := run.append calm
    exact rest_rested (run_orderly positive (run_pool whole)) (run_sleepers whole)
      (run_covered whole) atRest

/-- A pool with one thread, to which one task is to be added. -/
def oneCall : SleepingPool :=
  { init 1 with pool := { VThreadPool.init 1 with adds := [.entered ⟨some 7, 5, .default⟩] } }

/-- It comes to rest after no more than sixteen steps. -/
theorem pool_comes_to_rest_one : ∃ more later, Run step Onward oneCall more later ∧
    more.length ≤ 16 ∧ Rested later := by
  have run : Run step anywhere (init 1) ([] ++ [.act (.addTask (some 7) 5 .default) none]) oneCall :=
    Run.start.take _ trivial rfl
  obtain ⟨bounded, ⟨more, later, goes, atRest⟩, rested⟩ := pool_comes_to_rest (by decide) run
  exact ⟨more, later, goes, bounded more later goes, rested more later goes atRest⟩

end SleepingPool

end VHttp.ThreadPool
