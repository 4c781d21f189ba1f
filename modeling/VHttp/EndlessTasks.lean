import VHttp.PoolChanges

/-!
# Tasks that never return, and what is queued behind them

`VTaskList_Enqueue` adds a thread when the state of every thread is `THREAD_INFINITE`. A
worker writes that state after it has dequeued its task and let go of the lock, and a caller
looks at the states once, before it may have to wait. So a task can be stored while every
worker is bound for a procedure that never returns; and the last worker that is not can take
such a task and leave others behind.

Where neither happens, some worker is left to come back to the list as long as there is
something in it, or another call is still to look at the threads and store its task.
-/

namespace VHttp.ThreadPool

open Runs

/-- A task that is run and does not return. One without a procedure is dropped. -/
def VTask.endless (task : VTask) : Bool :=
  task.procedure.isSome && decide (task.attr = .infinity)

/-- The worker has dequeued such a task, and has not come back from it. -/
def Position.endless : Position → Bool
  | .working .held _ task => task.endless
  | .working .returned _ _ => false
  | .working _ _ task => decide (task.attr = .infinity)
  | _ => false

/-- The worker is not bound for such a task. -/
def Position.left (position : Position) : Bool := !position.endless

namespace VThreadPool

variable {before after : VThreadPool} {action : Action}

/-- A worker goes on being left, but for taking a task that does not return. -/
theorem Moves.left {worker : Nat} {position next : Position}
    (moves : Moves before worker action position next) (left : position.left = true)
    (returns : ∀ task taskList, action = .take worker → before.taskList.count ≠ 0 →
      before.taskList.dequeue = some (task, taskList) → task.endless = false) :
    next.left = true := by
  cases moves with
  | take position ticket task taskList idle available dequeued =>
    simp [Position.left, Position.endless, returns task taskList rfl available dequeued]
  | announce ticket task callable =>
    cases kind : task.attr with
    | default => simp [Position.left, Position.endless, kind]
    | infinity => simp [Position.left, Position.endless, VTask.endless, kind, callable] at left
  | count ticket task => exact left
  | invoke ticket task => exact left
  | _ => rfl

/-! ## Workers left for what is queued -/

/-- What is expected of a pool in which no call of `VThreadPool_AddTask` is in progress: a
queued task is not left behind workers that will never return. -/
def NothingLeftBehind (pool : VThreadPool) : Prop :=
  (∀ call ∈ pool.adds, ∃ ticket, call = .returned ticket) → pool.taskList.count ≠ 0 →
    pool.Somewhere Position.left

/-- When a step leaves a worker for what is queued. A worker that takes a task that does not
return, with others behind it, is not the last one left, or a call is still to store its task;
and a task is stored while a worker is left, or while another call is still to store its own,
or by a caller that has just found every thread infinite and adds one. -/
def LeavesWorker (pool : VThreadPool) : Action → Prop
  | .take worker => ∀ task taskList, pool.taskList.dequeue = some (task, taskList) →
      task.endless = true → taskList.count ≠ 0 →
      pool.Elsewhere worker Position.left ∨ StoringBeside pool []
  | .lock caller _ => ¬ full pool → pool.isAllThreadsInfinite = true ∨
      pool.Somewhere Position.left ∨ StoringBeside pool [caller]
  | .retry caller => ¬ full pool →
      pool.Somewhere Position.left ∨ StoringBeside pool [caller]
  | _ => True

/-- A thread that has just been added is left. -/
theorem Enqueuing.addsLeft {grown : VThreadPool} {caller : Nat} {moves : Bool} {task : VTask}
    (source : Enqueuing before (.lock caller moves) caller task grown)
    (crowded : before.isAllThreadsInfinite = true) : grown.Somewhere Position.left := by
  cases source with
  | locked caller moves task call =>
    simp only [crowded, ↓reduceIte]
    obtain ⟨olds, threads, _, _⟩ := addThread_threads before moves
    refine ⟨.starting, ?_, rfl⟩
    rw [positions, threads]
    simp [Thread.init]

/-- A call that stores its task under the condition leaves a worker, or another call. -/
theorem LeavesWorker.stores {grown : VThreadPool} {caller : Nat} {task : VTask}
    (leaves : LeavesWorker before action) (source : Enqueuing before action caller task grown)
    (room : ¬ full before) :
    grown.Somewhere Position.left ∨ StoringBeside before [caller] := by
  have grows := fun left : before.Somewhere Position.left => left.enqueuing source
  cases source with
  | locked caller moves task call =>
    rcases leaves room with crowded | others
    · exact Or.inl ((Enqueuing.locked caller moves task call).addsLeft crowded)
    · exact others.imp_left grows
  | retried caller task call => exact (leaves room).imp_left grows

/-- While something is queued, a worker is left, or a call is still to store its task. -/
def Attended (pool : VThreadPool) : Prop :=
  pool.taskList.count ≠ 0 → pool.Somewhere Position.left ∨ StoringBeside pool []

/-- Every step that leaves a worker for what is queued keeps it attended to. -/
theorem Effect.attended (effect : Effect before action after)
    (leaves : LeavesWorker before action) (attended : Attended before) : Attended after := by
  intro queued
  rcases effect.queue with ⟨same, idle, noRoom⟩ | ⟨worker, ticket, task, rfl, _, dequeued, held⟩ |
    ⟨caller, task, grown, source, room, _, places, adds⟩
  · apply (attended (same ▸ queued)).imp
    · refine fun left => left.stays effect ?_
      intro worker position next moves left
      exact moves.left left (fun _ _ takes available _ => absurd (idle worker takes) available)
    · exact fun storing => storing.stays effect noRoom
  · cases kind : task.endless with
    | true =>
      apply (leaves task after.taskList dequeued kind queued).imp
      · refine fun left => left.stays effect ?_
        intro other position next moves
        cases moves with
        | wait => rfl
        | take => rfl
      · refine fun storing => storing.stays effect ?_
        rintro caller task grown ⟨⟩
    | false =>
      exact Or.inl ⟨_, List.mem_of_getElem? held, by simp [Position.left, Position.endless, kind]⟩
  · apply (leaves.stores source room).imp
    · intro left
      unfold Somewhere at left ⊢
      rw [places]
      exact left
    · exact fun storing => storing.set adds

/-- While every step leaves a worker for what is queued, nothing is left behind workers that
will never return, in any pool. -/
theorem queued_tasks_have_worker {numThreads : Nat} {trace : List Action} {pool : VThreadPool}
    (run : Run step LeavesWorker (init numThreads) trace pool) : pool.NothingLeftBehind := by
  have attended : Attended pool :=
    run.invariant Attended (fun queued => absurd rfl queued)
      (fun _ _ _ held leaves taken => (step_effect taken).attended leaves held)
  intro returned queued
  rcases attended queued with left | ⟨other, call, _, found, storing⟩
  · exact left
  · obtain ⟨ticket, rfl⟩ := returned call (List.mem_of_getElem? found)
    cases storing

/-- One thread dequeues a task that will not return. Before it has written its state, a
second task is added: its caller finds the thread idle. -/
def lateAnnouncement : List Action :=
  [.start 0, .addTask (some 1) 0 .infinity, .lock 0 false, .signal 0, .take 0,
    .addTask (some 2) 0 .default, .lock 1 false, .signal 1]

/-- The second task is left behind the only worker. -/
theorem task_is_left_behind :
    ¬ ∀ (numThreads : Nat) (trace : List Action) (pool : VThreadPool),
      Run step anywhere (init numThreads) trace pool → pool.NothingLeftBehind := by
  intro always
  obtain ⟨pool, run, calls, queued, places⟩ := Run.reaches (fun pool : VThreadPool =>
      pool.adds = [.returned 0, .returned 1] ∧ pool.taskList.count = 1 ∧
        pool.positions = [.working .held 0 ⟨some 1, 0, .infinity⟩])
    (by decide : (lateAnnouncement.foldlM step (init 1)).any _ = true)
  obtain ⟨position, member, left⟩ := always 1 lateAnnouncement pool run (by simp [calls])
    (by simp [queued])
  rw [places, List.mem_singleton] at member
  rw [member] at left
  exact absurd left (by decide)

/-- A first task that does not return is stored while the worker is free to take it. -/
theorem queued_tasks_have_worker_stored :
    ∃ pool, ([.start 0, .addTask (some 1) 0 .infinity, .lock 0 false, .signal 0] :
        List Action).foldlM step (init 1) = some pool ∧ pool.taskList.count = 1 ∧
      pool.NothingLeftBehind := by
  have run : Run step LeavesWorker (init 1)
      ([] ++ [.start 0] ++ [.addTask (some 1) 0 .infinity] ++ [.lock 0 false] ++ [.signal 0]) _ :=
    Run.next (Run.next (Run.next (Run.next Run.start trivial rfl) trivial rfl)
      (fun _ => Or.inr (Or.inl ⟨.fetching, by decide, rfl⟩)) rfl) trivial rfl
  exact ⟨_, run.executed, rfl, queued_tasks_have_worker run⟩

end VThreadPool

end VHttp.ThreadPool
