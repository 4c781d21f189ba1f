import Mathlib.Data.List.Basic
import Mathlib.Data.Option.Basic

/-!
# The thread pool of vthread_pool.c

Workers, threads calling `VThreadPool_AddTask` and threads calling
`VThreadPool_Wait` share the pool under one lock. A step is one critical section of
one of them, from taking the lock to releasing it or to waiting on a condition, or
what one of them does between two sections. Steps come in any order.

A thread that waits on a condition may go on at any time: it then holds the lock
again and repeats its test. So a signal, like a spurious wakeup, changes nothing
but the moment of that step, and needs no state. `VThreadPool_Destroy` is not
modelled; before it `Terminate` is zero and no thread is dead.

The counters of the pool are 32-bit and wrap. Cursors and counts of the task list
are naturals; they stay within the list's capacity. A task's procedure and argument
are addresses. How long a procedure runs is the schedule's choice; that one marked
`PROC_INFINITY` never returns is not built in.

What has happened is kept beside the pool: the tasks in the order of their enqueues,
each dequeue with its worker, each call of a procedure, and the tasks whose
procedure has returned. A task is named there by its ticket, its place in the order
of dequeues, which for an enqueued task is its place in the order of enqueues.
-/

namespace VHttp.ThreadPool

/-- `vtask_proc_attr`. -/
inductive ProcAttr where
  | default
  | infinity
  deriving DecidableEq

/-- `vthread_state`, without the state that only destroying a pool sets. -/
inductive ThreadState where
  | idle
  | running
  | infinite
  deriving DecidableEq

/-- `vtask`: no procedure is the NULL pointer. -/
structure VTask where
  procedure : Option Nat
  arg : Nat
  attr : ProcAttr
  deriving DecidableEq

/-- A task of zero bytes, as calloc leaves an item. -/
def VTask.zero : VTask := ⟨none, 0, .default⟩

/-- `vtask_list`; the capacity is the number of items. -/
structure VTaskList where
  items : List VTask
  count : Nat
  writeCursor : Nat
  readCursor : Nat
  deriving DecidableEq

def VTaskList.capacity (list : VTaskList) : Nat := list.items.length

/-- `VTaskList_Init`. -/
def VTaskList.init (capacity : Nat) : VTaskList :=
  ⟨List.replicate capacity VTask.zero, 0, 0, 0⟩

/-- The store of `VTaskList_Enqueue`; no result would be a write outside the items. -/
def VTaskList.enqueue (list : VTaskList) (task : VTask) : Option VTaskList := do
  guard (list.writeCursor < list.capacity)
  pure { list with
    items := list.items.set list.writeCursor task
    writeCursor := (list.writeCursor + 1) % list.capacity
    count := list.count + 1 }

/-- `VTaskList_Dequeue`: an empty list gives a zero task and stays as it is. -/
def VTaskList.dequeue (list : VTaskList) : Option (VTask × VTaskList) :=
  if list.count = 0 then some (VTask.zero, list)
  else do
    let task ← list.items[list.readCursor]?
    pure (task, { list with
      readCursor := (list.readCursor + 1) % list.capacity
      count := list.count - 1 })

/-- A store goes to the write cursor, and adds one to the count. -/
theorem VTaskList.enqueue_spec {list stored : VTaskList} {task : VTask}
    (done : list.enqueue task = some stored) :
    stored = { list with
      items := list.items.set list.writeCursor task
      writeCursor := (list.writeCursor + 1) % list.capacity
      count := list.count + 1 } := by
  simp only [VTaskList.enqueue, Option.bind_eq_bind, Option.bind_eq_some_iff,
    Option.guard_eq_some', Option.pure_def, Option.some.injEq] at done
  obtain ⟨_, _, rfl⟩ := done
  rfl

/-- A list that is not empty gives the task at its read cursor. -/
theorem VTaskList.dequeue_spec {list rest : VTaskList} {task : VTask} (available : list.count ≠ 0)
    (done : list.dequeue = some (task, rest)) :
    list.items[list.readCursor]? = some task ∧
      rest = { list with
        readCursor := (list.readCursor + 1) % list.capacity
        count := list.count - 1 } := by
  simp only [VTaskList.dequeue, available, ↓reduceIte, Option.bind_eq_bind,
    Option.bind_eq_some_iff, Option.pure_def, Option.some.injEq, Prod.mk.injEq] at done
  obtain ⟨first, read, rfl, rfl⟩ := done
  exact ⟨read, rfl⟩

/-- How far a worker is with the task it has dequeued: not looked at yet, its kind
written to the thread's state, counted as working, called, or back from the call. -/
inductive Stage where
  | held
  | announced
  | counted
  | running
  | returned
  deriving DecidableEq

/-- The procedure has been called. -/
def Stage.called : Stage → Bool
  | .running => true
  | .returned => true
  | _ => false

/-- Where `VThread_Main` stands. -/
inductive Position where
  | starting
  | fetching
  | waiting
  | working (stage : Stage) (ticket : Nat) (task : VTask)
  | finishing
  deriving DecidableEq

/-- A `vthread` with its worker. The worker reaches its item through a pointer, which
is stale once the list of threads has moved. -/
structure Thread where
  state : ThreadState
  stale : Bool
  position : Position
  deriving DecidableEq

/-- A write through a stale pointer does not reach the list. -/
def Thread.setState (thread : Thread) (state : ThreadState) : Thread :=
  if thread.stale then thread else { thread with state := state }

/-- `VThread_Init`, with the worker that `pthread_create` starts. -/
def Thread.init : Thread := ⟨.idle, false, .starting⟩

/-- Where a call of `VThreadPool_AddTask` stands: before the lock, waiting for room,
after the enqueue, back at its caller. -/
inductive AddCall where
  | entered (task : VTask)
  | blocked (task : VTask)
  | enqueued (ticket : Nat)
  | returned (ticket : Nat)
  deriving DecidableEq

/-- Where a call of `VThreadPool_Wait` stands. -/
inductive WaitState where
  | entered
  | waiting
  | returned
  deriving DecidableEq

/-- A call of `VThreadPool_Wait`, with the tasks that it has to wait for: those with a
procedure and `PROC_DEFAULT` whose `VThreadPool_AddTask` had returned before it. -/
structure WaitCall where
  owed : List Nat
  state : WaitState
  deriving DecidableEq

/-- A call of a task's procedure by a worker. -/
structure Invocation where
  ticket : Nat
  worker : Nat
  procedure : Nat
  arg : Nat
  deriving DecidableEq

/-- What has happened so far, in order. -/
structure History where
  enqueued : List VTask
  dequeued : List (Nat × VTask)
  invoked : List Invocation
  completed : List Nat
  deriving DecidableEq

/-- `vthread_pool` with the threads that use it. -/
structure VThreadPool where
  threads : List Thread
  threadCapacity : Nat
  taskList : VTaskList
  infiniteThreadsWorking : UInt32
  normalThreadsWorking : UInt32
  threadCount : UInt32
  adds : List AddCall
  waits : List WaitCall
  history : History
  deriving DecidableEq

/-- One step of a worker, of a caller of `VThreadPool_AddTask`, or of a caller of
`VThreadPool_Wait`. -/
inductive Action where
  | start (worker : Nat)
  | take (worker : Nat)
  | look (worker : Nat)
  | count (worker : Nat)
  | invoke (worker : Nat)
  | complete (worker : Nat)
  | leave (worker : Nat)
  | finish (worker : Nat)
  | addTask (procedure : Option Nat) (arg : Nat) (attr : ProcAttr)
  | lock (caller : Nat) (moves : Bool)
  | retry (caller : Nat)
  | signal (caller : Nat)
  | enterWait
  | test (waiter : Nat)
  deriving DecidableEq

namespace VThreadPool

/-- `VThreadPool_Init`: one task slot for each thread. -/
def init (numThreads : Nat) : VThreadPool :=
  ⟨List.replicate numThreads Thread.init, numThreads, VTaskList.init numThreads, 0, 0, 0, [], [],
    ⟨[], [], [], []⟩⟩

/-- Replace one thread. -/
def setThread (pool : VThreadPool) (worker : Nat) (thread : Thread) : VThreadPool :=
  { pool with threads := pool.threads.set worker thread }

/-- `VThreadPool_IsAllThreadsInfinite`. -/
def isAllThreadsInfinite (pool : VThreadPool) : Bool :=
  decide (pool.threads.countP (fun thread => decide (thread.state = .infinite)) =
    pool.threads.length)

/-- `VThreadPool_AddThread`, with `VThreadList_Push`: a full list is reallocated to
twice its capacity, and may move. -/
def addThread (pool : VThreadPool) (moves : Bool) : VThreadPool :=
  if pool.threadCapacity ≤ pool.threads.length then
    { pool with
      threads := pool.threads.map (fun thread => { thread with stale := thread.stale || moves }) ++
        [Thread.init]
      threadCapacity := pool.threadCapacity * 2 }
  else { pool with threads := pool.threads ++ [Thread.init] }

/-- The end of `VTaskList_Enqueue`: wait for room, or store the task and unlock. -/
def enqueueOrWait (pool : VThreadPool) (caller : Nat) (task : VTask) : Option VThreadPool :=
  if pool.taskList.count = pool.taskList.capacity then
    some { pool with adds := pool.adds.set caller (.blocked task) }
  else do
    let taskList ← pool.taskList.enqueue task
    pure { pool with
      taskList := taskList
      adds := pool.adds.set caller (.enqueued pool.history.enqueued.length)
      history := { pool.history with enqueued := pool.history.enqueued ++ [task] } }

/-- The section in which a worker takes a task, or waits for one. -/
def takeTask (pool : VThreadPool) (worker : Nat) (thread : Thread) : Option VThreadPool :=
  if pool.taskList.count = 0 then
    some (pool.setThread worker { thread.setState .idle with position := .waiting })
  else do
    let (task, taskList) ← pool.taskList.dequeue
    let ticket := pool.history.dequeued.length
    let pool := { pool with
      taskList := taskList
      history := { pool.history with dequeued := pool.history.dequeued ++ [(worker, task)] } }
    pure (pool.setThread worker { thread with position := .working .held ticket task })

/-- What a worker does with a task before it takes the lock again: a task without a
procedure is dropped, and the kind of any other is written to the thread's state. -/
def lookAtTask (pool : VThreadPool) (worker : Nat) (thread : Thread) (ticket : Nat) (task : VTask) :
    VThreadPool :=
  if task.procedure = none then pool.setThread worker { thread with position := .finishing }
  else
    let thread := thread.setState .running
    let thread := if task.attr = .infinity then thread.setState .infinite else thread
    pool.setThread worker { thread with position := .working .announced ticket task }

/-- The section that counts a worker as working. -/
def countTask (pool : VThreadPool) (worker : Nat) (thread : Thread) (ticket : Nat) (task : VTask) :
    VThreadPool :=
  let pool := match task.attr with
    | .infinity => { pool with infiniteThreadsWorking := pool.infiniteThreadsWorking + 1 }
    | .default => { pool with normalThreadsWorking := pool.normalThreadsWorking + 1 }
  pool.setThread worker { thread with position := .working .counted ticket task }

/-- The section after a procedure has returned, whatever the task's attribute. -/
def leaveTask (pool : VThreadPool) (worker : Nat) (thread : Thread) : VThreadPool :=
  let pool := { pool with normalThreadsWorking := pool.normalThreadsWorking - 1 }
  pool.setThread worker { thread.setState .idle with position := .finishing }

/-- The tasks that a wait entered now has to wait for. -/
def owed (pool : VThreadPool) : List Nat :=
  pool.adds.filterMap (fun call => match call with
    | .returned ticket =>
      if pool.history.enqueued[ticket]?.any
          (fun task => task.procedure.isSome && decide (task.attr = .default)) then some ticket
      else none
    | _ => none)

/-- One step of the pool. -/
def step (pool : VThreadPool) : Action → Option VThreadPool
  | .start worker => do
    let thread ← pool.threads[worker]?
    guard (thread.position = .starting)
    pure ({ pool with threadCount := pool.threadCount + 1 }.setThread worker
      { thread with position := .fetching })
  | .take worker => do
    let thread ← pool.threads[worker]?
    guard (thread.position = .fetching ∨ thread.position = .waiting)
    takeTask pool worker thread
  | .look worker => do
    let thread ← pool.threads[worker]?
    match thread.position with
    | .working .held ticket task => pure (lookAtTask pool worker thread ticket task)
    | _ => none
  | .count worker => do
    let thread ← pool.threads[worker]?
    match thread.position with
    | .working .announced ticket task => pure (countTask pool worker thread ticket task)
    | _ => none
  | .invoke worker => do
    let thread ← pool.threads[worker]?
    match thread.position with
    | .working .counted ticket task => do
      let procedure ← task.procedure
      let pool := { pool with
        history := { pool.history with
          invoked := pool.history.invoked ++
            [(⟨ticket, worker, procedure, task.arg⟩ : Invocation)] } }
      pure (pool.setThread worker { thread with position := .working .running ticket task })
    | _ => none
  | .complete worker => do
    let thread ← pool.threads[worker]?
    match thread.position with
    | .working .running ticket task =>
      let pool := { pool with
        history := { pool.history with completed := pool.history.completed ++ [ticket] } }
      pure (pool.setThread worker { thread with position := .working .returned ticket task })
    | _ => none
  | .leave worker => do
    let thread ← pool.threads[worker]?
    match thread.position with
    | .working .returned _ _ => pure (leaveTask pool worker thread)
    | _ => none
  | .finish worker => do
    let thread ← pool.threads[worker]?
    guard (thread.position = .finishing)
    pure (pool.setThread worker { thread with position := .fetching })
  -- An attribute of zero is PROC_DEFAULT already.
  | .addTask procedure arg attr =>
    some { pool with adds := pool.adds ++ [.entered ⟨procedure, arg, attr⟩] }
  | .lock caller moves =>
    match pool.adds[caller]? with
    | some (.entered task) =>
      let pool := if pool.isAllThreadsInfinite then pool.addThread moves else pool
      enqueueOrWait pool caller task
    | _ => none
  | .retry caller =>
    match pool.adds[caller]? with
    | some (.blocked task) => enqueueOrWait pool caller task
    | _ => none
  | .signal caller =>
    match pool.adds[caller]? with
    | some (.enqueued ticket) =>
      some { pool with adds := pool.adds.set caller (.returned ticket) }
    | _ => none
  | .enterWait => some { pool with waits := pool.waits ++ [⟨pool.owed, .entered⟩] }
  | .test waiter => do
    let wait ← pool.waits[waiter]?
    guard (wait.state ≠ .returned)
    if 0 < pool.normalThreadsWorking ∨ 0 < pool.taskList.count then
      pure { pool with waits := pool.waits.set waiter { wait with state := .waiting } }
    else pure { pool with waits := pool.waits.set waiter { wait with state := .returned } }

/-! ## What a step can do -/

/-- A caller comes to the end of `VTaskList_Enqueue` with its task: out of the lock, after
it has added a thread if it has found every thread infinite, or back from waiting. -/
inductive Enqueuing (before : VThreadPool) : Action → Nat → VTask → VThreadPool → Prop where
  | locked (caller : Nat) (moves : Bool) (task : VTask)
      (call : before.adds[caller]? = some (.entered task)) :
      Enqueuing before (.lock caller moves) caller task
        (if before.isAllThreadsInfinite then before.addThread moves else before)
  | retried (caller : Nat) (task : VTask) (call : before.adds[caller]? = some (.blocked task)) :
      Enqueuing before (.retry caller) caller task before

/-- One constructor for each way a step can go, with the pool it leaves. The pool is
the one before but for the fields named. -/
inductive Effect (before : VThreadPool) : Action → VThreadPool → Prop where
  | started (worker : Nat) (thread : Thread) (read : before.threads[worker]? = some thread)
      (position : thread.position = .starting) :
      Effect before (.start worker) { before with
        threadCount := before.threadCount + 1
        threads := before.threads.set worker { thread with position := .fetching } }
  | idled (worker : Nat) (thread : Thread) (read : before.threads[worker]? = some thread)
      (position : thread.position = .fetching ∨ thread.position = .waiting)
      (empty : before.taskList.count = 0) :
      Effect before (.take worker) { before with
        threads := before.threads.set worker
          { thread.setState .idle with position := .waiting } }
  | took (worker : Nat) (thread : Thread) (task : VTask) (taskList : VTaskList)
      (read : before.threads[worker]? = some thread)
      (position : thread.position = .fetching ∨ thread.position = .waiting)
      (available : before.taskList.count ≠ 0)
      (dequeued : before.taskList.dequeue = some (task, taskList)) :
      Effect before (.take worker) { before with
        taskList := taskList
        history := { before.history with
          dequeued := before.history.dequeued ++ [(worker, task)] }
        threads := before.threads.set worker
          { thread with position := .working .held before.history.dequeued.length task } }
  | dropped (worker : Nat) (thread : Thread) (ticket : Nat) (task : VTask)
      (read : before.threads[worker]? = some thread)
      (position : thread.position = .working .held ticket task)
      (null : task.procedure = none) :
      Effect before (.look worker) { before with
        threads := before.threads.set worker { thread with position := .finishing } }
  | announced (worker : Nat) (thread : Thread) (ticket : Nat) (task : VTask) (state : ThreadState)
      (read : before.threads[worker]? = some thread)
      (position : thread.position = .working .held ticket task)
      (callable : task.procedure ≠ none)
      (kind : state = if task.attr = .infinity then .infinite else .running) :
      Effect before (.look worker) { before with
        threads := before.threads.set worker
          { thread.setState state with position := .working .announced ticket task } }
  | countedInfinite (worker : Nat) (thread : Thread) (ticket : Nat) (task : VTask)
      (read : before.threads[worker]? = some thread)
      (position : thread.position = .working .announced ticket task)
      (kind : task.attr = .infinity) :
      Effect before (.count worker) { before with
        infiniteThreadsWorking := before.infiniteThreadsWorking + 1
        threads := before.threads.set worker
          { thread with position := .working .counted ticket task } }
  | countedNormal (worker : Nat) (thread : Thread) (ticket : Nat) (task : VTask)
      (read : before.threads[worker]? = some thread)
      (position : thread.position = .working .announced ticket task)
      (kind : task.attr = .default) :
      Effect before (.count worker) { before with
        normalThreadsWorking := before.normalThreadsWorking + 1
        threads := before.threads.set worker
          { thread with position := .working .counted ticket task } }
  | invoked (worker : Nat) (thread : Thread) (ticket procedure : Nat) (task : VTask)
      (read : before.threads[worker]? = some thread)
      (position : thread.position = .working .counted ticket task)
      (callable : task.procedure = some procedure) :
      Effect before (.invoke worker) { before with
        history := { before.history with
          invoked := before.history.invoked ++ [⟨ticket, worker, procedure, task.arg⟩] }
        threads := before.threads.set worker
          { thread with position := .working .running ticket task } }
  | completed (worker : Nat) (thread : Thread) (ticket : Nat) (task : VTask)
      (read : before.threads[worker]? = some thread)
      (position : thread.position = .working .running ticket task) :
      Effect before (.complete worker) { before with
        history := { before.history with completed := before.history.completed ++ [ticket] }
        threads := before.threads.set worker
          { thread with position := .working .returned ticket task } }
  | left (worker : Nat) (thread : Thread) (ticket : Nat) (task : VTask)
      (read : before.threads[worker]? = some thread)
      (position : thread.position = .working .returned ticket task) :
      Effect before (.leave worker) { before with
        normalThreadsWorking := before.normalThreadsWorking - 1
        threads := before.threads.set worker
          { thread.setState .idle with position := .finishing } }
  | finished (worker : Nat) (thread : Thread) (read : before.threads[worker]? = some thread)
      (position : thread.position = .finishing) :
      Effect before (.finish worker) { before with
        threads := before.threads.set worker { thread with position := .fetching } }
  | entered (procedure : Option Nat) (arg : Nat) (attr : ProcAttr) :
      Effect before (.addTask procedure arg attr) { before with
        adds := before.adds ++ [.entered ⟨procedure, arg, attr⟩] }
  /-- A caller that finds every thread infinite has added one; then it waits. -/
  | blocked (action : Action) (grown : VThreadPool) (caller : Nat) (task : VTask)
      (source : Enqueuing before action caller task grown)
      (full : before.taskList.count = before.taskList.capacity) :
      Effect before action { grown with
        taskList := before.taskList
        adds := before.adds.set caller (.blocked task)
        history := before.history }
  /-- A caller that finds every thread infinite has added one; then it enqueues. -/
  | stored (action : Action) (grown : VThreadPool) (caller : Nat) (task : VTask)
      (taskList : VTaskList) (source : Enqueuing before action caller task grown)
      (room : before.taskList.count ≠ before.taskList.capacity)
      (enqueued : before.taskList.enqueue task = some taskList) :
      Effect before action { grown with
        taskList := taskList
        adds := before.adds.set caller (.enqueued before.history.enqueued.length)
        history := { before.history with enqueued := before.history.enqueued ++ [task] } }
  | signalled (caller ticket : Nat) (call : before.adds[caller]? = some (.enqueued ticket)) :
      Effect before (.signal caller) { before with
        adds := before.adds.set caller (.returned ticket) }
  | waitEntered : Effect before .enterWait { before with
      waits := before.waits ++ [⟨before.owed, .entered⟩] }
  | keptWaiting (waiter : Nat) (wait : WaitCall) (read : before.waits[waiter]? = some wait)
      (pending : wait.state ≠ .returned)
      (busy : 0 < before.normalThreadsWorking ∨ 0 < before.taskList.count) :
      Effect before (.test waiter) { before with
        waits := before.waits.set waiter { wait with state := .waiting } }
  | waitReturned (waiter : Nat) (wait : WaitCall) (read : before.waits[waiter]? = some wait)
      (pending : wait.state ≠ .returned)
      (quiet : before.normalThreadsWorking = 0 ∧ before.taskList.count = 0) :
      Effect before (.test waiter) { before with
        waits := before.waits.set waiter { wait with state := .returned } }

/-- A thread is added only where every thread is infinite. -/
theorem Enqueuing.growth {before grown : VThreadPool} {action : Action} {caller : Nat}
    {task : VTask} (source : Enqueuing before action caller task grown) :
    grown = before ∨ before.isAllThreadsInfinite = true ∧
      ∃ moves, grown = before.addThread moves := by
  cases source with
  | locked _ moves _ _ =>
    by_cases crowded : before.isAllThreadsInfinite = true
    · exact Or.inr ⟨crowded, moves, by simp [crowded]⟩
    · exact Or.inl (by simp [crowded])
  | retried _ _ _ => exact Or.inl rfl

/-- Adding a thread changes the list of threads only. -/
structure OnlyThreads (before grown : VThreadPool) : Prop where
  taskList : grown.taskList = before.taskList
  adds : grown.adds = before.adds
  waits : grown.waits = before.waits
  history : grown.history = before.history
  normalThreadsWorking : grown.normalThreadsWorking = before.normalThreadsWorking

theorem Enqueuing.onlyThreads {before grown : VThreadPool} {action : Action} {caller : Nat}
    {task : VTask} (source : Enqueuing before action caller task grown) :
    OnlyThreads before grown := by
  rcases source.growth with rfl | ⟨_, moves, rfl⟩
  · exact ⟨rfl, rfl, rfl, rfl, rfl⟩
  · unfold addThread
    split
    · exact ⟨rfl, rfl, rfl, rfl, rfl⟩
    · exact ⟨rfl, rfl, rfl, rfl, rfl⟩

/-- The end of an enqueue, in a pool to which a thread may have been added. -/
theorem enqueueOrWait_effect {before grown after : VThreadPool} {action : Action} {caller : Nat}
    {task : VTask} (source : Enqueuing before action caller task grown)
    (done : enqueueOrWait grown caller task = some after) : Effect before action after := by
  have same := source.onlyThreads
  unfold enqueueOrWait at done
  rw [same.taskList, same.adds, same.history] at done
  by_cases full : before.taskList.count = before.taskList.capacity
  · simp only [full, ↓reduceIte, Option.some.injEq] at done
    subst done
    exact Effect.blocked action grown caller task source full
  · simp only [full, ↓reduceIte, Option.bind_eq_bind, Option.bind_eq_some_iff, Option.pure_def,
      Option.some.injEq] at done
    obtain ⟨taskList, enqueued, rfl⟩ := done
    exact Effect.stored action grown caller task taskList source full enqueued

/-- A worker that locks the list waits for a task, or takes the next one. -/
theorem takeTask_effect {before after : VThreadPool} {worker : Nat} {thread : Thread}
    (read : before.threads[worker]? = some thread)
    (position : thread.position = .fetching ∨ thread.position = .waiting)
    (taken : takeTask before worker thread = some after) : Effect before (.take worker) after := by
  simp only [takeTask, Option.bind_eq_bind, Option.pure_def] at taken
  by_cases empty : before.taskList.count = 0
  · simp only [empty, ↓reduceIte, Option.some.injEq] at taken
    subst taken
    exact Effect.idled worker thread read position empty
  · simp only [empty, ↓reduceIte, Option.bind_eq_some_iff, Option.some.injEq] at taken
    obtain ⟨⟨task, taskList⟩, dequeued, rfl⟩ := taken
    exact Effect.took worker thread task taskList read position empty dequeued

/-- A task without a procedure is dropped; with one, the thread's state says of which kind. -/
theorem lookAtTask_effect {before : VThreadPool} {worker ticket : Nat} {thread : Thread}
    {task : VTask} (read : before.threads[worker]? = some thread)
    (position : thread.position = .working .held ticket task) :
    Effect before (.look worker) (lookAtTask before worker thread ticket task) := by
  by_cases null : task.procedure = none
  · simp only [lookAtTask, null, ↓reduceIte]
    exact Effect.dropped worker thread ticket task read position null
  · have result := Effect.announced worker thread ticket task _ read position null rfl
    simp only [lookAtTask, null, ↓reduceIte]
    by_cases infinite : task.attr = .infinity
    · simp only [infinite, ↓reduceIte] at result ⊢
      cases stale : thread.stale with
      | true => simpa [Thread.setState, stale, setThread] using result
      | false => simpa [Thread.setState, stale, setThread] using result
    · simp only [infinite, ↓reduceIte] at result ⊢
      exact result

/-- A thread is counted among those of the kind of its task. -/
theorem countTask_effect {before : VThreadPool} {worker ticket : Nat} {thread : Thread}
    {task : VTask} (read : before.threads[worker]? = some thread)
    (position : thread.position = .working .announced ticket task) :
    Effect before (.count worker) (countTask before worker thread ticket task) := by
  rw [countTask]
  cases kind : task.attr with
  | default => exact Effect.countedNormal worker thread ticket task read position kind
  | infinity => exact Effect.countedInfinite worker thread ticket task read position kind

/-- Every step is one of the effects. -/
theorem step_effect {before after : VThreadPool} {action : Action}
    (taken : step before action = some after) : Effect before action after := by
  cases action with
  | start worker =>
    simp only [step, Option.bind_eq_bind, Option.bind_eq_some_iff, Option.guard_eq_some',
      Option.pure_def, Option.some.injEq] at taken
    obtain ⟨thread, read, _, position, rfl⟩ := taken
    exact Effect.started worker thread read position
  | take worker =>
    simp only [step, Option.bind_eq_bind, Option.bind_eq_some_iff,
      Option.guard_eq_some'] at taken
    obtain ⟨thread, read, _, position, taken⟩ := taken
    exact takeTask_effect read position taken
  | look worker =>
    simp only [step, Option.bind_eq_bind, Option.bind_eq_some_iff, Option.pure_def] at taken
    obtain ⟨thread, read, taken⟩ := taken
    split at taken
    · rename_i ticket task position
      exact Option.some.inj taken ▸ lookAtTask_effect read position
    · cases taken
  | count worker =>
    simp only [step, Option.bind_eq_bind, Option.bind_eq_some_iff, Option.pure_def] at taken
    obtain ⟨thread, read, taken⟩ := taken
    split at taken
    · rename_i ticket task position
      exact Option.some.inj taken ▸ countTask_effect read position
    · cases taken
  | invoke worker =>
    simp only [step, Option.bind_eq_bind, Option.bind_eq_some_iff, Option.pure_def] at taken
    obtain ⟨thread, read, taken⟩ := taken
    split at taken
    · rename_i ticket task position
      simp only [Option.bind_eq_some_iff, Option.some.injEq] at taken
      obtain ⟨procedure, callable, rfl⟩ := taken
      exact Effect.invoked worker thread ticket procedure task read position callable
    · cases taken
  | complete worker =>
    simp only [step, Option.bind_eq_bind, Option.bind_eq_some_iff, Option.pure_def] at taken
    obtain ⟨thread, read, taken⟩ := taken
    split at taken
    · rename_i ticket task position
      obtain rfl := Option.some.inj taken
      exact Effect.completed worker thread ticket task read position
    · cases taken
  | leave worker =>
    simp only [step, Option.bind_eq_bind, Option.bind_eq_some_iff, Option.pure_def] at taken
    obtain ⟨thread, read, taken⟩ := taken
    split at taken
    · rename_i ticket task position
      obtain rfl := Option.some.inj taken
      exact Effect.left worker thread ticket task read position
    · cases taken
  | finish worker =>
    simp only [step, Option.bind_eq_bind, Option.bind_eq_some_iff, Option.guard_eq_some',
      Option.pure_def, Option.some.injEq] at taken
    obtain ⟨thread, read, _, position, rfl⟩ := taken
    exact Effect.finished worker thread read position
  | addTask procedure arg attr =>
    obtain rfl := Option.some.inj taken
    exact Effect.entered procedure arg attr
  | lock caller moves =>
    simp only [step] at taken
    split at taken
    · rename_i task call
      exact enqueueOrWait_effect (Enqueuing.locked caller moves task call) taken
    · cases taken
  | retry caller =>
    simp only [step] at taken
    split at taken
    · rename_i task call
      exact enqueueOrWait_effect (Enqueuing.retried caller task call) taken
    · cases taken
  | signal caller =>
    simp only [step] at taken
    split at taken
    · rename_i ticket call
      obtain rfl := Option.some.inj taken
      exact Effect.signalled caller ticket call
    · cases taken
  | enterWait =>
    obtain rfl := Option.some.inj taken
    exact Effect.waitEntered
  | test waiter =>
    simp only [step, Option.bind_eq_bind, Option.bind_eq_some_iff, Option.guard_eq_some',
      Option.pure_def] at taken
    obtain ⟨wait, read, _, pending, taken⟩ := taken
    by_cases busy : 0 < before.normalThreadsWorking ∨ 0 < before.taskList.count
    · simp only [busy, ↓reduceIte, Option.some.injEq] at taken
      subst taken
      exact Effect.keptWaiting waiter wait read pending busy
    · simp only [busy, ↓reduceIte, Option.some.injEq] at taken
      subst taken
      obtain ⟨noneWorking, noneQueued⟩ := not_or.mp busy
      have quiet : before.normalThreadsWorking = 0 := by
        simpa using UInt32.not_lt.mp noneWorking
      exact Effect.waitReturned waiter wait read pending ⟨quiet, by omega⟩

end VThreadPool

end VHttp.ThreadPool
