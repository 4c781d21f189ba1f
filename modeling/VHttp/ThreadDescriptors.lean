import VHttp.PoolChanges

/-!
# The descriptors of the workers

A worker reaches its `vthread` through a pointer that it was given when it was started.
`VThreadList_Push` reallocates the block of a full list, and the pointers into the old
block are left as they are. Here the blocks are numbered; beside the pool stand the number
of the current block, that of the block into which each worker's pointer points, and the
state that each worker last wrote through it. A reallocation counts as a new block whether
it moves or not.

The two writes of a worker that takes up a task are two moves: `THREAD_RUNNING` first, then
what the task's attribute asks for.

A worker that has written `THREAD_INFINITE` has its procedure and the lock of a counter in
front of it, and no further access to its descriptor, as long as such a procedure does not
return. The list is reallocated only when every worker has come so far.
-/

namespace VHttp.ThreadPool

open Runs

/-- The worker has announced a task with `PROC_INFINITY` and has not come back from it. -/
def Position.settled : Position → Bool
  | .working .announced _ task => decide (task.attr = .infinity)
  | .working .counted _ task => decide (task.attr = .infinity)
  | .working .running _ task => decide (task.attr = .infinity)
  | _ => false

/-- A worker stays in such a task, as long as it does not return. -/
theorem VThreadPool.Moves.settled {before : VThreadPool} {action : Action} {worker : Nat}
    {position next : Position} (moves : Moves before worker action position next)
    (settled : position.settled = true)
    (returns : action = .complete worker → ∀ ticket task,
      position = .working .running ticket task → task.attr ≠ .infinity) :
    next.settled = true := by
  cases moves with
  | wait position idle empty => rcases idle with rfl | rfl <;> cases settled
  | take position ticket task taskList idle available dequeued =>
    rcases idle with rfl | rfl <;> cases settled
  | count ticket task => exact settled
  | invoke ticket task => exact settled
  | complete ticket task => exact absurd (of_decide_eq_true settled) (returns rfl ticket task rfl)
  | _ => cases settled

/-- A pool with the blocks of its list of threads. -/
structure DescribedPool where
  pool : VThreadPool
  generation : Nat
  pointers : List Nat
  written : List ThreadState
  deriving DecidableEq

/-- What happens between two looks at the pool: a worker with a task writes
`THREAD_RUNNING`, or the pool takes a step. -/
inductive Move where
  | announce (worker : Nat)
  | act (action : Action)
  deriving DecidableEq

namespace DescribedPool

open VThreadPool

/-- `VThreadPool_Init`: the list has room for the first threads, so its block stays. -/
def init (numThreads : Nat) : DescribedPool :=
  ⟨VThreadPool.init numThreads, 0, List.replicate numThreads 0, List.replicate numThreads .idle⟩

/-- The worker that writes its state in a step, and what it writes last. -/
def stateWritten (pool : VThreadPool) : Action → Option (Nat × ThreadState)
  | .take worker => if pool.taskList.count = 0 then some (worker, .idle) else none
  | .look worker => do
    let thread ← pool.threads[worker]?
    match thread.position with
    | .working .held _ task =>
      if task.procedure = none then none
      else some (worker, if task.attr = .infinity then .infinite else .running)
    | _ => none
  | .leave worker => some (worker, .idle)
  | _ => none

/-- The worker that reads or writes its descriptor. A worker that starts reads its id and
its pool there. -/
def touches (pool : VThreadPool) : Move → Option Nat
  | .announce worker => some worker
  | .act (.start worker) => some worker
  | .act action => (stateWritten pool action).map Prod.fst

/-- `VThreadList_Push` replaces the block: a thread is added to a full list. -/
def replaces (pool : VThreadPool) : Move → Bool
  | .act (.lock _ _) =>
    pool.isAllThreadsInfinite && decide (pool.threadCapacity ≤ pool.threads.length)
  | _ => false

/-- The states written after a step, without those of new threads. -/
def writtenAfter (state : DescribedPool) (action : Action) : List ThreadState :=
  match stateWritten state.pool action with
  | some (worker, value) => state.written.set worker value
  | none => state.written

/-- One move. The thread that a step adds is given a pointer into the block of its time. -/
def step (state : DescribedPool) : Move → Option DescribedPool
  | .announce worker => do
    let thread ← state.pool.threads[worker]?
    match thread.position with
    | .working .held _ task => do
      guard (task.procedure ≠ none)
      pure { state with
        pool := state.pool.setThread worker (thread.setState .running)
        written := state.written.set worker .running }
    | _ => none
  | .act action => do
    let pool ← VThreadPool.step state.pool action
    let generation := if replaces state.pool (.act action) then state.generation + 1
      else state.generation
    let added := pool.threads.length - state.pool.threads.length
    pure ⟨pool, generation, state.pointers ++ List.replicate added generation,
      writtenAfter state action ++ List.replicate added .idle⟩

/-- A procedure with `PROC_INFINITY` never returns. -/
def NeverReturns (state : DescribedPool) : Move → Prop
  | .act (.complete worker) => ∀ thread ticket task, state.pool.threads[worker]? = some thread →
      thread.position = .working .running ticket task → task.attr ≠ .infinity
  | _ => True

/-- Some continuation has the worker read or write its descriptor. -/
def MayTouch (state : DescribedPool) (worker : Nat) : Prop :=
  ∃ moves later next final, Run step NeverReturns state moves later ∧ NeverReturns later next ∧
    step later next = some final ∧ touches later.pool next = some worker

/-- The blocks in every state. A worker whose state is `THREAD_INFINITE`, or whose pointer is
not into the current block, is inside a task that does not return. -/
structure Described (state : DescribedPool) : Prop where
  pointers : state.pointers.length = state.pool.threads.length
  written : state.pool.threads.map Thread.state = state.written
  positive : 0 < state.pool.threadCapacity
  fits : state.pool.threads.length ≤ state.pool.threadCapacity
  settled : ∀ (worker : Nat) (thread : Thread), state.pool.threads[worker]? = some thread →
    (thread.state = .infinite ∨ thread.stale = true ∨
      state.pointers[worker]? ≠ some state.generation) → thread.position.settled = true

theorem init_described {numThreads : Nat} (positive : 0 < numThreads) :
    Described (init numThreads) where
  pointers := by simp [init, VThreadPool.init]
  written := by simp [init, VThreadPool.init, Thread.init]
  positive := positive
  fits := by simp [init, VThreadPool.init]
  settled := by
    intro worker thread read outdated
    simp only [init, VThreadPool.init, List.getElem?_replicate] at read outdated
    split at read
    · rename_i inside
      obtain rfl := Option.some.inj read
      simp [Thread.init, inside] at outdated
    · cases read

/-- A worker that is not in such a task writes to the list, through the current block. -/
theorem Described.free {state : DescribedPool} (described : Described state) {worker : Nat}
    {thread : Thread} (read : state.pool.threads[worker]? = some thread)
    (free : thread.position.settled = false) :
    thread.state ≠ .infinite ∧ thread.stale = false ∧
      state.pointers[worker]? = some state.generation := by
  by_contra outdated
  have settled := described.settled worker thread read (by
    by_contra fine
    simp only [not_or, Bool.not_eq_true, ne_eq, Decidable.not_not] at fine
    exact outdated fine)
  simp [free] at settled

/-- One worker moves: an endless task keeps it, and otherwise its state is what it writes. -/
theorem Described.move {state : DescribedPool} (described : Described state) {worker : Nat}
    {thread moved : Thread} {pool : VThreadPool} {written : List ThreadState}
    (read : state.pool.threads[worker]? = some thread)
    (threads : pool.threads = state.pool.threads.set worker moved)
    (capacity : pool.threadCapacity = state.pool.threadCapacity)
    (wrote : written = state.written.set worker moved.state)
    (kept : thread.position.settled = true → moved.position.settled = true)
    (fresh : thread.position.settled = false → moved.stale = thread.stale ∧
      (moved.state = .infinite → moved.position.settled = true)) :
    Described ⟨pool, state.generation, state.pointers, written⟩ where
  pointers := by simp [threads, described.pointers]
  written := by
    show pool.threads.map Thread.state = written
    rw [threads, List.map_set, described.written, wrote]
  positive := capacity ▸ described.positive
  fits := by simpa [threads, capacity] using described.fits
  settled := by
    intro tested found again outdated
    rw [threads] at again
    have inside : worker < state.pool.threads.length := (List.getElem?_eq_some_iff.mp read).1
    by_cases same : tested = worker
    · subst tested
      rw [List.getElem?_set_self inside] at again
      obtain rfl := Option.some.inj again
      cases busy : thread.position.settled with
      | true => exact kept busy
      | false =>
        obtain ⟨sameStale, announced⟩ := fresh busy
        obtain ⟨_, current, pointer⟩ := described.free read busy
        rcases outdated with infinite | stale | old
        · exact announced infinite
        · simp [sameStale, current] at stale
        · exact absurd pointer old
    · rw [List.getElem?_set_ne (Ne.symm same)] at again
      exact described.settled tested found again outdated

/-- A worker that keeps its state writes nothing. -/
theorem Described.unwritten {state : DescribedPool} (described : Described state) {worker : Nat}
    {thread : Thread} (read : state.pool.threads[worker]? = some thread) :
    state.written = state.written.set worker thread.state := by
  have entry : state.written[worker]? = some thread.state := by
    rw [← described.written, List.getElem?_map, read]
    rfl
  obtain ⟨inside, same⟩ := List.getElem?_eq_some_iff.mp entry
  rw [← same, List.set_getElem_self]

/-- The step of the pool, and what it leaves when it adds no thread. -/
theorem step_act {state after : DescribedPool} {action : Action}
    (taken : step state (.act action) = some after) :
    VThreadPool.step state.pool action = some after.pool ∧
      (after.pool.threads.length = state.pool.threads.length →
        replaces state.pool (.act action) = false →
        after = ⟨after.pool, state.generation, state.pointers, writtenAfter state action⟩) := by
  simp only [step, Option.bind_eq_bind, Option.bind_eq_some_iff, Option.pure_def,
    Option.some.injEq] at taken
  obtain ⟨pool, stepped, rfl⟩ := taken
  refine ⟨stepped, ?_⟩
  intro same kept
  simp [same, kept]

/-- A worker of the pool moves without a thread being added. -/
theorem Described.act {state after : DescribedPool} (described : Described state)
    {action : Action} (taken : step state (.act action) = some after) {pool : VThreadPool}
    (stepped : VThreadPool.step state.pool action = some pool) {worker : Nat}
    {thread moved : Thread} (read : state.pool.threads[worker]? = some thread)
    (threads : pool.threads = state.pool.threads.set worker moved)
    (capacity : pool.threadCapacity = state.pool.threadCapacity)
    (kept : replaces state.pool (.act action) = false)
    (wrote : writtenAfter state action = state.written.set worker moved.state)
    (busy : thread.position.settled = true → moved.position.settled = true)
    (fresh : thread.position.settled = false → moved.stale = thread.stale ∧
      (moved.state = .infinite → moved.position.settled = true)) : Described after := by
  obtain ⟨again, result⟩ := step_act taken
  obtain rfl : pool = after.pool := Option.some.inj (stepped.symm.trans again)
  rw [result (by simp [threads]) kept]
  exact described.move read threads capacity wrote busy fresh

/-- A worker outside such a task moves on, and leaves its descriptor alone. -/
theorem Described.untouched {state after : DescribedPool} (described : Described state)
    {action : Action} (taken : step state (.act action) = some after) {pool : VThreadPool}
    (stepped : VThreadPool.step state.pool action = some pool) {worker : Nat}
    {thread moved : Thread} (read : state.pool.threads[worker]? = some thread)
    (threads : pool.threads = state.pool.threads.set worker moved)
    (capacity : pool.threadCapacity = state.pool.threadCapacity)
    (kept : replaces state.pool (.act action) = false)
    (unwritten : writtenAfter state action = state.written)
    (free : thread.position.settled = false) (sameState : moved.state = thread.state)
    (sameStale : moved.stale = thread.stale) : Described after := by
  have wrote : writtenAfter state action = state.written.set worker moved.state := by
    rw [unwritten, sameState]
    exact described.unwritten read
  apply described.act taken stepped read threads capacity kept wrote
  · simp [free]
  · simp [sameState, sameStale, (described.free read free).1]

/-- A step that leaves the threads as they are. -/
theorem Described.rest {state after : DescribedPool} (described : Described state)
    {action : Action} (taken : step state (.act action) = some after) {pool : VThreadPool}
    (stepped : VThreadPool.step state.pool action = some pool)
    (threads : pool.threads = state.pool.threads)
    (capacity : pool.threadCapacity = state.pool.threadCapacity)
    (kept : replaces state.pool (.act action) = false)
    (wrote : stateWritten state.pool action = none) : Described after := by
  obtain ⟨again, result⟩ := step_act taken
  obtain rfl : pool = after.pool := Option.some.inj (stepped.symm.trans again)
  rw [result (by rw [threads]) kept, writtenAfter, wrote]
  obtain ⟨pointers, written, positive, fits, settled⟩ := described
  exact ⟨by rw [threads]; exact pointers, by rw [threads]; exact written, capacity ▸ positive,
    by rw [threads, capacity]; exact fits, by rw [threads]; exact settled⟩

/-- A full list doubles, so that there is room for the new thread. -/
theorem addThread_fits {pool : VThreadPool} (moves : Bool) (positive : 0 < pool.threadCapacity)
    (fits : pool.threads.length ≤ pool.threadCapacity) :
    0 < (pool.addThread moves).threadCapacity ∧
      (pool.addThread moves).threads.length ≤ (pool.addThread moves).threadCapacity := by
  unfold addThread
  split
  · simp only [List.length_append, List.length_map, List.length_singleton]
    omega
  · simp only [List.length_append, List.length_singleton]
    omega

/-- Where every thread is infinite, every worker is inside a task that does not return. -/
theorem Described.crowded {state : DescribedPool} (described : Described state)
    (crowded : state.pool.isAllThreadsInfinite = true) {worker : Nat} {thread : Thread}
    (read : state.pool.threads[worker]? = some thread) :
    thread.state = .infinite ∧ thread.position.settled = true := by
  simp only [isAllThreadsInfinite, decide_eq_true_eq, List.countP_eq_length] at crowded
  have infinite := crowded thread (List.mem_of_getElem? read)
  exact ⟨infinite, described.settled worker thread read (Or.inl infinite)⟩

/-- A thread is added when every other one is inside a task that does not return, so it
does not matter whether their pointers are into the block that is current now. -/
theorem Described.grow {state : DescribedPool} (described : Described state)
    (crowded : state.pool.isAllThreadsInfinite = true) (moves : Bool) {pool : VThreadPool}
    (generation : Nat) (threads : pool.threads = (state.pool.addThread moves).threads)
    (capacity : pool.threadCapacity = (state.pool.addThread moves).threadCapacity) :
    Described ⟨pool, generation, state.pointers ++ [generation], state.written ++ [.idle]⟩ := by
  obtain ⟨olds, appended, states, positions⟩ := addThread_threads state.pool moves
  have room := addThread_fits moves described.positive described.fits
  have length : olds.length = state.pool.threads.length := by
    simpa using congrArg List.length states
  constructor
  · simp [threads, appended, length, described.pointers]
  · rw [threads, appended, List.map_append, states, described.written]
    rfl
  · exact capacity ▸ room.1
  · rw [threads, capacity]
    exact room.2
  · intro worker thread read outdated
    rw [threads, appended] at read
    by_cases old : worker < olds.length
    · rw [List.getElem?_append_left old] at read
      have place : state.pool.positions[worker]? = some thread.position := by
        rw [← positions, List.getElem?_map, read]
        rfl
      obtain ⟨before, found, same⟩ := Option.map_eq_some_iff.mp (List.getElem?_map ▸ place)
      rw [← same]
      exact (described.crowded crowded found).2
    · rw [List.getElem?_append_right (Nat.le_of_not_lt old)] at read
      have last : worker - olds.length = 0 := by
        have bound := (List.getElem?_eq_some_iff.mp read).1
        simpa using bound
      rw [last] at read
      obtain rfl : Thread.init = thread := Option.some.inj read
      have place : worker = state.pointers.length := by
        rw [described.pointers, ← length]
        omega
      simp [Thread.init, place] at outdated

/-- A caller enqueues its task or waits, with or without a new thread. -/
theorem Described.enqueue {state after : DescribedPool} (described : Described state)
    {action : Action} (taken : step state (.act action) = some after) {pool grown : VThreadPool}
    (stepped : VThreadPool.step state.pool action = some pool) {caller : Nat} {task : VTask}
    (source : Enqueuing state.pool action caller task grown)
    (threads : pool.threads = grown.threads)
    (capacity : pool.threadCapacity = grown.threadCapacity) : Described after := by
  cases source with
  | retried caller task call => exact described.rest taken stepped threads capacity rfl rfl
  | locked caller moves task call =>
    by_cases crowded : state.pool.isAllThreadsInfinite = true
    · simp only [crowded, ↓reduceIte] at threads capacity
      obtain ⟨olds, appended, states, _⟩ := addThread_threads state.pool moves
      have length : olds.length = state.pool.threads.length := by
        simpa using congrArg List.length states
      have added : pool.threads.length - state.pool.threads.length = 1 := by
        rw [threads, appended, List.length_append, length, List.length_singleton]
        omega
      simp only [DescribedPool.step, stepped, Option.bind_eq_bind, Option.bind_some,
        Option.pure_def, Option.some.injEq, added] at taken
      subst taken
      exact described.grow crowded moves _ threads capacity
    · simp only [crowded, Bool.false_eq_true, ↓reduceIte] at threads capacity
      exact described.rest taken stepped threads capacity (by simp [replaces, crowded]) rfl

/-- A worker that looks for a task is in none. -/
theorem seeking_unsettled {position : Position}
    (seeking : position = .fetching ∨ position = .waiting) : position.settled = false := by
  rcases seeking with fetching | waiting
  · rw [fetching]
    rfl
  · rw [waiting]
    rfl

/-- Every move keeps the descriptors in order. -/
theorem Described.step {state after : DescribedPool} {move : Move} (described : Described state)
    (allowed : NeverReturns state move) (taken : step state move = some after) :
    Described after := by
  cases move with
  | announce worker =>
    simp only [DescribedPool.step, Option.bind_eq_bind, Option.bind_eq_some_iff] at taken
    obtain ⟨thread, read, taken⟩ := taken
    split at taken
    · rename_i ticket task position
      simp only [Option.bind_eq_some_iff, Option.guard_eq_some', Option.pure_def,
        Option.some.injEq] at taken
      obtain ⟨_, _, rfl⟩ := taken
      have free : thread.position.settled = false := by rw [position]; rfl
      have current := (described.free read free).2.1
      have threads : (state.pool.setThread worker (thread.setState .running)).threads =
          state.pool.threads.set worker (thread.setState .running) := rfl
      apply described.move read threads rfl
      · simp [Thread.setState, current]
      · simp [free]
      · simp [Thread.setState, current]
    · cases taken
  | act action =>
    obtain ⟨stepped, _⟩ := step_act taken
    generalize after.pool = pool at stepped
    cases step_effect stepped with
    | started worker thread read position =>
      have free : thread.position.settled = false := by rw [position]; rfl
      exact described.untouched taken stepped read rfl rfl rfl rfl free rfl rfl
    | idled worker thread read position empty =>
      have free := seeking_unsettled position
      have current := (described.free read free).2.1
      apply described.act taken stepped read rfl rfl rfl
      · simp [writtenAfter, stateWritten, empty, Thread.setState, current]
      · simp [free]
      · simp [Thread.setState, current]
    | took worker thread task taskList read position available dequeued =>
      have free := seeking_unsettled position
      have unwritten : writtenAfter state (.take worker) = state.written := by
        simp [writtenAfter, stateWritten, available]
      exact described.untouched taken stepped read rfl rfl rfl unwritten free rfl rfl
    | dropped worker thread ticket task read position null =>
      have free : thread.position.settled = false := by rw [position]; rfl
      have unwritten : writtenAfter state (.look worker) = state.written := by
        simp [writtenAfter, stateWritten, read, position, null]
      exact described.untouched taken stepped read rfl rfl rfl unwritten free rfl rfl
    | announced worker thread ticket task value read position callable kind =>
      have free : thread.position.settled = false := by rw [position]; rfl
      have current := (described.free read free).2.1
      apply described.act taken stepped read rfl rfl rfl
      · simp [writtenAfter, stateWritten, read, position, callable, kind, Thread.setState, current]
      · simp [free]
      · by_cases infinite : task.attr = .infinity
        · simp [Thread.setState, current, Position.settled, infinite]
        · simp [Thread.setState, current, kind, infinite]
    | countedInfinite worker thread ticket task read position kind =>
      have same := described.unwritten read
      apply described.act taken stepped read rfl rfl rfl same
      · simp [Position.settled, kind]
      · simp [position, Position.settled, kind]
    | countedNormal worker thread ticket task read position kind =>
      have free : thread.position.settled = false := by simp [position, Position.settled, kind]
      exact described.untouched taken stepped read rfl rfl rfl rfl free rfl rfl
    | invoked worker thread ticket procedure task read position callable =>
      have same := described.unwritten read
      apply described.act taken stepped read rfl rfl rfl same
      · simp [position, Position.settled]
      · intro free
        simp [(described.free read free).1]
    | completed worker thread ticket task read position =>
      have returns := allowed thread ticket task read position
      have free : thread.position.settled = false := by
        simp [position, Position.settled, returns]
      exact described.untouched taken stepped read rfl rfl rfl rfl free rfl rfl
    | left worker thread ticket task read position =>
      have free : thread.position.settled = false := by rw [position]; rfl
      have current := (described.free read free).2.1
      apply described.act taken stepped read rfl rfl rfl
      · simp [writtenAfter, stateWritten, Thread.setState, current]
      · simp [free]
      · simp [Thread.setState, current]
    | finished worker thread read position =>
      have free : thread.position.settled = false := by rw [position]; rfl
      exact described.untouched taken stepped read rfl rfl rfl rfl free rfl rfl
    | entered procedure arg attr => exact described.rest taken stepped rfl rfl rfl rfl
    | signalled caller ticket call => exact described.rest taken stepped rfl rfl rfl rfl
    | waitEntered => exact described.rest taken stepped rfl rfl rfl rfl
    | keptWaiting waiter wait read pending busy =>
      exact described.rest taken stepped rfl rfl rfl rfl
    | waitReturned waiter wait read pending quiet =>
      exact described.rest taken stepped rfl rfl rfl rfl
    | blocked action grown caller task source full =>
      exact described.enqueue taken stepped source rfl rfl
    | stored action grown caller task taskList source room enqueued =>
      exact described.enqueue taken stepped source rfl rfl

/-! ## Workers inside a task that does not return -/

/-- The worker is inside a task that does not return. -/
def Settled (state : DescribedPool) (worker : Nat) : Prop :=
  ∃ position, state.pool.positions[worker]? = some position ∧ position.settled = true

/-- A worker that touches its descriptor is outside such a task. -/
theorem Settled.untouching {state after : DescribedPool} {move : Move} {worker : Nat}
    (settled : Settled state worker) (taken : step state move = some after) :
    touches state.pool move ≠ some worker := by
  intro touched
  have outside : ∀ {thread : Thread}, state.pool.threads[worker]? = some thread →
      thread.position.settled = false → False := by
    intro thread read free
    obtain ⟨position, place, busy⟩ := settled
    rw [positions_read read, Option.some.injEq] at place
    simp [← place, free] at busy
  cases move with
  | announce mover =>
    obtain rfl : mover = worker := Option.some.inj touched
    simp only [step, Option.bind_eq_bind, Option.bind_eq_some_iff] at taken
    obtain ⟨thread, read, taken⟩ := taken
    split at taken
    · rename_i ticket task position
      exact outside read (by rw [position]; rfl)
    · cases taken
  | act action =>
    obtain ⟨stepped, _⟩ := step_act taken
    generalize after.pool = pool at stepped
    cases step_effect stepped with
    | started mover thread read position =>
      obtain rfl : mover = worker := Option.some.inj touched
      exact outside read (by rw [position]; rfl)
    | idled mover thread read position empty =>
      obtain rfl : mover = worker := by simpa [touches, stateWritten, empty] using touched
      exact outside read (seeking_unsettled position)
    | took mover thread task taskList read position available dequeued =>
      simp [touches, stateWritten, available] at touched
    | dropped mover thread ticket task read position null =>
      simp [touches, stateWritten, read, position, null] at touched
    | announced mover thread ticket task value read position callable kind =>
      obtain rfl : mover = worker := by
        simpa [touches, stateWritten, read, position, callable] using touched
      exact outside read (by rw [position]; rfl)
    | left mover thread ticket task read position =>
      obtain rfl : mover = worker := Option.some.inj touched
      exact outside read (by rw [position]; rfl)
    | blocked action grown caller task source full =>
      cases source with
      | locked => cases touched
      | retried => cases touched
    | stored action grown caller task taskList source room enqueued =>
      cases source with
      | locked => cases touched
      | retried => cases touched
    | _ => cases touched

/-- Such a worker stays inside and does not touch its descriptor. -/
theorem Settled.step {state after : DescribedPool} {move : Move} {worker : Nat}
    (settled : Settled state worker) (allowed : NeverReturns state move)
    (taken : step state move = some after) :
    Settled after worker ∧ touches state.pool move ≠ some worker := by
  refine ⟨?_, settled.untouching taken⟩
  obtain ⟨position, place, busy⟩ := settled
  cases move with
  | announce mover =>
    simp only [DescribedPool.step, Option.bind_eq_bind, Option.bind_eq_some_iff] at taken
    obtain ⟨thread, read, taken⟩ := taken
    split at taken
    · simp only [Option.bind_eq_some_iff, Option.guard_eq_some', Option.pure_def,
        Option.some.injEq] at taken
      obtain ⟨_, _, rfl⟩ := taken
      refine ⟨position, ?_, busy⟩
      have same : (thread.setState .running).position = thread.position := by
        unfold Thread.setState
        split
        · rfl
        · rfl
      obtain ⟨inside, entry⟩ := List.getElem?_eq_some_iff.mp (positions_read read)
      rw [setThread, positions, positions_set, same, ← entry, List.set_getElem_self]
      exact place
    · cases taken
  | act action =>
    obtain ⟨next, found, same | moves⟩ := (step_effect (step_act taken).1).moves place
    · exact ⟨next, found, same ▸ busy⟩
    · refine ⟨next, found, moves.settled busy ?_⟩
      rintro rfl ticket task rfl
      obtain ⟨thread, read, running⟩ := Option.map_eq_some_iff.mp (List.getElem?_map ▸ place)
      exact allowed thread ticket task read running

/-- Nor does any continuation have it touch its descriptor. -/
theorem Settled.untouched {state : DescribedPool} {worker : Nat}
    (settled : Settled state worker) : ¬ MayTouch state worker := by
  rintro ⟨moves, later, next, final, run, allowed, taken, touched⟩
  have still : Settled later worker :=
    run.invariant (fun reached => Settled reached worker) settled
      (fun _ _ _ held permitted moved => (held.step permitted moved).1)
  exact (still.step allowed taken).2 touched

/-- From any number of threads but none, while tasks with `PROC_INFINITY` do not return:
where the block of the list is replaced, every worker has written `THREAD_INFINITE` and will
not touch its descriptor again; a worker that may still touch its descriptor has a pointer
to its place in the current block; and the states in the list are those last written.

A worker is outside such a task only while its state is not `THREAD_INFINITE` and its
pointer is current. A block is replaced when no worker is outside, and no worker leaves. -/
theorem descriptors_stay_current {numThreads : Nat} (positive : 0 < numThreads)
    {trace : List Move} {state : DescribedPool}
    (run : Run step NeverReturns (init numThreads) trace state) :
    (∀ move after, NeverReturns state move → step state move = some after →
      replaces state.pool move = true → ∀ worker < state.pool.threads.length,
        state.written[worker]? = some .infinite ∧ ¬ MayTouch after worker) ∧
    (∀ worker < state.pool.threads.length, MayTouch state worker →
      state.pointers[worker]? = some state.generation ∧ worker < state.pool.threadCapacity) ∧
    state.pool.threads.map Thread.state = state.written := by
  have described : Described state :=
    run.invariant Described (init_described positive)
      (fun _ _ _ held allowed taken => held.step allowed taken)
  refine ⟨?_, ?_, described.written⟩
  · intro move after allowed taken replaced worker inside
    have read : state.pool.threads[worker]? = some state.pool.threads[worker] :=
      List.getElem?_eq_getElem inside
    have crowded : state.pool.isAllThreadsInfinite = true := by
      unfold replaces at replaced
      split at replaced
      · exact (Bool.and_eq_true_iff.mp replaced).1
      · cases replaced
    obtain ⟨infinite, busy⟩ := described.crowded crowded read
    constructor
    · rw [← described.written, List.getElem?_map, read, Option.map_some, infinite]
    · have settled : Settled state worker := ⟨_, positions_read read, busy⟩
      exact (settled.step allowed taken).1.untouched
  · intro worker inside touching
    have read : state.pool.threads[worker]? = some state.pool.threads[worker] :=
      List.getElem?_eq_getElem inside
    have free : state.pool.threads[worker].position.settled = false := by
      cases busy : state.pool.threads[worker].position.settled with
      | false => rfl
      | true => exact absurd touching (Settled.untouched ⟨_, positions_read read, busy⟩)
    exact ⟨(described.free read free).2.2, Nat.lt_of_lt_of_le inside described.fits⟩

/-- A pool of one thread takes up a task that does not return, and another task is added. -/
def crowdedMoves : List Move :=
  [.act (.start 0), .act (.addTask (some 1) 0 .infinity), .act (.lock 0 false),
    .act (.signal 0), .act (.take 0), .announce 0, .act (.look 0),
    .act (.addTask (some 2) 0 .default)]

/-- Locking then replaces the block; the worker has written its state and is done with it. -/
theorem descriptors_stay_current_crowded :
    ∃ state after, crowdedMoves.foldlM step (init 1) = some state ∧
      step state (.act (.lock 1 true)) = some after ∧ after.generation = 1 ∧
      state.written[0]? = some .infinite ∧ ¬ MayTouch after 0 := by
  have returns : (crowdedMoves.foldlM step (init 1)).isSome = true := by decide
  obtain ⟨state, reached⟩ := Option.isSome_iff_exists.mp returns
  have replaced : ((crowdedMoves.foldlM step (init 1)).map
      (fun state => replaces state.pool (.act (.lock 1 true)))) = some true := by decide
  have locked : ((crowdedMoves.foldlM step (init 1)).bind
      (fun state => step state (.act (.lock 1 true)))).map generation = some 1 := by decide
  have present : (crowdedMoves.foldlM step (init 1)).map
      (fun state => state.pool.threads.length) = some 1 := by decide
  rw [reached, Option.map_some, Option.some.injEq] at replaced present
  rw [reached, Option.bind_some] at locked
  obtain ⟨after, taken, counted⟩ := Option.map_eq_some_iff.mp locked
  have run : Run step NeverReturns (init 1) crowdedMoves state := by
    apply Run.of_admitted _ reached
    simp [crowdedMoves, NeverReturns]
  obtain ⟨written, untouched⟩ := (descriptors_stay_current (by decide) run).1 (.act (.lock 1 true))
    after trivial taken replaced 0 (by rw [present]; decide)
  exact ⟨state, after, reached, taken, counted, written, untouched⟩

end DescribedPool

end VHttp.ThreadPool
