import VHttp.Foundations.RingQueue
import VHttp.Foundations.Runs
import VHttp.VThreadPool

/-!
# Tasks leave in the order they came, and are called once

Two invariants carry the law. The task list is a queue: what lies between its
cursors is what has been enqueued and not dequeued, in order. And every dequeued
task with a procedure is either called already or in the hands of the worker that
dequeued it, on its way to the call. Neither depends on which threads exist, on the
counters, or on when a waiting thread goes on.
-/

namespace VHttp.ThreadPool.VThreadPool

open Circular

variable {before after : VThreadPool} {action : Action}

/-! ## The task list as a queue -/

/-- The task list holds the tasks enqueued and not dequeued, from its read cursor to
its write cursor. -/
structure Queued (capacity : Nat) (pool : VThreadPool) : Prop where
  size : pool.taskList.capacity = capacity
  queue : ∃ unread, RingQueue.Holds pool.taskList.items pool.taskList.readCursor unread ∧
    unread.length = pool.taskList.count ∧
    pool.history.enqueued = pool.history.dequeued.map Prod.snd ++ unread
  cursor : pool.taskList.writeCursor =
    slot pool.taskList.capacity pool.taskList.readCursor pool.taskList.count

theorem init_queued {numThreads : Nat} (positive : 0 < numThreads) :
    Queued numThreads (init numThreads) := by
  have inside : 0 < (List.replicate numThreads VTask.zero).length := by simpa using positive
  refine ⟨List.length_replicate, ⟨[], RingQueue.Holds.empty inside, rfl, rfl⟩, ?_⟩
  exact (slot_zero _ _ inside).symm

/-- Only the list and the history of enqueues and dequeues matter. -/
theorem Queued.same {capacity : Nat} (queued : Queued capacity before)
    (sameList : after.taskList = before.taskList)
    (sameEnqueued : after.history.enqueued = before.history.enqueued)
    (sameDequeued : after.history.dequeued = before.history.dequeued) : Queued capacity after := by
  obtain ⟨size, queue, cursor⟩ := queued
  refine ⟨?_, ?_, ?_⟩
  · rw [sameList, size]
  · rw [sameList, sameEnqueued, sameDequeued]
    exact queue
  · rw [sameList]
    exact cursor

/-- A dequeue from a list that is not empty takes its oldest task. -/
theorem Queued.dequeue {capacity worker : Nat} {task : VTask} {taskList : VTaskList}
    (queued : Queued capacity before) (available : before.taskList.count ≠ 0)
    (dequeued : before.taskList.dequeue = some (task, taskList))
    (newList : after.taskList = taskList)
    (sameEnqueued : after.history.enqueued = before.history.enqueued)
    (newDequeued : after.history.dequeued = before.history.dequeued ++ [(worker, task)]) :
    Queued capacity after := by
  obtain ⟨size, ⟨unread, holds, length, order⟩, cursor⟩ := queued
  obtain ⟨read, rfl⟩ := VTaskList.dequeue_spec available dequeued
  cases unread with
  | nil => exact absurd length.symm available
  | cons oldest rest =>
    obtain ⟨there, remaining⟩ := holds.dequeue
    obtain rfl : task = oldest := Option.some.inj (read.symm.trans there)
    have shorter : rest.length = before.taskList.count - 1 := by
      rw [← length, List.length_cons]
      rfl
    refine ⟨?_, ⟨rest, ?_, ?_, ?_⟩, ?_⟩
    · rw [newList]
      exact size
    · rw [newList]
      exact remaining
    · rw [newList]
      exact shorter
    · rw [sameEnqueued, newDequeued, order]
      simp
    · rw [newList, cursor]
      simp only [slot, VTaskList.capacity, Nat.mod_add_mod]
      congr 1
      omega

/-- An enqueue into a list that is not full stores the task behind all others. -/
theorem Queued.enqueue {capacity : Nat} {task : VTask} {taskList : VTaskList}
    (queued : Queued capacity before) (room : before.taskList.count ≠ before.taskList.capacity)
    (enqueued : before.taskList.enqueue task = some taskList)
    (newList : after.taskList = taskList)
    (newEnqueued : after.history.enqueued = before.history.enqueued ++ [task])
    (sameDequeued : after.history.dequeued = before.history.dequeued) : Queued capacity after := by
  obtain ⟨size, ⟨unread, holds, length, order⟩, cursor⟩ := queued
  have fits := holds.fits
  have notFull : unread.length < before.taskList.items.length := by
    unfold VTaskList.capacity at room
    omega
  obtain rfl := VTaskList.enqueue_spec enqueued
  have stored := holds.enqueue notFull task
  rw [length] at stored
  refine ⟨?_, ⟨unread ++ [task], ?_, ?_, ?_⟩, ?_⟩
  · rw [newList]
    simpa [VTaskList.capacity] using size
  · rw [newList, cursor]
    exact stored
  · rw [newList]
    simp [length]
  · rw [newEnqueued, sameDequeued, order, List.append_assoc]
  · rw [newList, cursor]
    simp only [VTaskList.capacity, List.length_set]
    exact (slot_succ _ _ _).symm

theorem Effect.queued {capacity : Nat} (effect : Effect before action after)
    (queued : Queued capacity before) : Queued capacity after := by
  cases effect with
  | took worker thread task taskList _ _ available dequeued =>
    exact queued.dequeue available dequeued rfl rfl rfl
  | stored _ grown caller task taskList _ room enqueued =>
    exact queued.enqueue room enqueued rfl rfl rfl
  | _ => exact queued.same rfl rfl rfl

/-! ## The workers' hands -/

/-- Where the workers stand. -/
def positions (pool : VThreadPool) : List Position := pool.threads.map Thread.position

/-- The tickets of the tasks called so far. -/
def invokedTickets (pool : VThreadPool) : List Nat := pool.history.invoked.map Invocation.ticket

/-- Every dequeued task with a procedure is done, or in the hands of the worker that
dequeued it, at a stage that is still open. -/
def InHands (pool : VThreadPool) (done : List Nat) (isOpen : Stage → Prop) : Prop :=
  ∀ ticket worker task, pool.history.dequeued[ticket]? = some (worker, task) →
    task.procedure ≠ none → ticket ∈ done ∨
      ∃ stage, isOpen stage ∧ pool.positions[worker]? = some (.working stage ticket task)

/-- A worker has a task in its hands that it has dequeued; each call was made by the
worker that dequeued the task, once; and a dequeued task with a procedure that has
not been called is still in the hands of its worker. -/
structure Served (pool : VThreadPool) : Prop where
  hands : ∀ worker stage ticket task,
    pool.positions[worker]? = some (.working stage ticket task) →
      pool.history.dequeued[ticket]? = some (worker, task) ∧
        (ticket ∈ pool.invokedTickets ↔ stage.called = true)
  invoked : ∀ call ∈ pool.history.invoked, ∃ task,
    pool.history.dequeued[call.ticket]? = some (call.worker, task) ∧
      task.procedure = some call.procedure ∧ task.arg = call.arg
  once : pool.invokedTickets.Nodup
  pending : InHands pool pool.invokedTickets (fun stage => stage.called = false)

theorem init_inHands (numThreads : Nat) (done : List Nat) (isOpen : Stage → Prop) :
    InHands (init numThreads) done isOpen := by
  intro ticket worker task dequeued
  simp [init] at dequeued

theorem init_served (numThreads : Nat) : Served (init numThreads) := by
  refine ⟨?_, by simp [init], by simp [invokedTickets, init], init_inHands _ _ _⟩
  intro worker stage ticket task position
  simp only [positions, init, List.map_replicate, List.getElem?_replicate] at position
  split at position
  · simp [Thread.init] at position
  · cases position

theorem positions_set (pool : VThreadPool) (worker : Nat) (thread : Thread) :
    (pool.threads.set worker thread).map Thread.position =
      pool.positions.set worker thread.position :=
  List.map_set

theorem positions_read {pool : VThreadPool} {worker : Nat} {thread : Thread}
    (read : pool.threads[worker]? = some thread) :
    pool.positions[worker]? = some thread.position := by
  simp [positions, read]

theorem positions_at {pool : VThreadPool} {worker : Nat} {thread : Thread} {position : Position}
    (read : pool.threads[worker]? = some thread) (here : thread.position = position) :
    pool.positions[worker]? = some position :=
  here ▸ positions_read read

variable {done later : List Nat} {isOpen : Stage → Prop}

/-- A worker moves on: a task it lets go, or takes past the open stages, is done or
has no procedure. -/
theorem InHands.move {worker : Nat} {old new : Position} (inHands : InHands before done isOpen)
    (here : before.positions[worker]? = some old)
    (moved : after.positions = before.positions.set worker new)
    (sameDequeued : after.history.dequeued = before.history.dequeued)
    (kept : ∀ ticket ∈ done, ticket ∈ later)
    (gives : ∀ stage ticket task, old = .working stage ticket task → isOpen stage →
      task.procedure = none ∨ ticket ∈ later ∨
        ∃ next, isOpen next ∧ new = .working next ticket task) :
    InHands after later isOpen := by
  have inside := (List.getElem?_eq_some_iff.mp here).1
  intro ticket tested task dequeued callable
  rw [sameDequeued] at dequeued
  rw [moved]
  rcases inHands ticket tested task dequeued callable with finished | ⟨stage, open', position⟩
  · exact Or.inl (kept ticket finished)
  · by_cases same : tested = worker
    · subst same
      have was : old = .working stage ticket task := Option.some.inj (here.symm.trans position)
      rcases gives stage ticket task was open' with null | finished | ⟨next, stillOpen, isNew⟩
      · exact absurd null callable
      · exact Or.inl finished
      · exact Or.inr ⟨next, stillOpen, by rw [List.getElem?_set_self inside, isNew]⟩
    · exact Or.inr ⟨stage, open', by rw [List.getElem?_set_ne (Ne.symm same), position]⟩

/-- A worker goes on with the task in its hands. -/
theorem InHands.advance {worker ticket : Nat} {task : VTask} {earlier next : Stage}
    (inHands : InHands before done isOpen)
    (here : before.positions[worker]? = some (.working earlier ticket task))
    (moved : after.positions = before.positions.set worker (.working next ticket task))
    (sameDequeued : after.history.dequeued = before.history.dequeued)
    (opens : isOpen earlier → isOpen next) : InHands after done isOpen := by
  refine inHands.move here moved sameDequeued (fun _ => id) ?_
  intro stage other found working open'
  obtain ⟨rfl, rfl, rfl⟩ := Position.working.inj working
  exact Or.inr (Or.inr ⟨next, opens open', rfl⟩)

/-- A worker with empty hands takes the next task. -/
theorem InHands.take {worker : Nat} {old : Position} {task : VTask}
    (inHands : InHands before done isOpen) (opens : isOpen .held)
    (here : before.positions[worker]? = some old)
    (idle : ∀ stage ticket task, old ≠ .working stage ticket task)
    (moved : after.positions = before.positions.set worker
      (.working .held before.history.dequeued.length task))
    (newDequeued : after.history.dequeued = before.history.dequeued ++ [(worker, task)]) :
    InHands after done isOpen := by
  have inside := (List.getElem?_eq_some_iff.mp here).1
  intro ticket tested found dequeued callable
  rw [moved]
  rw [newDequeued, List.getElem?_append] at dequeued
  split at dequeued
  · rcases inHands ticket tested found dequeued callable with finished | ⟨stage, open', position⟩
    · exact Or.inl finished
    · refine Or.inr ⟨stage, open', ?_⟩
      by_cases same : tested = worker
      · subst same
        exact absurd (Option.some.inj (here.symm.trans position)) (idle _ _ _)
      · rw [List.getElem?_set_ne (Ne.symm same), position]
  · have bound := (List.getElem?_eq_some_iff.mp dequeued).1
    rw [List.length_singleton] at bound
    have place : ticket = before.history.dequeued.length := by omega
    subst place
    rw [Nat.sub_self, List.getElem?_cons_zero, Option.some.injEq, Prod.mk.injEq] at dequeued
    obtain ⟨rfl, rfl⟩ := dequeued
    exact Or.inr ⟨.held, opens, List.getElem?_set_self inside⟩

/-- New threads at the end of the list change nobody's hands. -/
theorem InHands.grow {added : List Position} (inHands : InHands before done isOpen)
    (grown : after.positions = before.positions ++ added)
    (sameDequeued : after.history.dequeued = before.history.dequeued) :
    InHands after done isOpen := by
  intro ticket worker task dequeued callable
  rw [sameDequeued] at dequeued
  rw [grown]
  rcases inHands ticket worker task dequeued callable with finished | ⟨stage, open', position⟩
  · exact Or.inl finished
  · have inside := (List.getElem?_eq_some_iff.mp position).1
    exact Or.inr ⟨stage, open', by rw [List.getElem?_append_left inside, position]⟩

/-- One worker moves on without a dequeue or a call: what it takes into its hands it
had there, and what it lets go has been called or has no procedure. -/
theorem Served.move {worker : Nat} {old new : Position} (served : Served before)
    (here : before.positions[worker]? = some old)
    (moved : after.positions = before.positions.set worker new)
    (sameDequeued : after.history.dequeued = before.history.dequeued)
    (sameInvoked : after.history.invoked = before.history.invoked)
    (keeps : ∀ stage ticket task, new = .working stage ticket task →
      ∃ earlier, old = .working earlier ticket task ∧ earlier.called = stage.called)
    (gives : ∀ stage ticket task, old = .working stage ticket task → stage.called = false →
      task.procedure = none ∨ ∃ next, next.called = false ∧ new = .working next ticket task) :
    Served after := by
  have sameTickets : after.invokedTickets = before.invokedTickets :=
    congrArg (List.map Invocation.ticket) sameInvoked
  have inside := (List.getElem?_eq_some_iff.mp here).1
  refine ⟨?_, ?_, ?_, ?_⟩
  · intro tested stage ticket task position
    rw [sameDequeued, sameTickets]
    rw [moved] at position
    by_cases same : tested = worker
    · subst same
      rw [List.getElem?_set_self inside, Option.some.injEq] at position
      obtain ⟨earlier, was, called⟩ := keeps stage ticket task position
      rw [← called]
      exact served.hands tested earlier ticket task (was ▸ here)
    · rw [List.getElem?_set_ne (Ne.symm same)] at position
      exact served.hands tested stage ticket task position
  · rw [sameInvoked, sameDequeued]
    exact served.invoked
  · rw [sameTickets]
    exact served.once
  · rw [sameTickets]
    refine served.pending.move here moved sameDequeued (fun _ => id) ?_
    intro stage ticket task was uncalled
    exact (gives stage ticket task was uncalled).imp_right Or.inr

/-- A worker goes on with the task in its hands, without calling it. -/
theorem Served.advance {worker ticket : Nat} {task : VTask} {earlier next : Stage}
    (served : Served before)
    (here : before.positions[worker]? = some (.working earlier ticket task))
    (moved : after.positions = before.positions.set worker (.working next ticket task))
    (sameDequeued : after.history.dequeued = before.history.dequeued)
    (sameInvoked : after.history.invoked = before.history.invoked)
    (sameCalled : earlier.called = next.called) : Served after := by
  refine served.move here moved sameDequeued sameInvoked ?_ ?_
  · intro stage other found working
    obtain ⟨rfl, rfl, rfl⟩ := Position.working.inj working
    exact ⟨earlier, rfl, sameCalled⟩
  · intro stage other found working uncalled
    obtain ⟨rfl, rfl, rfl⟩ := Position.working.inj working
    exact Or.inr ⟨next, sameCalled ▸ uncalled, rfl⟩

/-- New threads at the end of the list have nothing in their hands. -/
theorem Served.grow {added : List Position} (served : Served before)
    (idle : ∀ position ∈ added, ∀ stage ticket task, position ≠ .working stage ticket task)
    (grown : after.positions = before.positions ++ added)
    (sameDequeued : after.history.dequeued = before.history.dequeued)
    (sameInvoked : after.history.invoked = before.history.invoked) : Served after := by
  have sameTickets : after.invokedTickets = before.invokedTickets :=
    congrArg (List.map Invocation.ticket) sameInvoked
  refine ⟨?_, ?_, ?_, ?_⟩
  · intro worker stage ticket task position
    rw [sameDequeued, sameTickets]
    rw [grown, List.getElem?_append] at position
    split at position
    · exact served.hands worker stage ticket task position
    · have member := List.mem_of_getElem? position
      exact absurd rfl (idle _ member stage ticket task)
  · rw [sameInvoked, sameDequeued]
    exact served.invoked
  · rw [sameTickets]
    exact served.once
  · rw [sameTickets]
    exact served.pending.grow grown sameDequeued

/-- A dequeued task goes into the empty hands of its worker. -/
theorem Served.take {worker : Nat} {old : Position} {task : VTask} (served : Served before)
    (here : before.positions[worker]? = some old)
    (idle : ∀ stage ticket task, old ≠ .working stage ticket task)
    (moved : after.positions = before.positions.set worker
      (.working .held before.history.dequeued.length task))
    (newDequeued : after.history.dequeued = before.history.dequeued ++ [(worker, task)])
    (sameInvoked : after.history.invoked = before.history.invoked) : Served after := by
  have sameTickets : after.invokedTickets = before.invokedTickets :=
    congrArg (List.map Invocation.ticket) sameInvoked
  have inside := (List.getElem?_eq_some_iff.mp here).1
  -- Earlier dequeues keep their places, and no call has the new ticket.
  have earlier : ∀ (ticket : Nat) entry, before.history.dequeued[ticket]? = some entry →
      after.history.dequeued[ticket]? = some entry := by
    intro ticket entry read
    rw [newDequeued, List.getElem?_append_left (List.getElem?_eq_some_iff.mp read).1, read]
  have fresh : before.history.dequeued.length ∉ before.invokedTickets := by
    intro called
    obtain ⟨call, member, same⟩ := List.mem_map.mp called
    obtain ⟨_, read, _⟩ := served.invoked call member
    have bound := (List.getElem?_eq_some_iff.mp read).1
    omega
  refine ⟨?_, ?_, ?_, ?_⟩
  · intro tested stage ticket found position
    rw [sameTickets]
    rw [moved] at position
    by_cases same : tested = worker
    · subst same
      rw [List.getElem?_set_self inside, Option.some.injEq, Position.working.injEq] at position
      obtain ⟨rfl, rfl, rfl⟩ := position
      refine ⟨?_, by simp [fresh, Stage.called]⟩
      rw [newDequeued, List.getElem?_append_right (Nat.le_refl _), Nat.sub_self]
      rfl
    · rw [List.getElem?_set_ne (Ne.symm same)] at position
      obtain ⟨read, called⟩ := served.hands tested stage ticket found position
      exact ⟨earlier _ _ read, called⟩
  · intro call member
    rw [sameInvoked] at member
    obtain ⟨found, read, called⟩ := served.invoked call member
    exact ⟨found, earlier _ _ read, called⟩
  · rw [sameTickets]
    exact served.once
  · rw [sameTickets]
    exact served.pending.take rfl here idle moved newDequeued

/-- A worker calls the procedure of the task in its hands, which nobody has called. -/
theorem Served.invoke {worker ticket procedure : Nat} {task : VTask} (served : Served before)
    (here : before.positions[worker]? = some (.working .counted ticket task))
    (callable : task.procedure = some procedure)
    (moved : after.positions = before.positions.set worker (.working .running ticket task))
    (sameDequeued : after.history.dequeued = before.history.dequeued)
    (newInvoked : after.history.invoked =
      before.history.invoked ++ [⟨ticket, worker, procedure, task.arg⟩]) : Served after := by
  have newTickets : after.invokedTickets = before.invokedTickets ++ [ticket] := by
    simp [invokedTickets, newInvoked]
  have inside := (List.getElem?_eq_some_iff.mp here).1
  obtain ⟨mine, uncalled⟩ := served.hands worker .counted ticket task here
  have fresh : ticket ∉ before.invokedTickets := by
    intro called
    exact absurd (uncalled.mp called) (by decide)
  refine ⟨?_, ?_, ?_, ?_⟩
  · intro tested stage other found position
    rw [sameDequeued, newTickets]
    rw [moved] at position
    by_cases same : tested = worker
    · subst same
      rw [List.getElem?_set_self inside, Option.some.injEq, Position.working.injEq] at position
      obtain ⟨rfl, rfl, rfl⟩ := position
      exact ⟨mine, by simp [Stage.called]⟩
    · rw [List.getElem?_set_ne (Ne.symm same)] at position
      obtain ⟨read, called⟩ := served.hands tested stage other found position
      have different : other ≠ ticket := by
        rintro rfl
        have owner := Option.some.inj (read.symm.trans mine)
        exact same (Prod.mk.inj owner).1
      refine ⟨read, ?_⟩
      rw [List.mem_append, List.mem_singleton, called]
      simp [different]
  · intro call member
    rw [sameDequeued]
    rw [newInvoked, List.mem_append, List.mem_singleton] at member
    rcases member with known | rfl
    · exact served.invoked call known
    · exact ⟨task, mine, callable, rfl⟩
  · rw [newTickets, List.nodup_append]
    refine ⟨served.once, by simp, ?_⟩
    intro other known last member
    rw [List.mem_singleton.mp member]
    rintro rfl
    exact fresh known
  · rw [newTickets]
    refine served.pending.move here moved sameDequeued
      (fun _ known => List.mem_append_left _ known) ?_
    intro stage other found working _
    obtain ⟨_, rfl, _⟩ := Position.working.inj working
    exact Or.inr (Or.inl (List.mem_append_right _ List.mem_cons_self))

/-- A new thread comes behind the others, which keep their states and places. -/
theorem addThread_threads (pool : VThreadPool) (moves : Bool) :
    ∃ olds, (pool.addThread moves).threads = olds ++ [Thread.init] ∧
      olds.map Thread.state = pool.threads.map Thread.state ∧
      olds.map Thread.position = pool.positions := by
  unfold addThread positions
  split
  · exact ⟨_, rfl, by simp [Function.comp_def], by simp [Function.comp_def]⟩
  · exact ⟨pool.threads, rfl, rfl, rfl⟩

/-- What the threads of a pool may have grown by. -/
theorem grown_positions {grown : VThreadPool}
    (growth : grown = before ∨ before.isAllThreadsInfinite = true ∧
      ∃ moves, grown = before.addThread moves) :
    ∃ added, grown.positions = before.positions ++ added ∧
      ∀ position ∈ added, position = .starting := by
  rcases growth with rfl | ⟨_, moves, rfl⟩
  · exact ⟨[], by simp, by simp⟩
  · obtain ⟨olds, threads, _, places⟩ := addThread_threads before moves
    refine ⟨[.starting], ?_, by simp⟩
    rw [positions, threads, List.map_append, places]
    rfl

theorem Effect.served (effect : Effect before action after) (served : Served before) :
    Served after := by
  cases effect with
  | started worker thread read position =>
    refine served.move (positions_read read) (positions_set _ _ _) rfl rfl (by simp) ?_
    rw [position]
    simp
  | idled worker thread read position _ =>
    refine served.move (positions_read read) (positions_set _ _ _) rfl rfl (by simp) ?_
    rcases position with fetching | waiting
    · simp [fetching]
    · simp [waiting]
  | took worker thread task taskList read position available dequeued =>
    refine served.take (positions_read read) ?_ (positions_set _ _ _) rfl rfl
    rcases position with fetching | waiting
    · simp [fetching]
    · simp [waiting]
  | dropped worker thread ticket task read position null =>
    refine served.move (positions_read read) (positions_set _ _ _) rfl rfl (by simp) ?_
    intro stage other found working _
    obtain ⟨_, _, rfl⟩ := Position.working.inj (position.symm.trans working)
    exact Or.inl null
  | announced worker thread ticket task state read position _ _ =>
    exact served.advance (positions_at read position) (positions_set _ _ _) rfl rfl rfl
  | countedInfinite worker thread ticket task read position _ =>
    exact served.advance (positions_at read position) (positions_set _ _ _) rfl rfl rfl
  | countedNormal worker thread ticket task read position _ =>
    exact served.advance (positions_at read position) (positions_set _ _ _) rfl rfl rfl
  | invoked worker thread ticket procedure task read position callable =>
    exact served.invoke (positions_at read position) callable (positions_set _ _ _) rfl rfl
  | completed worker thread ticket task read position =>
    exact served.advance (positions_at read position) (positions_set _ _ _) rfl rfl rfl
  | left worker thread ticket task read position =>
    refine served.move (positions_read read) (positions_set _ _ _) rfl rfl (by simp) ?_
    intro stage other found working uncalled
    obtain ⟨rfl, _, _⟩ := Position.working.inj (position.symm.trans working)
    cases uncalled
  | finished worker thread read position =>
    refine served.move (positions_read read) (positions_set _ _ _) rfl rfl (by simp) ?_
    rw [position]
    simp
  | blocked _ grown caller task source _ =>
    obtain ⟨added, appended, idle⟩ := grown_positions source.growth
    exact served.grow (fun position member _ _ _ => by simp [idle position member]) appended rfl
      rfl
  | stored _ grown caller task taskList source _ _ =>
    obtain ⟨added, appended, idle⟩ := grown_positions source.growth
    exact served.grow (fun position member _ _ _ => by simp [idle position member]) appended rfl rfl
  | _ => exact ⟨served.hands, served.invoked, served.once, served.pending⟩

/-! ## The law -/

/-- What a pool keeps of its tasks, in every state: dequeues follow the order of
enqueues; what is not dequeued lies between the cursors; and each dequeued task with
a procedure is called once, with its argument, by the worker that dequeued it, unless
that worker is still on its way to the call. -/
structure TasksInOrder (pool : VThreadPool) : Prop where
  order : pool.history.dequeued.map Prod.snd <+: pool.history.enqueued
  unread : ∀ offset < pool.taskList.count,
    pool.taskList.items[(pool.taskList.readCursor + offset) % pool.taskList.capacity]? =
      pool.history.enqueued[pool.history.dequeued.length + offset]?
  balance : pool.history.dequeued.length + pool.taskList.count = pool.history.enqueued.length
  bound : pool.taskList.count ≤ pool.taskList.capacity
  readInside : pool.taskList.readCursor < pool.taskList.capacity
  writeInside : pool.taskList.writeCursor < pool.taskList.capacity
  cursors : pool.taskList.writeCursor =
    (pool.taskList.readCursor + pool.taskList.count) % pool.taskList.capacity
  called : ∀ call ∈ pool.history.invoked, ∃ task,
    pool.history.dequeued[call.ticket]? = some (call.worker, task) ∧
      task.procedure = some call.procedure ∧ task.arg = call.arg
  once : (pool.history.invoked.map Invocation.ticket).Nodup
  pending : ∀ ticket worker task, pool.history.dequeued[ticket]? = some (worker, task) →
    task.procedure ≠ none → ticket ∈ pool.history.invoked.map Invocation.ticket ∨
      ∃ thread stage, pool.threads[worker]? = some thread ∧
        thread.position = .working stage ticket task ∧ stage.called = false

/-- What one step may do to the list: a dequeue finds a task there, and a task that is
still to be read is not overwritten. -/
structure TakesAndKeeps (before after : VThreadPool) : Prop where
  available : after.history.dequeued ≠ before.history.dequeued → 0 < before.taskList.count
  kept : ∀ offset < before.taskList.count,
    after.taskList.items[(before.taskList.readCursor + offset) % before.taskList.capacity]? =
      before.taskList.items[(before.taskList.readCursor + offset) % before.taskList.capacity]?

theorem Queued.inOrder {capacity : Nat} {pool : VThreadPool} (queued : Queued capacity pool)
    (served : Served pool) : TasksInOrder pool := by
  obtain ⟨_, ⟨unread, holds, length, order⟩, cursor⟩ := queued
  have positive : 0 < pool.taskList.capacity := Nat.zero_lt_of_lt holds.inside
  refine ⟨⟨unread, order.symm⟩, ?_, ?_, length ▸ holds.fits, holds.inside, ?_, cursor,
    served.invoked, served.once, ?_⟩
  · intro offset short
    rw [order, List.getElem?_append_right (by simp), List.length_map, Nat.add_sub_cancel_left]
    exact holds.reads offset (length ▸ short)
  · rw [order, List.length_append, List.length_map, length]
  · rw [cursor]
    exact slot_lt _ _ _ positive
  · intro ticket worker task dequeued callable
    rcases served.pending ticket worker task dequeued callable with called |
      ⟨stage, uncalled, position⟩
    · exact Or.inl called
    · obtain ⟨thread, read, same⟩ := Option.map_eq_some_iff.mp
        ((List.getElem?_map).symm.trans position)
      exact Or.inr ⟨thread, stage, read, same, uncalled⟩

theorem Effect.takesAndKeeps {capacity : Nat} (effect : Effect before action after)
    (queued : Queued capacity before) : TakesAndKeeps before after := by
  cases effect with
  | took worker thread task taskList _ _ available dequeued =>
    refine ⟨fun _ => Nat.pos_of_ne_zero available, ?_⟩
    obtain ⟨_, rfl⟩ := VTaskList.dequeue_spec available dequeued
    exact fun _ _ => rfl
  | stored _ grown caller task taskList _ room enqueued =>
    refine ⟨fun changed => absurd rfl changed, ?_⟩
    obtain ⟨_, ⟨unread, holds, length, _⟩, cursor⟩ := queued
    have fits := holds.fits
    obtain rfl := VTaskList.enqueue_spec enqueued
    intro offset short
    have notFull : unread.length < before.taskList.items.length := by
      unfold VTaskList.capacity at room
      omega
    have free := holds.free notFull (length ▸ short : offset < unread.length)
    rw [length] at free
    rw [cursor]
    exact List.getElem?_set_ne free.symm
  | _ => exact ⟨fun changed => absurd rfl changed, fun _ _ => rfl⟩

/-- Every run of a pool with a thread keeps its tasks in order, and so does every step
from its last state. -/
theorem tasks_run_in_order {numThreads : Nat} (positive : 1 ≤ numThreads) {trace : List Action}
    {pool : VThreadPool} (run : Runs.Run step Runs.anywhere (init numThreads) trace pool) :
    TasksInOrder pool ∧
      ∀ action next, step pool action = some next → TakesAndKeeps pool next := by
  have kept : Queued numThreads pool ∧ Served pool := by
    refine run.invariant (fun reached => Queued numThreads reached ∧ Served reached)
      ⟨init_queued positive, init_served numThreads⟩ ?_
    rintro before action after ⟨queued, served⟩ _ taken
    have effect := step_effect taken
    exact ⟨effect.queued queued, effect.served served⟩
  refine ⟨kept.1.inOrder kept.2, ?_⟩
  intro action next taken
  exact (step_effect taken).takesAndKeeps kept.1

/-- Two tasks, added one behind the other: two workers dequeue them in this order, and the second
one comes to its call first. -/
def twoTasks : List Action :=
  [.addTask (some 7) 5 .default, .lock 0 false, .signal 0, .addTask (some 8) 6 .default,
    .lock 1 false, .signal 1, .start 0, .take 0, .start 1, .take 1, .look 1, .count 1, .invoke 1,
    .look 0, .count 0, .invoke 0]

/-- In a pool with two threads, whose cursors have both gone around, the law covers the two calls. -/
theorem tasks_run_in_order_called :
    ∃ pool, twoTasks.foldlM step (init 2) = some pool ∧
      pool.history.enqueued = [⟨some 7, 5, .default⟩, ⟨some 8, 6, .default⟩] ∧
      pool.history.invoked = [⟨1, 1, 8, 6⟩, ⟨0, 0, 7, 5⟩] ∧
      pool.taskList.readCursor = 0 ∧ pool.taskList.writeCursor = 0 ∧ TasksInOrder pool := by
  have executed : ∃ pool, twoTasks.foldlM step (init 2) = some pool ∧
      pool.history.enqueued = [⟨some 7, 5, .default⟩, ⟨some 8, 6, .default⟩] ∧
      pool.history.invoked = [⟨1, 1, 8, 6⟩, ⟨0, 0, 7, 5⟩] ∧
      pool.taskList.readCursor = 0 ∧ pool.taskList.writeCursor = 0 :=
    ⟨_, rfl, rfl, rfl, rfl, rfl⟩
  obtain ⟨pool, reached, enqueued, invoked, read, write⟩ := executed
  exact ⟨pool, reached, enqueued, invoked, read, write,
    (tasks_run_in_order (by decide) (Runs.Run.of_foldlM reached)).1⟩

end VHttp.ThreadPool.VThreadPool
