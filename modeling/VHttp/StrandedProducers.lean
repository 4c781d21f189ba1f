import VHttp.TaskSignals

/-!
# Producers that nobody wakes

A caller of `VThreadPool_AddTask` that finds the list full sleeps on `ThreadDone`. Room appears
when a worker takes a task; `ThreadDone` is signalled when a procedure has returned. A task
without a procedure is dropped with no signal, and one marked `PROC_INFINITY` never comes to
its signal. So a worker that takes such a task can leave a producer asleep beside room in the
list. The rule that adds a thread where all are infinite is tested once, before the wait.

Where a step leaves somebody who will signal or store a task, or a worker for what is still
queued, no producer is stranded.
-/

namespace VHttp.ThreadPool

open Runs ConditionVariables

/-- A task that is run and returns. -/
def VTask.returns (task : VTask) : Bool :=
  task.procedure.isSome && decide (task.attr = .default)

/-- The worker comes to the signal behind a procedure. -/
def Position.returning : Position → Bool
  | .working .held _ task => task.returns
  | .working .returned _ _ => true
  | .working _ _ task => decide (task.attr = .default)
  | _ => false

/-- A worker that comes to that signal goes on until it has sent it. -/
theorem VThreadPool.Moves.returning {before : VThreadPool} {action : Action} {worker : Nat}
    {position next : Position} (moves : Moves before worker action position next)
    (returning : position.returning = true) (apart : ∀ worker, action ≠ .leave worker) :
    next.returning = true := by
  cases moves with
  | start => cases returning
  | wait position idle empty => rcases idle with rfl | rfl <;> cases returning
  | take position ticket task taskList idle available dequeued =>
    rcases idle with rfl | rfl <;> cases returning
  | drop ticket task null => simp [Position.returning, VTask.returns, null] at returning
  | announce ticket task callable =>
    exact (Bool.and_eq_true _ _ ▸ returning : _ ∧ _).2
  | count ticket task => exact returning
  | invoke ticket task => exact returning
  | complete ticket task => rfl
  | leave ticket task => exact absurd rfl (apart worker)
  | finish => cases returning

namespace SleepingPool

open VThreadPool

/-- A producer is blocked on `ThreadDone` while the list has room, no other thread is inside
`VThreadPool_AddTask`, and no worker is going to move. -/
structure ProducerStranded (state : SleepingPool) (caller : Nat) : Prop where
  asleep : caller ∈ state.threadDone
  room : state.pool.taskList.count < state.pool.taskList.capacity
  returned : ∀ (other : Nat) (call : AddCall), state.pool.adds[other]? = some call →
    other ≠ caller → ∃ ticket, call = .returned ticket
  settled : Settled state

/-- What a sleeping producer can count on: the list is full, a worker comes to its signal,
another call is still to store its task, or a worker is left for a queued task. -/
def Awaited (pool : VThreadPool) (caller : Nat) : Prop :=
  full pool ∨ pool.Somewhere Position.returning ∨ StoringBeside pool [caller] ∨
    pool.taskList.count ≠ 0 ∧ pool.Somewhere Position.left

/-- When a worker that takes a task that does not return leaves something for a producer. -/
def TakeLeaves (pool : VThreadPool) (worker : Nat) (task : VTask) (taskList : VTaskList)
    (caller : Nat) : Prop :=
  pool.Somewhere Position.returning ∨ StoringBeside pool [caller] ∨
    taskList.count ≠ 0 ∧ (task.procedure = none ∨ pool.Elsewhere worker Position.left)

/-- When a call that stores its task leaves something for a producer. -/
def StoreLeaves (pool : VThreadPool) (storing caller : Nat) : Prop :=
  pool.taskList.count + 1 = pool.taskList.capacity ∨ pool.Somewhere Position.left ∨
    StoringBeside pool [storing, caller]

/-- When a step leaves something for every producer that is asleep. A caller that has just
found every thread infinite adds a worker for its own task. -/
def KeepsProducers (state : SleepingPool) : SleepingMove → Prop
  | .act (.take worker) _ => state.pool.taskList.count ≠ 0 → ∀ task taskList,
      state.pool.taskList.dequeue = some (task, taskList) → task.returns = false →
      ∀ caller ∈ state.threadDone, TakeLeaves state.pool worker task taskList caller
  | .act (.lock storing _) _ => ¬ full state.pool → ∀ caller ∈ state.threadDone,
      state.pool.isAllThreadsInfinite = true ∨ StoreLeaves state.pool storing caller
  | .act (.retry storing) _ => ¬ full state.pool → ∀ caller ∈ state.threadDone,
      StoreLeaves state.pool storing caller
  | _ => True

/-- What a sleeping producer can count on stays, but for the signal behind a procedure, where a
step that takes or stores a task leaves something. -/
theorem awaited_stays {before after : VThreadPool} {action : Action} {caller : Nat}
    (effect : Effect before action after) (silent : ∀ worker, action ≠ .leave worker)
    (takes : ∀ worker task taskList, action = .take worker → before.taskList.count ≠ 0 →
      before.taskList.dequeue = some (task, taskList) → task.returns = false →
      TakeLeaves before worker task taskList caller)
    (stores : ∀ storing task grown, Enqueuing before action storing task grown → ¬ full before →
      before.taskList.count + 1 = before.taskList.capacity ∨ grown.Somewhere Position.left ∨
        StoringBeside before [storing, caller])
    (awaited : Awaited before caller) : Awaited after caller := by
  have returning : before.Somewhere Position.returning → after.Somewhere Position.returning :=
    fun somebody => somebody.stays effect
      (fun _ _ _ moves passes => moves.returning passes silent)
  rcases effect.queue with ⟨same, idle, noRoom⟩ |
    ⟨worker, ticket, task, rfl, available, dequeued, held⟩ |
    ⟨storing, task, grown, source, room, longer, places, adds⟩
  · rcases awaited with isFull | signalling | storing | ⟨queued, left⟩
    · refine Or.inl ?_
      rw [full, same, effect.capacity]
      exact isFull
    · exact Or.inr (Or.inl (returning signalling))
    · exact Or.inr (Or.inr (Or.inl (storing.stays effect noRoom)))
    · refine Or.inr (Or.inr (Or.inr ⟨same ▸ queued, left.stays effect ?_⟩))
      intro worker position next moves passes
      exact moves.left passes (fun _ _ taken available _ => absurd (idle worker taken) available)
  · cases kind : task.returns with
    | true => exact Or.inr (Or.inl ⟨_, List.mem_of_getElem? held, kind⟩)
    | false =>
      rcases takes worker task _ rfl available dequeued kind with signalling | storing |
        ⟨queued, null | left⟩
      · exact Or.inr (Or.inl (returning signalling))
      · refine Or.inr (Or.inr (Or.inl (storing.stays effect ?_)))
        rintro storing task grown ⟨⟩
      · refine Or.inr (Or.inr (Or.inr ⟨queued, _, List.mem_of_getElem? held, ?_⟩))
        simp [Position.left, Position.endless, VTask.endless, null]
      · refine Or.inr (Or.inr (Or.inr ⟨queued, left.stays effect ?_⟩))
        rintro other position next ⟨⟩
        · rfl
        · rfl
  · rcases stores storing task grown source room with last | left | others
    · refine Or.inl ?_
      rw [full, longer, effect.capacity]
      exact last
    · refine Or.inr (Or.inr (Or.inr ⟨by omega, ?_⟩))
      unfold Somewhere at left ⊢
      rw [places]
      exact left
    · exact Or.inr (Or.inr (Or.inl (others.set adds)))

variable {before after : SleepingPool} {action : Action} {woken : Option Nat}

/-- What a call that stores its task leaves, with the thread that it may have added. -/
theorem KeepsProducers.stores (keeps : KeepsProducers before (.act action woken)) {caller : Nat}
    (asleep : caller ∈ before.threadDone) {storing : Nat} {task : VTask} {grown : VThreadPool}
    (source : Enqueuing before.pool action storing task grown) (room : ¬ full before.pool) :
    before.pool.taskList.count + 1 = before.pool.taskList.capacity ∨
      grown.Somewhere Position.left ∨ StoringBeside before.pool [storing, caller] := by
  have grows := fun left : before.pool.Somewhere Position.left => left.enqueuing source
  cases source with
  | locked storing moves task call =>
    rcases keeps room caller asleep with crowded | last | others
    · exact Or.inr (Or.inl ((Enqueuing.locked storing moves task call).addsLeft crowded))
    · exact Or.inl last
    · exact Or.inr (others.imp_left grows)
  | retried storing task call =>
    exact (keeps room caller asleep).imp_right (fun others => others.imp_left grows)

/-- The signal behind a procedure wakes a producer, which still has its task to store. -/
theorem Acts.wakesProducer {worker caller : Nat} (acts : Acts before after (.leave worker) woken)
    (sleepers : Sleepers before) (asleep : caller ∈ after.threadDone) :
    StoringBeside after.pool [caller] := by
  have lists := acts.threadDone
  have sleeping := List.ne_nil_of_mem (signal_subset lists caller asleep)
  obtain ⟨waker, slept, awake⟩ := signal_wakes lists sleeping
  obtain ⟨task, place⟩ := sleepers.callers waker slept
  have stays := blocked_stays acts.effect place (by simp)
  refine ⟨waker, .blocked task, ?_, stays, rfl⟩
  rintro same
  exact awake (List.mem_singleton.mp same ▸ asleep)

/-- A producer goes to sleep beside a full list. -/
theorem full_stays {earlier later : VThreadPool} {sleeper : Nat}
    (effect : Effect earlier action later)
    (enqueues : (∃ moves, action = .lock sleeper moves) ∨ action = .retry sleeper)
    (isFull : full earlier) : full later := by
  rcases effect.queue with ⟨same, _, _⟩ | ⟨worker, _, _, rfl, _⟩ | ⟨_, _, _, _, room, _⟩
  · rw [full, same, effect.capacity]
    exact isFull
  · simp at enqueues
  · exact absurd isFull room

/-- Every step that keeps the producers leaves each that is asleep something to count on. -/
theorem Acts.awaited (acts : Acts before after action woken)
    (keeps : KeepsProducers before (.act action woken)) (sleepers : Sleepers before)
    (awaited : ∀ caller ∈ before.threadDone, Awaited before.pool caller) :
    ∀ caller ∈ after.threadDone, Awaited after.pool caller := by
  intro caller asleep
  rcases acts.callers caller asleep with ⟨slept, _⟩ | ⟨enqueues, isFull⟩
  · by_cases signals : ∃ worker, action = .leave worker
    · obtain ⟨worker, rfl⟩ := signals
      exact Or.inr (Or.inr (Or.inl (acts.wakesProducer sleepers asleep)))
    · refine awaited_stays acts.effect (fun worker leaves => signals ⟨worker, leaves⟩) ?_ ?_
        (awaited caller slept)
      · rintro worker task taskList rfl available dequeued kind
        exact keeps available task taskList dequeued kind caller slept
      · exact fun storing task grown source room => keeps.stores slept source room
  · exact Or.inl (full_stays acts.effect enqueues isFull)

/-- A worker inside a procedure marked `PROC_INFINITY` comes to no signal, and is not left. -/
theorem inside_apart {position : Position} (inside : position.inside = true) :
    position.returning = false ∧ position.left = false := by
  obtain ⟨ticket, task, rfl, infinite⟩ := Position.inside_spec inside
  simp [Position.returning, Position.left, Position.endless, infinite]

/-- Where nobody moves, no worker that is asleep is missed by a queued task. -/
theorem ProducerStranded.empty {state : SleepingPool} {caller : Nat}
    (stranded : ProducerStranded state caller) (sleepers : Sleepers state)
    (covered : Covered state) (left : state.pool.Somewhere Position.left) :
    state.pool.taskList.count = 0 := by
  obtain ⟨position, member, passes⟩ := left
  obtain ⟨worker, place⟩ := List.mem_iff_getElem?.mp member
  have asleep : worker ∈ state.taskAvaliable := by
    rcases stranded.settled worker position place with asleep | inside
    · exact asleep
    · rw [(inside_apart inside).2] at passes
      cases passes
  have nobody : state.ready = ∅ := by
    apply Finset.eq_empty_of_forall_notMem
    intro other listed
    obtain ⟨awake, position, place, passes⟩ := mem_ready.mp listed
    rcases stranded.settled other position place with slept | inside
    · exact awake slept
    · rw [(inside_apart inside).2] at passes
      cases passes
  have silent : signals state.pool = 0 := by
    apply List.countP_eq_zero.mpr
    intro call entered
    obtain ⟨other, found⟩ := List.mem_iff_getElem?.mp entered
    by_cases same : other = caller
    · obtain ⟨task, blocked⟩ := sleepers.callers caller stranded.asleep
      rw [same, blocked, Option.some.injEq] at found
      simp [← found, AddCall.signalling]
    · obtain ⟨ticket, rfl⟩ := stranded.returned other call found same
      simp [AddCall.signalling]
  have enough := covered (List.ne_nil_of_mem asleep)
  rw [nobody, silent] at enough
  exact Nat.le_zero.mp enough

/-- While every step keeps the producers, none is left blocked on `ThreadDone` beside room with
nobody to signal it, in a pool of any size, with any number of producers and any tasks. -/
theorem no_producer_stranded {numThreads : Nat} {trace : List SleepingMove}
    {state : SleepingPool} (run : Run step KeepsProducers (init numThreads) trace state)
    (caller : Nat) : ¬ ProducerStranded state caller := by
  have awaited : ∀ caller ∈ state.threadDone, Awaited state.pool caller := by
    apply run.induct (fun _ reached => ∀ caller ∈ reached.threadDone, Awaited reached.pool caller)
      (fun _ asleep => absurd asleep List.not_mem_nil)
    intro trace before move after earlier awaited keeps taken
    rcases step_cases taken with ⟨action, woken, rfl, acts⟩ | rests
    · exact acts.awaited keeps (run_sleepers earlier) awaited
    · exact fun caller asleep => rests.pool ▸ awaited caller (rests.callers asleep)
  intro stranded
  have sleepers := run_sleepers run
  rcases awaited caller stranded.asleep with isFull | returning |
    ⟨other, call, apart, found, storing⟩ | ⟨queued, left⟩
  · exact absurd isFull (Nat.ne_of_lt stranded.room)
  · exact stranded.settled.nowhere sleepers rfl (fun _ inside => (inside_apart inside).1) returning
  · obtain ⟨ticket, rfl⟩ := stranded.returned other call found (by simpa using apart)
    cases storing
  · exact queued (stranded.empty sleepers (run_covered run) left)

/-- The list of a pool with one thread is full with a task without a procedure, and a second
producer sleeps. The worker drops that task, finds no other, and sleeps too. -/
def droppedTask : List SleepingMove :=
  [.act (.start 0) none, .act (.addTask none 0 .default) none, .act (.lock 0 false) none,
    .act (.signal 0) none, .act (.addTask (some 1) 0 .default) none, .act (.lock 1 false) none,
    .act (.take 0) none, .act (.look 0) none, .act (.finish 0) none, .act (.take 0) none]

/-- The producer is stranded. -/
theorem producer_is_stranded :
    ¬ ∀ (numThreads : Nat) (trace : List SleepingMove) (state : SleepingPool),
      Run step anywhere (init numThreads) trace state →
        ∀ caller, ¬ ProducerStranded state caller := by
  intro never
  obtain ⟨state, run, producers, workers, empty, one, calls, places⟩ :=
    Run.reaches (fun state : SleepingPool => state.threadDone = [1] ∧
        state.taskAvaliable = [0] ∧ state.pool.taskList.count = 0 ∧
        state.pool.taskList.capacity = 1 ∧
        state.pool.adds = [.returned 0, .blocked ⟨some 1, 0, .default⟩] ∧
        state.pool.positions = [.waiting])
      (by decide : (droppedTask.foldlM step (init 1)).any _ = true)
  apply never 1 droppedTask state run 1
  refine ⟨by simp [producers], by omega, ?_, ?_⟩
  · intro other call found apart
    rw [calls] at found
    match other with
    | 0 => exact ⟨0, (Option.some.inj found).symm⟩
    | 1 => exact absurd rfl apart
    | _ + 2 => cases found
  · intro worker position place
    rw [places] at place
    refine Or.inl ?_
    rw [workers, List.mem_singleton]
    exact Nat.lt_one_iff.mp (List.getElem?_eq_some_iff.mp place).1

/-- A producer behind a task that returns is woken when its procedure has. -/
theorem no_producer_stranded_woken :
    ∃ state, ([.act (.start 0) none, .act (.addTask (some 1) 0 .default) none,
        .act (.lock 0 false) none, .act (.signal 0) none, .act (.addTask none 0 .default) none,
        .act (.lock 1 false) none, .act (.take 0) none, .act (.look 0) none,
        .act (.count 0) none, .act (.invoke 0) none, .act (.complete 0) none,
        .act (.leave 0) (some 1)] : List SleepingMove).foldlM step (init 1) = some state ∧
      state.threadDone = [] ∧ ¬ ProducerStranded state 1 := by
  have first : Run step KeepsProducers (init 1)
      [.act (.start 0) none, .act (.addTask (some 1) 0 .default) none] _ :=
    Run.of_admitted (by simp [KeepsProducers]) rfl
  have stored : Run step KeepsProducers (init 1) (_ ++ [.act (.lock 0 false) none]) _ :=
    Run.next first (fun _ caller asleep => absurd asleep List.not_mem_nil) rfl
  have second : Run step KeepsProducers (init 1)
      (_ ++ [.act (.signal 0) none, .act (.addTask none 0 .default) none]) _ :=
    stored.append (Run.of_admitted (by simp [KeepsProducers]) rfl)
  have blocked : Run step KeepsProducers (init 1) (_ ++ [.act (.lock 1 false) none]) _ :=
    Run.next second (fun room => absurd rfl room) rfl
  have taken : Run step KeepsProducers (init 1) (_ ++ [.act (.take 0) none]) _ :=
    Run.next blocked (fun _ task taskList dequeued kind => by
      have same : (⟨some 1, 0, .default⟩ : VTask) = task :=
        (Prod.mk.inj (Option.some.inj dequeued)).1
      subst same
      cases kind) rfl
  have run : Run step KeepsProducers (init 1) (_ ++ [.act (.look 0) none, .act (.count 0) none,
      .act (.invoke 0) none, .act (.complete 0) none, .act (.leave 0) (some 1)]) _ :=
    taken.append (Run.of_admitted (by simp [KeepsProducers]) rfl)
  exact ⟨_, run.executed, rfl, no_producer_stranded run 1⟩

end SleepingPool

end VHttp.ThreadPool
