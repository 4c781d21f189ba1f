import Mathlib.Algebra.Order.Ring.Nat
import VHttp.PoolChanges

/-!
# What a wait has waited for

`VThreadPool_Wait` returns when the task list is empty and no worker is counted as
working. A worker takes a task off the list in one section and counts itself in
another, so between the two a task shows in neither number: a wait that tests then
returns while the task has not even started. That window is one way to fail. The
other is a procedure marked `PROC_INFINITY` that returns after all, because the
section after a procedure takes one off the number of normal workers whatever was
counted before.

With neither of the two the guarantee holds in every state. The invariant behind it
says that the counter is the number of workers that are counted, which needs a bound
on them: the list grows only when every thread is infinite, so those that are not
never outnumber the threads of the start, and the 32-bit counter cannot wrap.
-/

namespace VHttp.ThreadPool

/-- The worker is between the section that counts it and the one that uncounts it. -/
def Stage.counts : Stage → Bool
  | .counted => true
  | .running => true
  | .returned => true
  | _ => false

/-- The worker's kind is written to its thread's state and its procedure has not
returned. -/
def Stage.engages : Stage → Bool
  | .announced => true
  | .counted => true
  | .running => true
  | _ => false

/-- Counted for a `PROC_DEFAULT` task. -/
def Position.normal : Position → Bool
  | .working stage _ task => stage.counts && decide (task.attr = .default)
  | _ => false

/-- Given over to a `PROC_INFINITY` task. -/
def Position.engaged : Position → Bool
  | .working stage _ task => stage.engages && decide (task.attr = .infinity)
  | _ => false

namespace VThreadPool

variable {before after : VThreadPool} {action : Action}

/-- No procedure marked `PROC_INFINITY` returns, and no wait passes its test while a
worker has taken a task that it waits for and has not counted itself as working. -/
def Attentive (pool : VThreadPool) (action : Action) : Prop :=
  (∀ worker ticket task, action = .complete worker →
    pool.positions[worker]? = some (.working .running ticket task) → task.attr ≠ .infinity) ∧
  (∀ (waiter : Nat) (wait : WaitCall), action = .test waiter →
    pool.waits[waiter]? = some wait →
    pool.normalThreadsWorking = 0 ∧ pool.taskList.count = 0 →
      ∀ ticket ∈ wait.owed, ∀ (worker : Nat) (task : VTask),
        pool.positions[worker]? ≠ some (.working .held ticket task) ∧
        pool.positions[worker]? ≠ some (.working .announced ticket task))

/-- Every wait that has returned has seen the tasks it waits for completed. -/
def Waited (pool : VThreadPool) : Prop :=
  ∀ wait ∈ pool.waits, wait.state = .returned →
    ∀ ticket ∈ wait.owed, ticket ∈ pool.history.completed

/-! ## The counter -/

/-- The counter of normal workers is the number of workers counted, the workers that
are not engaged stay within the limit, and a thread is marked infinite only while its
worker is engaged. -/
structure Counted (limit : Nat) (pool : VThreadPool) : Prop where
  tally : pool.normalThreadsWorking.toNat = pool.positions.countP Position.normal
  free : pool.positions.countP (fun position => !position.engaged) ≤ limit
  marked : ∀ (worker : Nat) (thread : Thread), pool.threads[worker]? = some thread →
    thread.state = .infinite → thread.position.engaged = true
  finite : ∀ (worker ticket : Nat) (task : VTask),
    pool.positions[worker]? = some (.working .returned ticket task) → task.attr = .default

theorem init_counted {numThreads limit : Nat} (within : numThreads ≤ limit) :
    Counted limit (init numThreads) := by
  refine ⟨?_, ?_, ?_, ?_⟩
  · simp [init, positions, Thread.init, Position.normal, List.countP_replicate]
  · simpa [init, positions, Thread.init, Position.engaged, List.countP_replicate] using within
  · intro worker thread read state
    simp only [init, List.getElem?_replicate] at read
    split at read
    · obtain rfl := Option.some.inj read
      cases state
    · cases read
  · intro worker ticket task position
    simp only [init, positions, List.map_replicate, List.getElem?_replicate] at position
    split at position
    · simp [Thread.init] at position
    · cases position

/-- The workers counted as normal are not engaged. -/
theorem normal_le_free (list : List Position) :
    list.countP Position.normal ≤ list.countP (fun position => !position.engaged) := by
  refine List.countP_mono_left ?_
  intro position _ normal
  cases position with
  | working stage ticket task =>
    simp only [Position.normal, Bool.and_eq_true, decide_eq_true_eq] at normal
    simp [Position.engaged, normal.2]
  | _ => cases normal

/-- One worker moves on: the counter moves with its share, an engaged worker stays
engaged, and its thread is marked infinite only when it is engaged. -/
theorem Counted.move {limit worker : Nat} {old new : Thread} (counted : Counted limit before)
    (read : before.threads[worker]? = some old)
    (threads : after.threads = before.threads.set worker new)
    (share : after.normalThreadsWorking.toNat + (if old.position.normal then 1 else 0) =
      before.normalThreadsWorking.toNat + (if new.position.normal then 1 else 0))
    (stays : old.position.engaged = true → new.position.engaged = true)
    (state : new.state = .infinite → new.position.engaged = true)
    (finite : ∀ ticket task, new.position = .working .returned ticket task → task.attr = .default) :
    Counted limit after := by
  have here := positions_read read
  have moved : after.positions = before.positions.set worker new.position := by
    unfold positions
    rw [threads, List.map_set]
  have inside := (List.getElem?_eq_some_iff.mp read).1
  refine ⟨?_, ?_, ?_, ?_⟩
  · have moving := countP_set_share new.position Position.normal here
    rw [← moved] at moving
    have tally := counted.tally
    omega
  · have moving := countP_set_share new.position (fun position => !position.engaged) here
    rw [← moved] at moving
    have free := counted.free
    cases engaged : old.position.engaged with
    | true =>
      rw [stays engaged, engaged] at moving
      simp only [Bool.not_true, Bool.false_eq_true, ↓reduceIte] at moving
      omega
    | false =>
      rw [engaged] at moving
      simp only [Bool.not_false, ↓reduceIte] at moving
      split at moving
      all_goals omega
  · intro tested thread found infinite
    rw [threads] at found
    by_cases same : tested = worker
    · subst same
      rw [List.getElem?_set_self inside, Option.some.injEq] at found
      subst found
      exact state infinite
    · rw [List.getElem?_set_ne (Ne.symm same)] at found
      exact counted.marked tested thread found infinite
  · intro tested ticket task position
    rw [moved] at position
    by_cases same : tested = worker
    · subst same
      rw [List.getElem?_set_self (List.getElem?_eq_some_iff.mp here).1,
        Option.some.injEq] at position
      exact finite ticket task position
    · rw [List.getElem?_set_ne (Ne.symm same)] at position
      exact counted.finite tested ticket task position

/-- Nothing but the threads and the counter matters. -/
theorem Counted.same {limit : Nat} (counted : Counted limit before)
    (sameThreads : after.threads = before.threads)
    (sameNormal : after.normalThreadsWorking = before.normalThreadsWorking) :
    Counted limit after := by
  obtain ⟨tally, free, marked, finite⟩ := counted
  unfold positions at tally free finite
  refine ⟨?_, ?_, ?_, ?_⟩
  · unfold positions
    rw [sameNormal, sameThreads, tally]
  · unfold positions
    rw [sameThreads]
    exact free
  · rw [sameThreads]
    exact marked
  · unfold positions
    rw [sameThreads]
    exact finite

/-- A thread is added when all are infinite, that is, engaged: the new one is then the
only one that is not. -/
theorem Counted.addThread {limit : Nat} (counted : Counted limit before) (positive : 1 ≤ limit)
    (crowded : before.isAllThreadsInfinite = true) (moves : Bool) :
    Counted limit (before.addThread moves) := by
  have infinite : ∀ thread ∈ before.threads, thread.state = .infinite := by
    intro thread member
    have all := List.countP_eq_length.mp (of_decide_eq_true crowded) thread member
    exact of_decide_eq_true all
  have noneFree : before.positions.countP (fun position => !position.engaged) = 0 := by
    rw [List.countP_eq_zero]
    intro position member
    obtain ⟨thread, present, rfl⟩ := List.mem_map.mp member
    obtain ⟨worker, read⟩ := List.mem_iff_getElem?.mp present
    simp [counted.marked worker thread read (infinite thread present)]
  obtain ⟨olds, threads, states, places⟩ := addThread_threads before moves
  have positions' : (before.addThread moves).positions = before.positions ++ [.starting] := by
    rw [positions, threads, List.map_append, places]
    rfl
  have sameNormal : (before.addThread moves).normalThreadsWorking =
      before.normalThreadsWorking := by
    unfold VThreadPool.addThread
    split
    · rfl
    · rfl
  refine ⟨?_, ?_, ?_, ?_⟩
  · rw [positions', sameNormal, List.countP_append, counted.tally]
    rfl
  · rw [positions', List.countP_append, noneFree]
    exact positive
  · intro worker thread read state
    rw [threads, List.getElem?_append] at read
    split at read
    · have oldState := congrArg (fun list => list[worker]?) states
      have oldPlace := congrArg (fun list => list[worker]?) places
      simp only [positions, List.getElem?_map, read, Option.map_some] at oldState oldPlace
      obtain ⟨earlier, there, sameState⟩ := Option.map_eq_some_iff.mp oldState.symm
      rw [there, Option.map_some, Option.some.injEq] at oldPlace
      rw [oldPlace]
      exact counted.marked worker earlier there (sameState.trans state)
    · have member := List.mem_of_getElem? read
      rw [List.mem_singleton.mp member] at state
      cases state
  · intro worker ticket task position
    rw [positions', List.getElem?_append] at position
    split at position
    · exact counted.finite worker ticket task position
    · have member := List.mem_of_getElem? position
      cases List.mem_singleton.mp member

/-- A caller that comes to the end of its enqueue keeps the counter right. -/
theorem Counted.enqueuing {limit caller : Nat} {task : VTask} {grown : VThreadPool}
    (counted : Counted limit before) (positive : 1 ≤ limit)
    (source : Enqueuing before action caller task grown) : Counted limit grown := by
  rcases source.growth with rfl | ⟨crowded, moves, rfl⟩
  · exact counted
  · exact counted.addThread positive crowded moves

/-- A worker that is not engaged has no infinite mark. -/
theorem Counted.unmarked {limit worker : Nat} {thread : Thread} (counted : Counted limit before)
    (read : before.threads[worker]? = some thread) (free : thread.position.engaged = false) :
    thread.state ≠ .infinite := by
  intro infinite
  rw [counted.marked worker thread read infinite] at free
  cases free

/-- Writing another state sets no infinite mark. -/
theorem setState_unmarked {thread : Thread} {state : ThreadState} (old : thread.state ≠ .infinite)
    (new : state ≠ .infinite) : (thread.setState state).state ≠ .infinite := by
  unfold Thread.setState
  split
  · exact old
  · exact new

/-- A worker that is not engaged moves on, without an infinite mark. -/
theorem Counted.moveFree {limit worker : Nat} {old new : Thread} (counted : Counted limit before)
    (read : before.threads[worker]? = some old)
    (threads : after.threads = before.threads.set worker new)
    (free : old.position.engaged = false)
    (unmarked : old.state ≠ .infinite → new.state ≠ .infinite)
    (share : after.normalThreadsWorking.toNat + (if old.position.normal then 1 else 0) =
      before.normalThreadsWorking.toNat + (if new.position.normal then 1 else 0))
    (finite : ∀ ticket task, new.position = .working .returned ticket task → task.attr = .default) :
    Counted limit after := by
  refine counted.move read threads share (by rw [free]; simp) ?_ finite
  intro infinite
  exact absurd infinite (unmarked (counted.unmarked read free))

/-- A worker that looks for a task is neither engaged nor counted. -/
theorem seeking_free {position : Position}
    (seeking : position = .fetching ∨ position = .waiting) :
    position.engaged = false ∧ position.normal = false := by
  rcases seeking with fetching | waiting
  · rw [fetching]
    exact ⟨rfl, rfl⟩
  · rw [waiting]
    exact ⟨rfl, rfl⟩

/-- The counter cannot wrap: with one worker more there are at most `limit` counted. -/
theorem Counted.room {limit worker : Nat} {old new : Position} (counted : Counted limit before)
    (here : before.positions[worker]? = some old) (free : old.engaged = false)
    (uncounted : old.normal = false) (normal : new.normal = true)
    (unengaged : new.engaged = false) : before.normalThreadsWorking.toNat + 1 ≤ limit := by
  have moving := countP_set_share new Position.normal here
  have freeMoving := countP_set_share new (fun position => !position.engaged) here
  have others := normal_le_free (before.positions.set worker new)
  simp only [uncounted, normal, free, unengaged, Bool.not_false, Bool.false_eq_true, ↓reduceIte]
    at moving freeMoving
  have tally := counted.tally
  have bound := counted.free
  omega

/-- Under the condition every step keeps the counter right, as long as the limit is
within the counter's range. -/
theorem Effect.counted {limit : Nat} (effect : Effect before action after)
    (attentive : Attentive before action) (positive : 1 ≤ limit) (within : limit < 2 ^ 32)
    (counted : Counted limit before) : Counted limit after := by
  cases effect with
  | started worker thread read position =>
    have free : thread.position.engaged = false := by rw [position]; rfl
    exact counted.moveFree read rfl free id (by rw [position]; rfl) (by simp)
  | idled worker thread read position _ =>
    obtain ⟨free, uncounted⟩ := seeking_free position
    refine counted.moveFree read rfl free ?_ (by rw [uncounted]; rfl) (by simp)
    exact fun old => setState_unmarked old (by decide)
  | took worker thread task taskList read position _ _ =>
    obtain ⟨free, uncounted⟩ := seeking_free position
    exact counted.moveFree read rfl free id (by rw [uncounted]; rfl) (by simp)
  | dropped worker thread ticket task read position _ =>
    have free : thread.position.engaged = false := by rw [position]; rfl
    exact counted.moveFree read rfl free id (by rw [position]; rfl) (by simp)
  | announced worker thread ticket task state read position _ kind =>
    have free : thread.position.engaged = false := by rw [position]; rfl
    refine counted.move read rfl (by rw [position]; rfl) (by rw [free]; simp) ?_ (by simp)
    intro infinite
    by_cases endless : task.attr = .infinity
    · simp [Position.engaged, Stage.engages, endless]
    · rw [if_neg endless] at kind
      have old := counted.unmarked read free
      exact absurd infinite (setState_unmarked old (by rw [kind]; decide))
  | countedInfinite worker thread ticket task read position kind =>
    have engaged : (Position.working .counted ticket task).engaged = true := by
      simp [Position.engaged, Stage.engages, kind]
    refine counted.move read rfl ?_ (fun _ => engaged) (fun _ => engaged) (by simp)
    rw [position]
    simp [Position.normal, kind]
  | countedNormal worker thread ticket task read position kind =>
    have free : thread.position.engaged = false := by
      rw [position]
      simp [Position.engaged, kind]
    have new : (Position.working .counted ticket task).normal = true := by
      simp [Position.normal, Stage.counts, kind]
    have room := counted.room (positions_read read) free (by rw [position]; rfl) new
      (by simp [Position.engaged, kind])
    refine counted.moveFree read rfl free id ?_ (by simp)
    rw [position, new]
    simp only [UInt32.toNat_add, UInt32.toNat_one]
    rw [Nat.mod_eq_of_lt (by omega)]
    rfl
  | invoked worker thread ticket procedure task read position _ =>
    have engaged : thread.position.engaged =
        (Position.working .running ticket task).engaged := by rw [position]; rfl
    have normal : thread.position.normal = (Position.working .running ticket task).normal := by
      rw [position]
      rfl
    refine counted.move read rfl (by rw [normal]) (by rw [engaged]; exact id) ?_ (by simp)
    intro infinite
    rw [← engaged]
    exact counted.marked worker thread read infinite
  | completed worker thread ticket task read position =>
    have here := positions_at read position
    have finite : task.attr = .default := by
      have returns := attentive.1 worker ticket task rfl here
      cases kind : task.attr with
      | default => rfl
      | infinity => exact absurd kind returns
    have free : thread.position.engaged = false := by
      rw [position]
      simp [Position.engaged, finite]
    have normal : thread.position.normal = (Position.working .returned ticket task).normal := by
      rw [position]
      rfl
    refine counted.moveFree read rfl free id (by rw [normal]) ?_
    intro other found same
    obtain ⟨_, _, rfl⟩ := Position.working.inj same
    exact finite
  | left worker thread ticket task read position =>
    have here := positions_at read position
    have finite := counted.finite worker ticket task here
    have free : thread.position.engaged = false := by rw [position]; rfl
    have normal : thread.position.normal = true := by
      rw [position]
      simp [Position.normal, Stage.counts, finite]
    have some' : 0 < before.normalThreadsWorking.toNat := by
      rw [counted.tally, List.countP_pos_iff]
      exact ⟨thread.position, List.mem_map_of_mem (List.mem_of_getElem? read), normal⟩
    refine counted.moveFree read rfl free ?_ ?_ (by simp)
    · exact fun old => setState_unmarked old (by decide)
    · have small := before.normalThreadsWorking.toNat_lt
      rw [normal]
      simp only [UInt32.toNat_sub, UInt32.toNat_one, Position.normal, Bool.false_eq_true,
        ↓reduceIte]
      omega
  | finished worker thread read position =>
    have free : thread.position.engaged = false := by rw [position]; rfl
    exact counted.moveFree read rfl free id (by rw [position]; rfl) (by simp)
  | blocked _ grown caller task source _ => exact (counted.enqueuing positive source).same rfl rfl
  | stored _ grown caller task taskList source _ _ =>
    exact (counted.enqueuing positive source).same rfl rfl
  | _ => exact counted.same rfl rfl

/-! ## The tasks that a wait has to wait for -/

/-- A dequeued task with a procedure has been completed, or its worker has not come
back from it yet. -/
def Accounted (pool : VThreadPool) : Prop :=
  InHands pool pool.history.completed (fun stage => stage ≠ .returned)

theorem Effect.accounted (effect : Effect before action after) (accounted : Accounted before) :
    Accounted after := by
  cases effect with
  | started worker thread read position =>
    refine accounted.move (positions_read read) (positions_set _ _ _) rfl (fun _ => id) ?_
    rw [position]
    simp
  | idled worker thread read position _ =>
    refine accounted.move (positions_read read) (positions_set _ _ _) rfl (fun _ => id) ?_
    rcases position with fetching | waiting
    · simp [fetching]
    · simp [waiting]
  | took worker thread task taskList read position _ _ =>
    refine InHands.take accounted (by decide) (positions_read read) ?_ (positions_set _ _ _) rfl
    rcases position with fetching | waiting
    · simp [fetching]
    · simp [waiting]
  | dropped worker thread ticket task read position null =>
    refine accounted.move (positions_read read) (positions_set _ _ _) rfl (fun _ => id) ?_
    intro stage other found working _
    obtain ⟨_, _, rfl⟩ := Position.working.inj (position.symm.trans working)
    exact Or.inl null
  | announced worker thread ticket task state read position _ _ =>
    exact InHands.advance accounted (positions_at read position) (positions_set _ _ _) rfl
      (fun _ => by decide)
  | countedInfinite worker thread ticket task read position _ =>
    exact InHands.advance accounted (positions_at read position) (positions_set _ _ _) rfl
      (fun _ => by decide)
  | countedNormal worker thread ticket task read position _ =>
    exact InHands.advance accounted (positions_at read position) (positions_set _ _ _) rfl
      (fun _ => by decide)
  | invoked worker thread ticket procedure task read position _ =>
    exact InHands.advance accounted (positions_at read position) (positions_set _ _ _) rfl
      (fun _ => by decide)
  | completed worker thread ticket task read position =>
    refine accounted.move (positions_read read) (positions_set _ _ _) rfl
      (fun _ known => List.mem_append_left _ known) ?_
    intro stage other found working _
    obtain ⟨_, rfl, rfl⟩ := Position.working.inj (position.symm.trans working)
    exact Or.inr (Or.inl (List.mem_append_right _ List.mem_cons_self))
  | left worker thread ticket task read position =>
    refine accounted.move (positions_read read) (positions_set _ _ _) rfl (fun _ => id) ?_
    intro stage other found working unreturned
    obtain ⟨rfl, _, _⟩ := Position.working.inj (position.symm.trans working)
    exact absurd rfl unreturned
  | finished worker thread read position =>
    refine accounted.move (positions_read read) (positions_set _ _ _) rfl (fun _ => id) ?_
    rw [position]
    simp
  | blocked _ grown caller task source _ =>
    obtain ⟨added, appended, _⟩ := grown_positions source.growth
    exact InHands.grow accounted appended rfl
  | stored _ grown caller task taskList source _ _ =>
    obtain ⟨added, appended, _⟩ := grown_positions source.growth
    exact InHands.grow accounted appended rfl
  | _ => exact accounted

/-- A wait has to wait for enqueued tasks with a procedure and `PROC_DEFAULT`. -/
def Owing (pool : VThreadPool) : Prop :=
  ∀ wait ∈ pool.waits, ∀ ticket ∈ wait.owed, ∃ task,
    pool.history.enqueued[ticket]? = some task ∧ task.procedure ≠ none ∧ task.attr = .default

theorem owed_enqueued {pool : VThreadPool} {ticket : Nat} (member : ticket ∈ pool.owed) :
    ∃ task, pool.history.enqueued[ticket]? = some task ∧ task.procedure ≠ none ∧
      task.attr = .default := by
  obtain ⟨call, _, due⟩ := List.mem_filterMap.mp member
  cases call with
  | returned given =>
    simp only [Option.ite_none_right_eq_some, Option.some.injEq] at due
    obtain ⟨due, rfl⟩ := due
    cases read : pool.history.enqueued[given]? with
    | none => simp [read] at due
    | some task =>
      simp only [read, Option.any_some, Bool.and_eq_true, decide_eq_true_eq] at due
      exact ⟨task, rfl, Option.isSome_iff_ne_none.mp due.1, due.2⟩
  | _ => cases due

/-- A wait that moves on keeps what it has to wait for. -/
theorem Owing.set {waiter : Nat} {wait : WaitCall} {state : WaitState} (owing : Owing before)
    (read : before.waits[waiter]? = some wait)
    (waits : after.waits = before.waits.set waiter { wait with state := state })
    (sameEnqueued : after.history.enqueued = before.history.enqueued) : Owing after := by
  intro other member ticket due
  rw [waits] at member
  rw [sameEnqueued]
  rcases List.mem_or_eq_of_mem_set member with known | rfl
  · exact owing other known ticket due
  · exact owing wait (List.mem_of_getElem? read) ticket due

theorem Effect.owing (effect : Effect before action after) (owing : Owing before) :
    Owing after := by
  cases effect with
  | stored _ grown caller task taskList source _ _ =>
    intro wait member ticket due
    simp only [source.onlyThreads.waits] at member
    obtain ⟨found, read, kind⟩ := owing wait member ticket due
    refine ⟨found, ?_, kind⟩
    rw [List.getElem?_append_left (List.getElem?_eq_some_iff.mp read).1, read]
  | blocked _ grown caller task source _ =>
    intro wait member
    simp only [source.onlyThreads.waits] at member
    exact owing wait member
  | waitEntered =>
    intro wait member ticket due
    simp only [List.mem_append, List.mem_singleton] at member
    rcases member with known | rfl
    · exact owing wait known ticket due
    · exact owed_enqueued due
  | keptWaiting waiter wait read _ _ => exact owing.set read rfl rfl
  | waitReturned waiter wait read _ _ => exact owing.set read rfl rfl
  | _ => exact owing

/-- Everything enqueued has been dequeued once the list is empty. -/
def Drained (pool : VThreadPool) : Prop :=
  pool.taskList.count = 0 → pool.history.enqueued = pool.history.dequeued.map Prod.snd

theorem Queued.drained {capacity : Nat} {pool : VThreadPool} (queued : Queued capacity pool) :
    Drained pool := by
  obtain ⟨_, ⟨unread, _, length, order⟩, _⟩ := queued
  intro empty
  rw [empty, List.length_eq_zero_iff] at length
  rw [order, length, List.append_nil]

/-- A pool without threads has no room for a task. -/
theorem Effect.barren (effect : Effect before action after)
    (barren : before.taskList = VTaskList.init 0 ∧ before.history.enqueued = [] ∧
      before.history.dequeued = []) :
    after.taskList = VTaskList.init 0 ∧ after.history.enqueued = [] ∧
      after.history.dequeued = [] := by
  cases effect with
  | took _ _ _ _ _ _ available _ =>
    rw [barren.1] at available
    exact absurd rfl available
  | stored _ _ _ _ _ _ room _ =>
    rw [barren.1] at room
    exact absurd rfl room
  | _ => exact barren

theorem run_drained {numThreads : Nat} {admitted : VThreadPool → Action → Prop}
    {trace : List Action} {pool : VThreadPool}
    (run : Runs.Run step admitted (init numThreads) trace pool) : Drained pool := by
  cases numThreads with
  | zero =>
    have barren : pool.taskList = VTaskList.init 0 ∧ pool.history.enqueued = [] ∧
        pool.history.dequeued = [] := by
      refine run.invariant (fun reached => reached.taskList = VTaskList.init 0 ∧
        reached.history.enqueued = [] ∧ reached.history.dequeued = []) ⟨rfl, rfl, rfl⟩ ?_
      exact fun before action after barren _ taken => (step_effect taken).barren barren
    intro _
    rw [barren.2.1, barren.2.2]
    rfl
  | succ numThreads =>
    have queued : Queued (numThreads + 1) pool := by
      refine run.invariant (Queued (numThreads + 1)) (init_queued (Nat.succ_pos _)) ?_
      exact fun before action after queued _ taken => (step_effect taken).queued queued
    exact queued.drained

/-! ## The guarantee -/

/-- A wait that passes its test, with nobody in the window, has seen all of its tasks
completed. -/
theorem Attentive.settled {limit waiter : Nat} {wait : WaitCall}
    (attentive : Attentive before (.test waiter)) (counted : Counted limit before)
    (accounted : Accounted before) (owing : Owing before) (drained : Drained before)
    (read : before.waits[waiter]? = some wait)
    (quiet : before.normalThreadsWorking = 0 ∧ before.taskList.count = 0) :
    ∀ ticket ∈ wait.owed, ticket ∈ before.history.completed := by
  intro ticket due
  obtain ⟨task, enqueued, callable, default⟩ :=
    owing wait (List.mem_of_getElem? read) ticket due
  rw [drained quiet.2, List.getElem?_map] at enqueued
  obtain ⟨⟨worker, found⟩, dequeued, same⟩ := Option.map_eq_some_iff.mp enqueued
  obtain rfl : found = task := same
  rcases accounted ticket worker found dequeued callable with finished | ⟨stage, working, position⟩
  · exact finished
  · -- The worker is counted, or it is in the window.
    have idle : before.positions.countP Position.normal = 0 := by
      rw [← counted.tally, quiet.1]
      rfl
    have notNormal := List.countP_eq_zero.mp idle _ (List.mem_of_getElem? position)
    have window := attentive.2 waiter wait rfl read quiet ticket due worker found
    cases stage with
    | held => exact absurd position window.1
    | announced => exact absurd position window.2
    | counted => simp [Position.normal, Stage.counts, default] at notNormal
    | running => simp [Position.normal, Stage.counts, default] at notNormal
    | returned => exact absurd rfl working

/-- A wait that does not return now keeps what the others have seen. -/
theorem Waited.step {limit : Nat} (waited : Waited before) (effect : Effect before action after)
    (attentive : Attentive before action) (counted : Counted limit before)
    (accounted : Accounted before) (owing : Owing before) (drained : Drained before) :
    Waited after := by
  cases effect with
  | completed worker thread ticket task _ _ =>
    intro wait member returned other due
    exact List.mem_append_left _ (waited wait member returned other due)
  | stored _ grown caller task taskList source _ _ =>
    intro wait member
    simp only [source.onlyThreads.waits] at member
    exact waited wait member
  | blocked _ grown caller task source _ =>
    intro wait member
    simp only [source.onlyThreads.waits] at member
    exact waited wait member
  | waitEntered =>
    intro wait member returned
    simp only [List.mem_append, List.mem_singleton] at member
    rcases member with known | rfl
    · exact waited wait known returned
    · cases returned
  | keptWaiting waiter wait read _ _ =>
    intro other member returned
    rcases List.mem_or_eq_of_mem_set member with known | rfl
    · exact waited other known returned
    · cases returned
  | waitReturned waiter wait read _ quiet =>
    intro other member returned ticket due
    rcases List.mem_or_eq_of_mem_set member with known | rfl
    · exact waited other known returned ticket due
    · exact attentive.settled counted accounted owing drained read quiet ticket due
  | _ => exact waited

/-- In every run of any pool under the condition, whatever its callers and workers do
and in whatever order, a wait that has returned has seen every task completed that
was added for it. -/
theorem waits_see_tasks_completed {numThreads : UInt32} {trace : List Action}
    {pool : VThreadPool} (run : Runs.Run step Attentive (init numThreads.toNat) trace pool) :
    Waited pool := by
  have limit : 1 ≤ max numThreads.toNat 1 ∧ max numThreads.toNat 1 < 2 ^ 32 := by
    have range := numThreads.toNat_lt
    omega
  have kept : Counted (max numThreads.toNat 1) pool ∧ Accounted pool ∧ Owing pool ∧
      Waited pool := by
    refine run.induct (fun _ reached => Counted (max numThreads.toNat 1) reached ∧
      Accounted reached ∧ Owing reached ∧ Waited reached) ?_ ?_
    · exact ⟨init_counted (Nat.le_max_left _ _), init_inHands _ _ _, by simp [Owing, init],
        by simp [Waited, init]⟩
    · rintro _ before action after earlier ⟨counted, accounted, owing, waited⟩ attentive taken
      have effect := step_effect taken
      exact ⟨effect.counted attentive limit.1 limit.2 counted, effect.accounted accounted,
        effect.owing owing,
        waited.step effect attentive counted accounted owing (run_drained earlier)⟩
  exact kept.2.2.2

/-- A task added to a pool with one thread, a wait for it, and the worker up to the
call. -/
def untilCall : List Action :=
  [.addTask (some 7) 5 .default, .lock 0 false, .signal 0, .enterWait, .start 0, .take 0,
    .look 0, .count 0, .invoke 0]

/-- The wait that tests after the worker has left the task returns, and the task has
been completed. -/
theorem waits_see_tasks_completed_once :
    ∃ pool, Runs.Run step Attentive (init 1) (untilCall ++ [.complete 0] ++ [.leave 0] ++ [.test 0])
        pool ∧ pool.waits = [⟨[0], .returned⟩] ∧ 0 ∈ pool.history.completed := by
  have executed : ∃ called completed left pool, untilCall.foldlM step (init 1) = some called ∧
      step called (.complete 0) = some completed ∧ step completed (.leave 0) = some left ∧
      step left (.test 0) = some pool ∧
      called.positions = [.working .running 0 ⟨some 7, 5, .default⟩] ∧
      left.positions = [.finishing] ∧ pool.waits = [⟨[0], .returned⟩] :=
    ⟨_, _, _, _, rfl, rfl, rfl, rfl, rfl, rfl, rfl⟩
  obtain ⟨called, completed, left, pool, reached, completes, leaves, tests, atCall, atLeave,
    waits⟩ := executed
  have begun : Runs.Run step Attentive (init 1) untilCall called := by
    refine Runs.Run.of_admitted ?_ reached
    intro action member state
    refine ⟨?_, ?_⟩
    · rintro worker ticket task rfl
      simp [untilCall] at member
    · rintro waiter wait rfl
      simp [untilCall] at member
  have returns : Attentive called (.complete 0) := by
    refine ⟨?_, by simp⟩
    intro worker ticket task same position
    obtain rfl : 0 = worker := by simpa using same
    rw [atCall] at position
    obtain ⟨_, _, rfl⟩ := Position.working.inj (Option.some.inj position)
    decide
  have quiet : Attentive left (.test 0) := by
    refine ⟨by simp, ?_⟩
    intro waiter wait _ _ _ ticket _ worker task
    rw [atLeave]
    cases worker <;> simp
  have run := ((begun.next returns completes).next (by simp [Attentive]) leaves).next quiet tests
  refine ⟨pool, run, waits, ?_⟩
  have waited : Waited pool := @waits_see_tasks_completed 1 _ _ run
  exact waited ⟨[0], .returned⟩ (by rw [waits]; exact List.mem_cons_self) rfl 0 List.mem_cons_self

/-- A wait that tests between a worker's dequeue and its count. -/
def throughWindow : List Action :=
  [.addTask (some 7) 5 .default, .lock 0 false, .signal 0, .start 0, .take 0, .enterWait, .test 0]

/-- That wait returns while the task it waits for has not been called. -/
theorem wait_returns_in_window :
    ¬ ∀ (numThreads : UInt32) (trace : List Action) (pool : VThreadPool),
      Runs.Run step Runs.anywhere (init numThreads.toNat) trace pool → Waited pool := by
  intro claimed
  have executed : ∃ pool, throughWindow.foldlM step (init 1) = some pool ∧
      pool.waits = [⟨[0], .returned⟩] ∧ pool.history.completed = [] := ⟨_, rfl, rfl, rfl⟩
  obtain ⟨pool, reached, waits, nothing⟩ := executed
  have completed := claimed 1 throughWindow pool (Runs.Run.of_foldlM reached) ⟨[0], .returned⟩
    (by rw [waits]; exact List.mem_cons_self) rfl 0 List.mem_cons_self
  rw [nothing] at completed
  cases completed

end VThreadPool

end VHttp.ThreadPool
