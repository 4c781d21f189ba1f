import VHttp.PoolWait

/-!
# The two counters of working threads

A worker counts itself for its task in one section, under the task's attribute, and in another
takes itself off the normal workers again, whatever the attribute was. As long as no procedure
marked `PROC_INFINITY` returns, only workers that were counted as normal come to the second
section, and both counters are the numbers of workers that stand between.

The counters are 32 bits wide, and the pool adds threads without a limit of its own. The system
has one: beyond it pthread_create fails, and the thread is in the list but does not start.
-/

namespace VHttp.ThreadPool

open Runs

/-- Counted for a `PROC_INFINITY` task. -/
def Position.infinite : Position → Bool
  | .working stage _ task => stage.counts && decide (task.attr = .infinity)
  | _ => false

/-- The thread of the worker runs. -/
def Position.started : Position → Bool
  | .starting => false
  | _ => true

namespace VThreadPool

variable {before after : VThreadPool} {action : Action}

/-- The system lets so many threads run at most, and no procedure marked `PROC_INFINITY`
returns. -/
def WithinSystem (threadsMax : Nat) (pool : VThreadPool) : Action → Prop
  | .start _ => pool.positions.countP Position.started < threadsMax
  | .complete worker => ∀ ticket task,
      pool.positions[worker]? = some (.working .running ticket task) → task.attr ≠ .infinity
  | _ => True

/-- Both counters are the numbers of workers that have counted themselves and not taken themselves
off, these are not more than there are threads, and a worker that takes itself off finds one. -/
structure CountersRight (pool : VThreadPool) : Prop where
  normal : pool.normalThreadsWorking.toNat = pool.positions.countP Position.normal
  infinite : pool.infiniteThreadsWorking.toNat = pool.positions.countP Position.infinite
  sum : pool.normalThreadsWorking.toNat + pool.infiniteThreadsWorking.toNat ≤ pool.threads.length
  leaves : ∀ worker after, step pool (.leave worker) = some after → pool.normalThreadsWorking ≠ 0

/-- What steps preserve: the counters, the limit of the system, and that a worker that is back
from a procedure was counted as normal. -/
structure Tallied (threadsMax : Nat) (pool : VThreadPool) : Prop where
  normal : pool.normalThreadsWorking.toNat = pool.positions.countP Position.normal
  infinite : pool.infiniteThreadsWorking.toNat = pool.positions.countP Position.infinite
  running : pool.positions.countP Position.started ≤ threadsMax
  finite : ∀ (worker ticket : Nat) (task : VTask),
    pool.positions[worker]? = some (.working .returned ticket task) → task.attr = .default

/-- Whoever is counted runs. -/
theorem counted_le_started (list : List Position) :
    list.countP Position.normal ≤ list.countP Position.started ∧
      list.countP Position.infinite ≤ list.countP Position.started := by
  constructor
  · refine List.countP_mono_left fun position _ normal => ?_
    cases position with
    | starting => cases normal
    | _ => rfl
  · refine List.countP_mono_left fun position _ infinite => ?_
    cases position with
    | starting => cases infinite
    | _ => rfl

/-- Nobody is counted twice. -/
theorem counted_le_length (list : List Position) :
    list.countP Position.normal + list.countP Position.infinite ≤ list.length := by
  induction list with
  | nil => exact Nat.le_refl _
  | cons position rest inductionHypothesis =>
    have one : ¬ (position.normal = true ∧ position.infinite = true) := by
      cases position with
      | working stage ticket task => cases kind : task.attr <;> simp [Position.normal,
          Position.infinite, kind]
      | _ => simp [Position.normal]
    simp only [List.countP_cons, List.length_cons]
    split
    · split
      · exact absurd ⟨‹_›, ‹_›⟩ one
      · omega
    · split
      · omega
      · omega

theorem init_tallied (numThreads threadsMax : Nat) : Tallied threadsMax (init numThreads) := by
  refine ⟨?_, ?_, ?_, ?_⟩
  · simp [init, positions, Thread.init, Position.normal, List.countP_replicate]
  · simp [init, positions, Thread.init, Position.infinite, List.countP_replicate]
  · simp [init, positions, Thread.init, Position.started, List.countP_replicate]
  · intro worker ticket task position
    simp only [init, positions, List.map_replicate, List.getElem?_replicate] at position
    split at position
    · simp [Thread.init] at position
    · cases position

/-- One worker moves on, and both counters move with its share. -/
theorem Tallied.move {threadsMax worker : Nat} {old new : Thread}
    (tallied : Tallied threadsMax before) (read : before.threads[worker]? = some old)
    (threads : after.threads = before.threads.set worker new)
    (normal : after.normalThreadsWorking.toNat + (if old.position.normal then 1 else 0) =
      before.normalThreadsWorking.toNat + (if new.position.normal then 1 else 0))
    (infinite : after.infiniteThreadsWorking.toNat + (if old.position.infinite then 1 else 0) =
      before.infiniteThreadsWorking.toNat + (if new.position.infinite then 1 else 0))
    (room : old.position.started = true ∨ before.positions.countP Position.started < threadsMax)
    (finite : ∀ ticket task, new.position = .working .returned ticket task → task.attr = .default) :
    Tallied threadsMax after := by
  have here := positions_read read
  have moved : after.positions = before.positions.set worker new.position := by
    unfold positions
    rw [threads, List.map_set]
  have normalShare := countP_set_share new.position Position.normal here
  have infiniteShare := countP_set_share new.position Position.infinite here
  have startedShare := countP_set_share new.position Position.started here
  rw [← moved] at normalShare infiniteShare startedShare
  refine ⟨?_, ?_, ?_, ?_⟩
  · have tally := tallied.normal
    omega
  · have tally := tallied.infinite
    omega
  · have running := tallied.running
    rcases room with already | room
    · rw [already] at startedShare
      simp only [↓reduceIte] at startedShare
      split at startedShare
      all_goals omega
    · split at startedShare
      all_goals split at startedShare
      all_goals omega
  · intro tested ticket task position
    rw [moved] at position
    by_cases same : tested = worker
    · subst same
      rw [List.getElem?_set_self (List.getElem?_eq_some_iff.mp here).1,
        Option.some.injEq] at position
      exact finite ticket task position
    · rw [List.getElem?_set_ne (Ne.symm same)] at position
      exact tallied.finite tested ticket task position

/-- One worker moves on, and its place is counted as before. -/
theorem Tallied.keep {threadsMax worker : Nat} {old new : Thread}
    (tallied : Tallied threadsMax before) (read : before.threads[worker]? = some old)
    (threads : after.threads = before.threads.set worker new)
    (sameNormal : after.normalThreadsWorking = before.normalThreadsWorking)
    (sameInfinite : after.infiniteThreadsWorking = before.infiniteThreadsWorking)
    (normal : old.position.normal = new.position.normal)
    (infinite : old.position.infinite = new.position.infinite)
    (room : old.position.started = true ∨ before.positions.countP Position.started < threadsMax)
    (finite : ∀ ticket task, new.position = .working .returned ticket task → task.attr = .default) :
    Tallied threadsMax after :=
  tallied.move read threads (by rw [sameNormal, normal]) (by rw [sameInfinite, infinite]) room
    finite

/-- So does one that runs, from a place that is known. -/
theorem Tallied.stay {threadsMax worker : Nat} {old new : Thread} {here : Position}
    (tallied : Tallied threadsMax before) (read : before.threads[worker]? = some old)
    (position : old.position = here) (threads : after.threads = before.threads.set worker new)
    (sameNormal : after.normalThreadsWorking = before.normalThreadsWorking)
    (sameInfinite : after.infiniteThreadsWorking = before.infiniteThreadsWorking)
    (normal : here.normal = new.position.normal) (infinite : here.infinite = new.position.infinite)
    (runs : here.started = true)
    (finite : ∀ ticket task, new.position = .working .returned ticket task → task.attr = .default) :
    Tallied threadsMax after := by
  subst position
  exact tallied.keep read threads sameNormal sameInfinite normal infinite (Or.inl runs) finite

/-- Threads that are added do not run yet. -/
theorem Tallied.grow {threadsMax : Nat} (tallied : Tallied threadsMax before)
    (sameNormal : after.normalThreadsWorking = before.normalThreadsWorking)
    (sameInfinite : after.infiniteThreadsWorking = before.infiniteThreadsWorking)
    {added : List Position} (grown : after.positions = before.positions ++ added)
    (starting : ∀ position ∈ added, position = .starting) : Tallied threadsMax after := by
  have uncounted : added.countP Position.normal = 0 ∧ added.countP Position.infinite = 0 ∧
      added.countP Position.started = 0 := by
    refine ⟨List.countP_eq_zero.mpr ?_, List.countP_eq_zero.mpr ?_, List.countP_eq_zero.mpr ?_⟩
    all_goals
      intro position member
      rw [starting position member]
      decide
  obtain ⟨noNormal, noInfinite, noStarted⟩ := uncounted
  refine ⟨?_, ?_, ?_, ?_⟩
  · rw [sameNormal, grown, List.countP_append, noNormal, Nat.add_zero]
    exact tallied.normal
  · rw [sameInfinite, grown, List.countP_append, noInfinite, Nat.add_zero]
    exact tallied.infinite
  · rw [grown, List.countP_append, noStarted, Nat.add_zero]
    exact tallied.running
  · intro worker ticket task position
    rw [grown, List.getElem?_append] at position
    split at position
    · exact tallied.finite worker ticket task position
    · cases starting _ (List.mem_of_getElem? position)

/-- A caller that comes to the end of its enqueue counts nobody. -/
theorem Tallied.enqueuing {threadsMax caller : Nat} {task : VTask} {grown : VThreadPool}
    (tallied : Tallied threadsMax before) (source : Enqueuing before action caller task grown) :
    Tallied threadsMax grown := by
  obtain ⟨added, appended, starting⟩ := grown_positions source.growth
  have sameInfinite : grown.infiniteThreadsWorking = before.infiniteThreadsWorking := by
    rcases source.growth with rfl | ⟨_, moves, rfl⟩
    · rfl
    · unfold addThread
      split
      · rfl
      · rfl
  exact tallied.grow source.onlyThreads.normalThreadsWorking sameInfinite appended starting

/-- Nothing but the threads and the counters matters. -/
theorem Tallied.same {threadsMax : Nat} (tallied : Tallied threadsMax before)
    (sameThreads : after.threads = before.threads)
    (sameNormal : after.normalThreadsWorking = before.normalThreadsWorking)
    (sameInfinite : after.infiniteThreadsWorking = before.infiniteThreadsWorking) :
    Tallied threadsMax after := by
  refine tallied.grow sameNormal sameInfinite (?_ : _ = before.positions ++ []) (by simp)
  rw [List.append_nil, positions, sameThreads, positions]

/-- A worker that is counted was counted as running already, and leaves room in the counter. -/
theorem Tallied.room {threadsMax worker : Nat} {old new : Position} {counts : Position → Bool}
    (tallied : Tallied threadsMax before) (few : threadsMax < 2 ^ 32)
    (below : ∀ list : List Position, list.countP counts ≤ list.countP Position.started)
    (here : before.positions[worker]? = some old) (running : old.started = true)
    (uncounted : counts old = false) (counted : counts new = true) :
    before.positions.countP counts + 1 < 2 ^ 32 := by
  have share := countP_set_share new counts here
  have startedShare := countP_set_share new Position.started here
  have bound := below (before.positions.set worker new)
  have limit := tallied.running
  simp only [uncounted, counted, running, Bool.false_eq_true, ↓reduceIte] at share startedShare
  split at startedShare
  all_goals omega

/-- A worker that takes itself off finds itself counted. -/
theorem Tallied.positive {threadsMax worker ticket : Nat} {task : VTask}
    (tallied : Tallied threadsMax before)
    (here : before.positions[worker]? = some (.working .returned ticket task)) :
    0 < before.normalThreadsWorking.toNat := by
  have finite := tallied.finite worker ticket task here
  rw [tallied.normal, List.countP_pos_iff]
  exact ⟨_, List.mem_of_getElem? here, by simp [Position.normal, Stage.counts, finite]⟩

/-- A worker that looks for a task runs and is not counted. -/
theorem seeking_uncounted {position : Position}
    (seeking : position = .fetching ∨ position = .waiting) :
    position.normal = false ∧ position.infinite = false ∧ position.started = true := by
  rcases seeking with fetching | waiting
  · rw [fetching]
    exact ⟨rfl, rfl, rfl⟩
  · rw [waiting]
    exact ⟨rfl, rfl, rfl⟩

/-- A counter that does not wrap. -/
theorem toNat_succ {counter : UInt32} (room : counter.toNat + 1 < 2 ^ 32) :
    (counter + 1).toNat = counter.toNat + 1 := by
  rw [UInt32.toNat_add, UInt32.toNat_one, Nat.mod_eq_of_lt room]

theorem toNat_pred {counter : UInt32} (positive : 0 < counter.toNat) :
    (counter - 1).toNat + 1 = counter.toNat := by
  have small := counter.toNat_lt
  rw [UInt32.toNat_sub, UInt32.toNat_one]
  omega

/-- Within the system every step keeps the counters right. -/
theorem Effect.tallied {threadsMax : Nat} (effect : Effect before action after)
    (within : WithinSystem threadsMax before action) (few : threadsMax < 2 ^ 32)
    (tallied : Tallied threadsMax before) : Tallied threadsMax after := by
  cases effect with
  | started worker thread read position =>
    refine tallied.keep read rfl rfl rfl ?_ ?_ (Or.inr within) (by simp)
    · rw [position]
      rfl
    · rw [position]
      rfl
  | idled worker thread read position _ =>
    obtain ⟨normal, infinite, runs⟩ := seeking_uncounted position
    exact tallied.keep read rfl rfl rfl normal infinite (Or.inl runs) (by simp)
  | took worker thread task taskList read position _ _ =>
    obtain ⟨normal, infinite, runs⟩ := seeking_uncounted position
    exact tallied.keep read rfl rfl rfl normal infinite (Or.inl runs) (by simp)
  | dropped worker thread ticket task read position _ =>
    exact tallied.stay read position rfl rfl rfl rfl rfl rfl (by simp)
  | announced worker thread ticket task state read position _ _ =>
    exact tallied.stay read position rfl rfl rfl rfl rfl rfl (by simp)
  | countedInfinite worker thread ticket task read position kind =>
    have new : (Position.working .counted ticket task).infinite = true := by
      simp [Position.infinite, Stage.counts, kind]
    have old : thread.position.infinite = false := by rw [position]; rfl
    have runs : thread.position.started = true := by rw [position]; rfl
    have room := tallied.room few (fun list => (counted_le_started list).2) (positions_read read)
      runs old new
    rw [← tallied.infinite] at room
    refine tallied.move read rfl ?_ ?_ (Or.inl runs) (by simp)
    · rw [position]
      simp [Position.normal, kind]
    · rw [old, new, toNat_succ room]
      rfl
  | countedNormal worker thread ticket task read position kind =>
    have new : (Position.working .counted ticket task).normal = true := by
      simp [Position.normal, Stage.counts, kind]
    have old : thread.position.normal = false := by rw [position]; rfl
    have runs : thread.position.started = true := by rw [position]; rfl
    have room := tallied.room few (fun list => (counted_le_started list).1) (positions_read read)
      runs old new
    rw [← tallied.normal] at room
    refine tallied.move read rfl ?_ ?_ (Or.inl runs) (by simp)
    · rw [old, new, toNat_succ room]
      rfl
    · rw [position]
      simp [Position.infinite, kind]
  | invoked worker thread ticket procedure task read position _ =>
    exact tallied.stay read position rfl rfl rfl rfl rfl rfl (by simp)
  | completed worker thread ticket task read position =>
    have returns := within ticket task (positions_at read position)
    refine tallied.stay read position rfl rfl rfl rfl rfl rfl ?_
    intro other found same
    obtain ⟨_, _, rfl⟩ := Position.working.inj same
    cases kind : task.attr with
    | default => rfl
    | infinity => exact absurd kind returns
  | left worker thread ticket task read position =>
    have finite := tallied.finite worker ticket task (positions_at read position)
    have positive := tallied.positive (positions_at read position)
    refine tallied.move read rfl ?_ ?_ (Or.inl (by rw [position]; rfl)) (by simp)
    · have normal : thread.position.normal = true := by
        rw [position]
        simp [Position.normal, Stage.counts, finite]
      rw [normal]
      exact toNat_pred positive
    · rw [position]
      simp [Position.infinite, finite]
  | finished worker thread read position =>
    exact tallied.stay read position rfl rfl rfl rfl rfl rfl (by simp)
  | blocked _ grown caller task source _ => exact (tallied.enqueuing source).same rfl rfl rfl
  | stored _ grown caller task taskList source _ _ =>
    exact (tallied.enqueuing source).same rfl rfl rfl
  | _ => exact tallied.same rfl rfl rfl

/-- A worker that takes itself off is back from a procedure. -/
theorem leave_returned {worker : Nat} (left : step before (.leave worker) = some after) :
    ∃ ticket task, before.positions[worker]? = some (.working .returned ticket task) := by
  cases step_effect left with
  | left worker thread ticket task read position => exact ⟨ticket, task, positions_at read position⟩
  | blocked action grown caller task source full => cases source
  | stored action grown caller task taskList source room enqueued => cases source

theorem Tallied.right {threadsMax : Nat} {pool : VThreadPool} (tallied : Tallied threadsMax pool) :
    CountersRight pool := by
  refine ⟨tallied.normal, tallied.infinite, ?_, ?_⟩
  · have both := counted_le_length pool.positions
    rw [tallied.normal, tallied.infinite]
    exact both.trans (Nat.le_of_eq (List.length_map _))
  · intro worker after left none
    obtain ⟨ticket, task, here⟩ := leave_returned left
    have positive := tallied.positive here
    rw [none] at positive
    exact absurd positive (Nat.lt_irrefl 0)

/-- In every state of every run of any pool, as long as no procedure marked `PROC_INFINITY` returns
and the system lets fewer than 2^32 threads run, both counters are right. -/
theorem counters_stay_right {threadsMax : Nat} (few : threadsMax < 2 ^ 32) {numThreads : UInt32}
    {trace : List Action} {pool : VThreadPool}
    (run : Run step (WithinSystem threadsMax) (init numThreads.toNat) trace pool) :
    CountersRight pool := by
  have tallied : Tallied threadsMax pool :=
    run.invariant (Tallied threadsMax) (init_tallied _ _)
      (fun _ _ _ held within taken => (step_effect taken).tallied within few held)
  exact tallied.right

/-- One thread is counted for a task. -/
theorem counters_stay_right_once : ∃ pool : VThreadPool,
    ([.start 0, .addTask (some 7) 5 .default, .lock 0 false, .signal 0, .take 0, .look 0,
      .count 0] : List Action).foldlM step (init 1) = some pool ∧
    pool.normalThreadsWorking = 1 ∧ CountersRight pool := by
  have first : (init 1).positions.countP Position.started < 1 := by decide
  have run : Run step (WithinSystem 1) (init (1 : UInt32).toNat)
      ([] ++ [.start 0] ++ [.addTask (some 7) 5 .default] ++ [.lock 0 false] ++ [.signal 0] ++
        [.take 0] ++ [.look 0] ++ [.count 0]) _ :=
    Run.next (Run.next (Run.next (Run.next (Run.next (Run.next (Run.next Run.start first rfl)
      trivial rfl) trivial rfl) trivial rfl) trivial rfl) trivial rfl) trivial rfl
  exact ⟨_, run.executed, rfl, counters_stay_right (by decide) run⟩

end VThreadPool

end VHttp.ThreadPool
