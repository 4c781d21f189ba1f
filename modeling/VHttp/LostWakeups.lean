import VHttp.SleepingPool

/-!
# Callers of VThreadPool_Wait that nobody wakes

A worker signals `AllThreadsDone` at the end of each turn of its loop in which it finds no
normal worker counted. The signal wakes one thread. With two waiters asleep the other one
sleeps on, and if no worker is due to come to that point again it stays asleep with its
condition true. The condition can also become true where nobody signals: a worker takes the
last task off the list, and the task is one that does not return.

Where neither happens, a worker or a caller is on its way as long as a waiter is asleep with
its condition true.
-/

namespace VHttp.ThreadPool

open Runs ConditionVariables

/-- The worker has taken a task that returns, and comes to the signal at the end of its turn. -/
def Position.busy : Position → Bool
  | .working stage ticket task => (Position.working stage ticket task).left
  | .finishing => true
  | _ => false

/-- A worker that is on the way stays so until it signals. -/
theorem VThreadPool.Moves.busy {before : VThreadPool} {action : Action} {worker : Nat}
    {position next : Position} (moves : Moves before worker action position next)
    (busy : position.busy = true) (apart : action ≠ .finish worker) : next.busy = true := by
  have onward := moves.left
  cases moves with
  | start => cases busy
  | wait position idle empty => rcases idle with rfl | rfl <;> cases busy
  | take position ticket task taskList idle available dequeued =>
    rcases idle with rfl | rfl <;> cases busy
  | finish => exact absurd rfl apart
  | announce ticket task callable => exact onward busy (by simp)
  | count ticket task => exact busy
  | invoke ticket task => exact busy
  | _ => rfl

namespace SleepingPool

open VThreadPool

/-- What `VThreadPool_Wait` waits for. -/
def Quiet (pool : VThreadPool) : Prop :=
  pool.normalThreadsWorking = 0 ∧ pool.taskList.count = 0

/-- A caller is blocked on `AllThreadsDone` while its condition holds, no thread is inside
`VThreadPool_AddTask`, and no worker is going to move. -/
structure WaiterLost (state : SleepingPool) : Prop where
  asleep : state.allThreadsDone ≠ []
  quiet : Quiet state.pool
  returned : ∀ call ∈ state.pool.adds, ∃ ticket, call = .returned ticket
  settled : Settled state

/-- Somebody is on the way: a worker to its signal, or a caller with a task. -/
def Coming (pool : VThreadPool) : Prop := pool.Somewhere Position.busy ∨ StoringBeside pool []

/-- Somebody besides this worker is. -/
def ComingBeside (pool : VThreadPool) (worker : Nat) : Prop :=
  pool.Elsewhere worker Position.busy ∨ StoringBeside pool []

/-- When a step wakes every waiter that it has to. At the end of a turn with nothing queued or
counted, at most one waiter is asleep, or somebody else is on the way. When the last task is
taken, with nothing counted, and it does not return, nobody is asleep, or somebody else is on
the way. -/
def WakesWaiters (state : SleepingPool) : SleepingMove → Prop
  | .act (.finish worker) _ => Quiet state.pool →
      (∀ first ∈ state.allThreadsDone, ∀ second ∈ state.allThreadsDone, first = second) ∨
        ComingBeside state.pool worker
  | .act (.take worker) _ => ∀ task taskList,
      state.pool.taskList.dequeue = some (task, taskList) → task.endless = true →
      state.pool.normalThreadsWorking = 0 → taskList.count = 0 →
      state.allThreadsDone = [] ∨ ComingBeside state.pool worker
  | _ => True

/-- While nothing is queued or counted somebody stays on the way, but for the two steps that
may end it. -/
theorem coming_stays {before after : VThreadPool} {action : Action}
    (effect : Effect before action after)
    (finishes : ∀ worker, action = .finish worker → Quiet before → ComingBeside before worker)
    (takes : ∀ worker task taskList, action = .take worker →
      before.taskList.dequeue = some (task, taskList) → task.endless = true →
      before.normalThreadsWorking = 0 → taskList.count = 0 → ComingBeside before worker)
    (coming : Quiet before → Coming before) : Quiet after → Coming after := by
  rintro ⟨uncounted, empty⟩
  rcases effect.counter with sameCounter | ⟨worker, ticket, task, kind, place⟩ |
    ⟨worker, _, place⟩
  · rw [sameCounter] at uncounted
    rcases effect.queue with ⟨sameCount, _, noRoom⟩ |
      ⟨worker, ticket, task, rfl, _, dequeued, held⟩ | ⟨caller, task, grown, _, _, longer, _, _⟩
    · have quiet : Quiet before := ⟨uncounted, sameCount ▸ empty⟩
      by_cases ends : ∃ worker, action = .finish worker
      · obtain ⟨worker, rfl⟩ := ends
        apply (finishes worker rfl quiet).imp
        · refine fun busy => busy.stays effect ?_
          rintro other position next ⟨⟩
          rfl
        · exact fun storing => storing.stays effect noRoom
      · apply (coming quiet).imp
        · refine fun busy => busy.stays effect ?_
          exact fun worker _ _ moves passes => moves.busy passes (fun same => ends ⟨worker, same⟩)
        · exact fun storing => storing.stays effect noRoom
    · cases kind : task.endless with
      | true =>
        apply (takes worker task _ rfl dequeued kind uncounted empty).imp
        · refine fun busy => busy.stays effect ?_
          rintro other position next ⟨⟩
          · rfl
          · rfl
        · refine fun storing => storing.stays effect ?_
          rintro caller task grown ⟨⟩
      | false =>
        exact Or.inl ⟨_, List.mem_of_getElem? held,
          by simp [Position.busy, Position.left, Position.endless, kind]⟩
    · omega
  · exact Or.inl ⟨_, List.mem_of_getElem? place,
      by simp [Position.busy, Position.left, Position.endless, kind]⟩
  · exact Or.inl ⟨_, List.mem_of_getElem? place, rfl⟩

variable {before after : SleepingPool} {action : Action} {woken : Option Nat}

/-- A waiter goes to sleep only while its condition does not hold. -/
theorem Acts.waiters (acts : Acts before after action woken) (asleep : after.allThreadsDone ≠ []) :
    before.allThreadsDone ≠ [] ∨ ¬ Quiet before.pool := by
  have lists := acts.allThreadsDone
  cases action with
  | test waiter =>
    by_cases busy : 0 < before.pool.normalThreadsWorking ∨ 0 < before.pool.taskList.count
    · refine Or.inr ?_
      rintro ⟨uncounted, empty⟩
      simp [uncounted, empty] at busy
    · rw [allThreadsDoneAfter, if_neg busy, Option.some.injEq] at lists
      exact Or.inl (lists ▸ asleep)
  | finish worker =>
    obtain ⟨waiter, member⟩ := List.exists_mem_of_ne_nil _ asleep
    refine Or.inl (List.ne_nil_of_mem (a := waiter) ?_)
    by_cases uncounted : before.pool.normalThreadsWorking = 0
    · rw [allThreadsDoneAfter, if_pos uncounted] at lists
      exact signal_subset lists waiter member
    · rw [allThreadsDoneAfter, if_neg uncounted, Option.some.injEq] at lists
      exact lists ▸ member
  | _ => exact Or.inl (Option.some.inj lists ▸ asleep)

/-- At the end of a turn a single waiter is woken when its condition holds. -/
theorem Acts.sole {worker : Nat} (acts : Acts before after (.finish worker) woken)
    (quiet : Quiet before.pool)
    (sole : ∀ first ∈ before.allThreadsDone, ∀ second ∈ before.allThreadsDone, first = second) :
    after.allThreadsDone = [] := by
  have lists := acts.allThreadsDone
  rw [allThreadsDoneAfter, if_pos quiet.1] at lists
  exact signal_sole lists sole

/-- While a waiter is asleep with its condition true, somebody is on the way. -/
def Attended (state : SleepingPool) : Prop :=
  state.allThreadsDone ≠ [] → Quiet state.pool → Coming state.pool

/-- Every step that wakes the waiters that it has to keeps somebody on the way. -/
theorem Acts.attended (acts : Acts before after action woken)
    (wakes : WakesWaiters before (.act action woken)) (attended : Attended before) :
    Attended after := by
  intro asleep
  refine coming_stays acts.effect ?_ ?_ ?_
  · rintro worker rfl quiet
    exact (wakes quiet).resolve_left (fun sole => asleep (acts.sole quiet sole))
  · rintro worker task taskList rfl dequeued endless uncounted empty
    have sleeping : before.allThreadsDone ≠ [] := Option.some.inj acts.allThreadsDone ▸ asleep
    exact (wakes task taskList dequeued endless uncounted empty).resolve_left sleeping
  · intro quiet
    exact attended ((acts.waiters asleep).resolve_right (fun loud => loud quiet)) quiet

/-- While every step wakes the waiters that it has to, no caller is left blocked on
`AllThreadsDone` with its condition true and nobody to signal it, in a pool of any size, with
any number of waiters and any tasks. -/
theorem no_waiter_lost {numThreads : Nat} {trace : List SleepingMove} {state : SleepingPool}
    (run : Run step WakesWaiters (init numThreads) trace state) : ¬ WaiterLost state := by
  have attended : Attended state := by
    apply run.invariant Attended (fun asleep => absurd rfl asleep)
    intro before move after attended wakes taken
    rcases step_cases taken with ⟨action, woken, rfl, acts⟩ | rests
    · exact acts.attended wakes attended
    · intro asleep quiet
      rw [rests.pool] at quiet ⊢
      exact attended (fun nobody => asleep (List.subset_nil.mp (nobody ▸ rests.waiters))) quiet
  rintro ⟨asleep, quiet, returned, settled⟩
  rcases attended asleep quiet with busy | ⟨other, call, _, found, pending⟩
  · refine settled.nowhere (run_sleepers run) rfl ?_ busy
    intro position inside
    obtain ⟨ticket, task, rfl, infinite⟩ := Position.inside_spec inside
    simp [Position.busy, Position.left, Position.endless, infinite]
  · obtain ⟨ticket, rfl⟩ := returned call (List.mem_of_getElem? found)
    cases pending

/-- A caller waits while a task is queued. The only worker takes it, with no worker counted,
and does not come back. -/
def lastTaskEndless : List SleepingMove :=
  [.act (.start 0) none, .act (.addTask (some 1) 0 .infinity) none, .act (.lock 0 false) none,
    .act (.signal 0) none, .act .enterWait none, .act (.test 0) none, .act (.take 0) none,
    .act (.look 0) none, .act (.count 0) none, .act (.invoke 0) none]

/-- The caller is lost. -/
theorem waiter_is_lost :
    ¬ ∀ (numThreads : Nat) (trace : List SleepingMove) (state : SleepingPool),
      Run step anywhere (init numThreads) trace state → ¬ WaiterLost state := by
  intro never
  obtain ⟨state, run, asleep, uncounted, queued, calls, places⟩ :=
    Run.reaches (fun state : SleepingPool => state.allThreadsDone = [0] ∧
        state.pool.normalThreadsWorking = 0 ∧ state.pool.taskList.count = 0 ∧
        state.pool.adds = [.returned 0] ∧
        state.pool.positions = [.working .running 0 ⟨some 1, 0, .infinity⟩])
      (by decide : (lastTaskEndless.foldlM step (init 1)).any _ = true)
  apply never 1 lastTaskEndless state run
  refine ⟨by simp [asleep], ⟨uncounted, queued⟩, by simp [calls], ?_⟩
  intro worker position place
  rw [places] at place
  refine Or.inr ?_
  rw [List.mem_singleton.mp (List.mem_of_getElem? place)]
  rfl

/-- A caller that waits for a task that returns is woken at the end of the worker's turn. -/
theorem no_waiter_lost_woken :
    ∃ state, ([.act (.start 0) none, .act (.addTask (some 1) 0 .default) none,
        .act (.lock 0 false) none, .act (.signal 0) none, .act (.take 0) none,
        .act (.look 0) none, .act (.count 0) none, .act .enterWait none, .act (.test 0) none,
        .act (.invoke 0) none, .act (.complete 0) none, .act (.leave 0) none,
        .act (.finish 0) (some 0)] : List SleepingMove).foldlM step (init 1) = some state ∧
      state.allThreadsDone = [] ∧ ¬ WaiterLost state := by
  have stored : Run step WakesWaiters (init 1)
      [.act (.start 0) none, .act (.addTask (some 1) 0 .default) none, .act (.lock 0 false) none,
        .act (.signal 0) none] _ :=
    Run.of_admitted (by simp [WakesWaiters]) rfl
  have taken : Run step WakesWaiters (init 1) (_ ++ [.act (.take 0) none]) _ :=
    Run.next stored (fun _ _ _ _ _ _ => Or.inl rfl) rfl
  have left : Run step WakesWaiters (init 1) (_ ++
      [.act (.look 0) none, .act (.count 0) none, .act .enterWait none, .act (.test 0) none,
        .act (.invoke 0) none, .act (.complete 0) none, .act (.leave 0) none]) _ :=
    taken.append (Run.of_admitted (by simp [WakesWaiters]) rfl)
  have run : Run step WakesWaiters (init 1) (_ ++ [.act (.finish 0) (some 0)]) _ :=
    Run.next left (fun _ => Or.inl (by decide)) rfl
  exact ⟨_, run.executed, rfl, no_waiter_lost run⟩

end SleepingPool

end VHttp.ThreadPool
