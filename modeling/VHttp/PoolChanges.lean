import VHttp.TaskOrder

/-!
# What a step does to the workers, to the list and to the calls

Three views of one step of the pool. A worker stays where it is or goes on to the next place in
its loop. The list keeps its number of tasks, or loses one to a worker, or gains one from a
call. The calls of `VThreadPool_AddTask` stay as they are, or one of them moves on.
-/

namespace VHttp.ThreadPool

/-- The call is still to store its task. -/
def AddCall.storing : AddCall → Bool
  | .entered _ => true
  | .blocked _ => true
  | _ => false

namespace VThreadPool

variable {before after : VThreadPool} {action : Action}

/-! ## The workers -/

/-- How a worker goes on in its loop. -/
inductive Moves (before : VThreadPool) (worker : Nat) : Action → Position → Position → Prop where
  | start : Moves before worker (.start worker) .starting .fetching
  | wait (position : Position) (idle : position = .fetching ∨ position = .waiting)
      (empty : before.taskList.count = 0) :
      Moves before worker (.take worker) position .waiting
  | take (position : Position) (ticket : Nat) (task : VTask) (taskList : VTaskList)
      (idle : position = .fetching ∨ position = .waiting) (available : before.taskList.count ≠ 0)
      (dequeued : before.taskList.dequeue = some (task, taskList)) :
      Moves before worker (.take worker) position (.working .held ticket task)
  | drop (ticket : Nat) (task : VTask) (null : task.procedure = none) :
      Moves before worker (.look worker) (.working .held ticket task) .finishing
  | announce (ticket : Nat) (task : VTask) (callable : task.procedure ≠ none) :
      Moves before worker (.look worker) (.working .held ticket task)
        (.working .announced ticket task)
  | count (ticket : Nat) (task : VTask) :
      Moves before worker (.count worker) (.working .announced ticket task)
        (.working .counted ticket task)
  | invoke (ticket : Nat) (task : VTask) :
      Moves before worker (.invoke worker) (.working .counted ticket task)
        (.working .running ticket task)
  | complete (ticket : Nat) (task : VTask) :
      Moves before worker (.complete worker) (.working .running ticket task)
        (.working .returned ticket task)
  | leave (ticket : Nat) (task : VTask) :
      Moves before worker (.leave worker) (.working .returned ticket task) .finishing
  | finish : Moves before worker (.finish worker) .finishing .fetching

/-- A worker stays where it is, or goes on in its loop. -/
theorem Effect.moves (effect : Effect before action after) {worker : Nat} {position : Position}
    (place : before.positions[worker]? = some position) :
    ∃ next, after.positions[worker]? = some next ∧
      (next = position ∨ Moves before worker action position next) := by
  have set : ∀ {mover : Nat} {thread moved : Thread}, before.threads[mover]? = some thread →
      Moves before mover action thread.position moved.position →
      ∃ next, ((before.threads.set mover moved).map Thread.position)[worker]? = some next ∧
        (next = position ∨ Moves before worker action position next) := by
    intro mover thread moved read moves
    rw [positions_set]
    by_cases same : mover = worker
    · subst same
      obtain rfl : thread.position = position :=
        Option.some.inj ((positions_read read).symm.trans place)
      refine ⟨moved.position, ?_, Or.inr moves⟩
      exact List.getElem?_set_self (List.getElem?_eq_some_iff.mp place).1
    · exact ⟨position, (List.getElem?_set_ne same).trans place, Or.inl rfl⟩
  have grow : ∀ {caller : Nat} {task : VTask} {grown : VThreadPool},
      Enqueuing before action caller task grown →
      ∃ next, grown.positions[worker]? = some next ∧
        (next = position ∨ Moves before worker action position next) := by
    intro caller task grown source
    obtain ⟨added, appended, _⟩ := grown_positions source.growth
    refine ⟨position, ?_, Or.inl rfl⟩
    rw [appended, List.getElem?_append_left (List.getElem?_eq_some_iff.mp place).1]
    exact place
  cases effect with
  | started worker thread read position =>
    apply set read
    rw [position]
    exact Moves.start
  | idled worker thread read position empty => exact set read (Moves.wait _ position empty)
  | took worker thread task taskList read position available dequeued =>
    exact set read (Moves.take _ _ task taskList position available dequeued)
  | dropped worker thread ticket task read position null =>
    apply set read
    rw [position]
    exact Moves.drop ticket task null
  | announced worker thread ticket task value read position callable kind =>
    apply set read
    rw [position]
    exact Moves.announce ticket task callable
  | countedInfinite worker thread ticket task read position kind =>
    apply set read
    rw [position]
    exact Moves.count ticket task
  | countedNormal worker thread ticket task read position kind =>
    apply set read
    rw [position]
    exact Moves.count ticket task
  | invoked worker thread ticket procedure task read position callable =>
    apply set read
    rw [position]
    exact Moves.invoke ticket task
  | completed worker thread ticket task read position =>
    apply set read
    rw [position]
    exact Moves.complete ticket task
  | left worker thread ticket task read position =>
    apply set read
    rw [position]
    exact Moves.leave ticket task
  | finished worker thread read position =>
    apply set read
    rw [position]
    exact Moves.finish
  | blocked action grown caller task source full =>
    have kept := grow source
    exact kept
  | stored action grown caller task taskList source room enqueued =>
    have kept := grow source
    exact kept
  | _ => exact ⟨position, place, Or.inl rfl⟩

/-- Some worker stands where the test holds. -/
def Somewhere (pool : VThreadPool) (test : Position → Bool) : Prop :=
  ∃ position ∈ pool.positions, test position = true

/-- Some worker but this one stands there. -/
def Elsewhere (pool : VThreadPool) (worker : Nat) (test : Position → Bool) : Prop :=
  ∃ other position, other ≠ worker ∧ pool.positions[other]? = some position ∧
    test position = true

variable {test : Position → Bool}

/-- Somebody stands there as long as nobody moves away. -/
theorem Somewhere.stays (somewhere : before.Somewhere test) (effect : Effect before action after)
    (kept : ∀ worker position next, Moves before worker action position next →
      test position = true → test next = true) : after.Somewhere test := by
  obtain ⟨position, member, passes⟩ := somewhere
  obtain ⟨worker, place⟩ := List.mem_iff_getElem?.mp member
  obtain ⟨next, found, same | moves⟩ := effect.moves place
  · exact ⟨next, List.mem_of_getElem? found, same ▸ passes⟩
  · exact ⟨next, List.mem_of_getElem? found, kept worker position next moves passes⟩

/-- The others stay where they are. -/
theorem Elsewhere.stays {worker : Nat} (elsewhere : before.Elsewhere worker test)
    (effect : Effect before action after)
    (mover : ∀ other position next, Moves before other action position next → other = worker) :
    after.Somewhere test := by
  obtain ⟨other, position, apart, place, passes⟩ := elsewhere
  obtain ⟨next, found, same | moves⟩ := effect.moves place
  · exact ⟨next, List.mem_of_getElem? found, same ▸ passes⟩
  · exact absurd (mover other position next moves) apart

/-- A caller that adds a thread keeps every worker where it is. -/
theorem Somewhere.enqueuing {grown : VThreadPool} {caller : Nat} {task : VTask}
    (somewhere : before.Somewhere test) (source : Enqueuing before action caller task grown) :
    grown.Somewhere test := by
  obtain ⟨position, member, passes⟩ := somewhere
  obtain ⟨added, appended, _⟩ := grown_positions source.growth
  exact ⟨position, by rw [appended]; exact List.mem_append_left _ member, passes⟩

/-! ## The list and the counter -/

/-- The list has no room. -/
def full (pool : VThreadPool) : Prop := pool.taskList.count = pool.taskList.capacity

instance (pool : VThreadPool) : Decidable (full pool) := inferInstanceAs (Decidable (_ = _))

/-- The number of tasks stays, unless a worker takes the oldest task, or a call stores its
task. -/
theorem Effect.queue (effect : Effect before action after) :
    after.taskList.count = before.taskList.count ∧
        (∀ worker, action = .take worker → before.taskList.count = 0) ∧
        (∀ caller task grown, Enqueuing before action caller task grown → full before) ∨
      (∃ worker ticket task, action = .take worker ∧ before.taskList.count ≠ 0 ∧
        before.taskList.dequeue = some (task, after.taskList) ∧
        after.positions[worker]? = some (.working .held ticket task)) ∨
      ∃ caller task grown, Enqueuing before action caller task grown ∧ ¬ full before ∧
        after.taskList.count = before.taskList.count + 1 ∧ after.positions = grown.positions ∧
        after.adds = before.adds.set caller (.enqueued before.history.enqueued.length) := by
  cases effect with
  | idled worker thread read position empty =>
    refine Or.inl ⟨rfl, fun _ _ => empty, ?_⟩
    rintro caller task grown ⟨⟩
  | took worker thread task taskList read position available dequeued =>
    refine Or.inr (Or.inl ⟨worker, before.history.dequeued.length, task, rfl, available,
      dequeued, ?_⟩)
    simp [positions, (List.getElem?_eq_some_iff.mp read).1]
  | blocked action grown caller task source full =>
    refine Or.inl ⟨rfl, ?_, fun _ _ _ _ => full⟩
    rintro worker rfl
    cases source
  | stored action grown caller task taskList source room enqueued =>
    refine Or.inr (Or.inr ⟨caller, task, grown, source, room, ?_, rfl, rfl⟩)
    rw [VTaskList.enqueue_spec enqueued]
  | _ =>
    refine Or.inl ⟨rfl, by simp, ?_⟩
    rintro caller task grown ⟨⟩

/-- The list keeps its size. -/
theorem Effect.capacity (effect : Effect before action after) :
    after.taskList.capacity = before.taskList.capacity := by
  cases effect with
  | took worker thread task taskList read position available dequeued =>
    rw [(VTaskList.dequeue_spec available dequeued).2]
    rfl
  | stored action grown caller task taskList source room enqueued =>
    rw [VTaskList.enqueue_spec enqueued]
    exact List.length_set
  | _ => rfl

/-- The number of normal workers stays, unless a worker is counted for a normal task, or has
come back from a procedure. -/
theorem Effect.counter (effect : Effect before action after) :
    after.normalThreadsWorking = before.normalThreadsWorking ∨
      (∃ (worker ticket : Nat) (task : VTask), task.attr = .default ∧
        after.positions[worker]? = some (.working .counted ticket task)) ∨
      ∃ worker, action = .leave worker ∧ after.positions[worker]? = some .finishing := by
  cases effect with
  | countedNormal worker thread ticket task read position kind =>
    refine Or.inr (Or.inl ⟨worker, ticket, task, kind, ?_⟩)
    simp [positions, (List.getElem?_eq_some_iff.mp read).1]
  | left worker thread ticket task read position =>
    refine Or.inr (Or.inr ⟨worker, rfl, ?_⟩)
    simp [positions, (List.getElem?_eq_some_iff.mp read).1]
  | blocked action grown caller task source full =>
    exact Or.inl source.onlyThreads.normalThreadsWorking
  | stored action grown caller task taskList source room enqueued =>
    exact Or.inl source.onlyThreads.normalThreadsWorking
  | _ => exact Or.inl rfl

/-! ## The calls -/

/-- Replacing one item moves its share of a count. -/
theorem countP_set_share {Item : Type} {list : List Item} {index : Nat} {old : Item} (new : Item)
    (counted : Item → Bool) (here : list[index]? = some old) :
    (list.set index new).countP counted + (if counted old then 1 else 0) =
      list.countP counted + (if counted new then 1 else 0) := by
  obtain ⟨inside, same⟩ := List.getElem?_eq_some_iff.mp here
  have share := List.boole_getElem_le_countP (p := counted) inside
  rw [List.countP_set inside, same]
  rw [same] at share
  omega

/-- The calls stay as they are, unless a new one is entered, a caller comes to the end of its
enqueue, or one that has stored its task signals and returns. -/
theorem Effect.calls (effect : Effect before action after) :
    after.adds = before.adds ∨
      (∃ task, after.adds = before.adds ++ [.entered task]) ∨
      (∃ caller task grown, Enqueuing before action caller task grown ∧
        (full before ∧ after.adds = before.adds.set caller (.blocked task) ∨
          ¬ full before ∧
            after.adds = before.adds.set caller (.enqueued before.history.enqueued.length))) ∨
      ∃ caller ticket, action = .signal caller ∧
        before.adds[caller]? = some (.enqueued ticket) ∧
        after.adds = before.adds.set caller (.returned ticket) := by
  cases effect with
  | entered procedure arg attr => exact Or.inr (Or.inl ⟨_, rfl⟩)
  | blocked action grown caller task source full =>
    exact Or.inr (Or.inr (Or.inl ⟨caller, task, grown, source, Or.inl ⟨full, rfl⟩⟩))
  | stored action grown caller task taskList source room enqueued =>
    exact Or.inr (Or.inr (Or.inl ⟨caller, task, grown, source, Or.inr ⟨room, rfl⟩⟩))
  | signalled caller ticket call => exact Or.inr (Or.inr (Or.inr ⟨caller, ticket, rfl, call, rfl⟩))
  | _ => exact Or.inl rfl

/-- A call comes to the end of its enqueue with its task still to store. -/
theorem Enqueuing.storing {grown : VThreadPool} {caller : Nat} {task : VTask}
    (source : Enqueuing before action caller task grown) :
    ∃ call, before.adds[caller]? = some call ∧ call.storing = true := by
  cases source with
  | locked caller moves task call => exact ⟨_, call, rfl⟩
  | retried caller task call => exact ⟨_, call, rfl⟩

/-- Some call but these is still to store its task. -/
def StoringBeside (pool : VThreadPool) (calls : List Nat) : Prop :=
  ∃ other call, other ∉ calls ∧ pool.adds[other]? = some call ∧ call.storing = true

variable {calls : List Nat}

/-- A call that moves on leaves the others as they are. -/
theorem StoringBeside.set {caller : Nat} {moved : AddCall}
    (storing : StoringBeside before (caller :: calls))
    (adds : after.adds = before.adds.set caller moved) : StoringBeside after calls := by
  obtain ⟨other, call, apart, found, pending⟩ := storing
  rw [List.mem_cons, not_or] at apart
  refine ⟨other, call, apart.2, ?_, pending⟩
  rw [adds, List.getElem?_set_ne (Ne.symm apart.1)]
  exact found

/-- A call has its task to store until it finds room. -/
theorem StoringBeside.stays (storing : StoringBeside before calls)
    (effect : Effect before action after)
    (noRoom : ∀ caller task grown, Enqueuing before action caller task grown → full before) :
    StoringBeside after calls := by
  obtain ⟨other, call, apart, found, pending⟩ := storing
  have inside := (List.getElem?_eq_some_iff.mp found).1
  rcases effect.calls with same | ⟨entered, appended⟩ | ⟨caller, task, grown, source, moved⟩ |
    ⟨caller, ticket, _, stored, moved⟩
  · exact ⟨other, call, apart, same ▸ found, pending⟩
  · refine ⟨other, call, apart, ?_, pending⟩
    rw [appended, List.getElem?_append_left inside]
    exact found
  · rcases moved with ⟨_, moved⟩ | ⟨room, _⟩
    · by_cases same : caller = other
      · subst same
        refine ⟨caller, .blocked task, apart, ?_, rfl⟩
        rw [moved]
        exact List.getElem?_set_self inside
      · refine ⟨other, call, apart, ?_, pending⟩
        rw [moved, List.getElem?_set_ne same]
        exact found
    · exact absurd (noRoom caller task grown source) room
  · have different : caller ≠ other := by
      rintro rfl
      rw [stored, Option.some.injEq] at found
      subst found
      cases pending
    refine ⟨other, call, apart, ?_, pending⟩
    rw [moved, List.getElem?_set_ne different]
    exact found

end VThreadPool

end VHttp.ThreadPool
