import VHttp.EventLoop
import VHttp.WorkerSteps

/-!
# ProcessEvents with its workers

One pass over the connections runs the worker for every open connection that is readable,
and clears the flag behind it. Connections are registered edge-triggered, so a worker that
returns with the connection open must have received until the socket would block. Every way
out of its receive loop either met that, or cleans up, which marks the connection closed.
-/

namespace VHttp

/-- The result of a recv. -/
def Call.receipt : Call → Option (Nat × Received)
  | .peeked descriptor result | .received descriptor result => some (descriptor, result)
  | _ => none

namespace Worker

/-- The last recv of a list of calls. -/
def lastReceipt (calls : List Call) : Option (Nat × Received) :=
  (calls.filterMap Call.receipt).getLast?

/-- The phases behind the receive loop that lead to a return. -/
def Phase.Answering : Phase → Prop
  | .serving | .sending _ _ _ | .sendingFile _ _ _ | .returned => True
  | _ => False

theorem Phase.Answering.outside {phase : Phase} (answering : phase.Answering) :
    ¬ phase.InLoop := by
  cases phase <;> first | exact id | exact absurd answering id

/-- A worker that has left its loop for an answer has received until the socket would block. -/
structure Drained (descriptor : Nat) (worker : Worker) : Prop where
  sameDescriptor : worker.fileDescriptor = descriptor
  blocked : worker.phase.Answering →
    lastReceipt worker.calls = some (descriptor, .failed .again)

theorem Drained.step {descriptor : Nat} {worker after : Worker} {answer : Answer}
    (drained : Drained descriptor worker) (stepped : worker.step answer = some after) :
    Drained descriptor after := by
  obtain ⟨same, blocked⟩ := drained
  have silent : ¬ worker.phase.InLoop → worker.phase.Answering → Drained descriptor after := by
    intro outside answering
    obtain ⟨⟨calls, added, quiet⟩, _, kept⟩ := answer_quiet outside stepped
    refine ⟨kept.trans same, fun _ => ?_⟩
    have none : calls.filterMap Call.receipt = [] := by
      rw [List.filterMap_eq_nil_iff]
      intro call member
      have outsideCall := quiet call member
      cases call with
      | peeked peer result => exact absurd rfl (outsideCall peer)
      | received peer result => exact absurd rfl (outsideCall peer)
      | _ => rfl
    rw [added, lastReceipt, List.filterMap_append, none, List.append_nil]
    exact blocked answering
  have further : ∀ phase, worker.phase = phase → phase.Answering → Drained descriptor after := by
    rintro phase rfl answering
    exact silent answering.outside answering
  cases step_taken stepped with
  | looping phase noSend step =>
    obtain ⟨heard, _, looped⟩ := step.looped
    refine ⟨step.sameDescriptor.trans same, fun answering => ?_⟩
    cases looped with
    | stays inLoop calls shared =>
      exact absurd inLoop answering.outside
    | leaves serving calls blocks cleared shared =>
      obtain ⟨call, rfl, isBlocked⟩ := blocks
      rw [calls, lastReceipt, List.filterMap_append]
      rcases isBlocked with rfl | rfl <;> simp [Call.receipt, same]
    | refuses refusing calls built last => simp [refusing, Phase.Answering] at answering
    | cleans cleanedUp calls shared => simp [cleanedUp, Phase.Answering] at answering
  | refusing phase step =>
    obtain ⟨_, _, _, _, _, cleanedUp, _, _, _, kept, _⟩ := sendRefusal_cases step
    exact ⟨kept.trans same, fun answering => by simp [cleanedUp, Phase.Answering] at answering⟩
  | serving phase step => exact further _ phase trivial
  | sending phase step => exact further _ phase trivial
  | sendingFile phase step => exact further _ phase trivial

/-- How a worker has ended, for the loop that called it. -/
def outcome (worker : Worker) : Option EventLoop.Outcome :=
  match worker.phase with
  | .returned => some (.returned worker.openFile)
  | .cleanedUp => some (.cleanup worker.openFile)
  | _ => none

/-- A worker that has run to an end as a whole has received until the socket would block. -/
theorem run_drained {descriptor : Nat} {shared : Shared} {answers : List Answer} {worker : Worker}
    (ran : answers.foldlM step (start descriptor shared) = some worker) :
    Drained descriptor worker :=
  (Runs.Run.of_foldlM ran).invariant (Drained descriptor) ⟨rfl, fun answering => absurd answering id⟩
    (fun _ _ _ drained _ stepped => drained.step stepped)

end Worker

open EventLoop

/-- `ProcessEvents` on its way: the server, what the workers share, and the calls that the
worker for each slot has made. -/
structure Pass where
  server : Server
  shared : Worker.Shared
  rounds : List (Nat × List Call)

/-- One round of `ProcessEvents`. The worker runs on the results that its calls are given,
and its outcome is the one that the event loop goes on with. -/
def Pass.round (pass : Pass) (answers : List Worker.Answer) : Option Pass :=
  match pass.server.phase with
  | .processing slot _ => do
    let connection ← pass.server.connections.slots[slot]?
    if connection.closed = false ∧ connection.readable = true then
      let worker ← answers.foldlM Worker.step
        (Worker.start connection.fileDescriptor pass.shared)
      let outcome ← worker.outcome
      let server ← EventLoop.step pass.server (.serve outcome)
      pure ⟨server, worker.shared, pass.rounds ++ [(slot, worker.calls)]⟩
    else
      let server ← EventLoop.step pass.server (.serve (.returned none))
      pure { pass with server := server }
  | _ => none

/-- A round of the event loop's model: what becomes of the connection that it serves, and
that the others stay. -/
theorem serve_slot {server after : Server} {outcome : Outcome} {slot count : Nat}
    (phase : server.phase = .processing slot count)
    (stepped : EventLoop.step server (.serve outcome) = some after) :
    after.phase = .processing (slot + 1) count ∧
      after.connections.count = server.connections.count ∧
      (∀ index, index ≠ slot →
        after.connections.slots[index]? = server.connections.slots[index]?) ∧
      ∃ old new, server.connections.slots[slot]? = some old ∧
        after.connections.slots[slot]? = some new ∧ (new.closed = false → new.readable = false) ∧
        (old.closed = false → old.readable = true → ∀ file, outcome = .cleanup file →
          new.closed = true) := by
  simp only [EventLoop.step, stepCalls, phase, Option.map_eq_some_iff, Option.bind_eq_bind,
    Option.bind_eq_some_iff, Option.guard_eq_some', Option.pure_def, Option.some.injEq] at stepped
  obtain ⟨_, ⟨_, below, ⟨served, calls⟩, handled, rfl⟩, rfl⟩ := stepped
  simp only [serveSlot, Option.bind_eq_bind, Option.bind_eq_some_iff, Option.pure_def] at handled
  obtain ⟨old, read, handled⟩ := handled
  have inside : slot < server.connections.slots.length :=
    (List.getElem?_eq_some_iff.mp read).1
  refine ⟨rfl, ?_⟩
  have written : ∀ new : TcpConnection, (new.closed = false → new.readable = false) →
      (old.closed = false → old.readable = true → ∀ file, outcome = .cleanup file →
        new.closed = true) →
      served.connections = { server.connections with
        slots := server.connections.slots.set slot new } →
      served.connections.count = server.connections.count ∧
      (∀ index, index ≠ slot →
        served.connections.slots[index]? = server.connections.slots[index]?) ∧
      ∃ old new, server.connections.slots[slot]? = some old ∧
        served.connections.slots[slot]? = some new ∧ (new.closed = false → new.readable = false) ∧
        (old.closed = false → old.readable = true → ∀ file, outcome = .cleanup file →
          new.closed = true) := by
    intro new unread closes same
    rw [same]
    refine ⟨rfl, fun index other => List.getElem?_set_ne (Ne.symm other), old, new, read, ?_, unread,
      closes⟩
    rw [List.getElem?_set_self inside]
  split at handled
  · rename_i closed
    simp only [Option.some.injEq, Prod.mk.injEq] at handled
    obtain ⟨rfl, _⟩ := handled
    refine ⟨rfl, fun _ _ => rfl, old, old, read, read, ?_, ?_⟩ <;> simp [closed]
  · split at handled
    · rename_i readable
      simp only [Option.bind_eq_some_iff, Option.guard_eq_some', Option.some.injEq,
        Prod.mk.injEq] at handled
      obtain ⟨_, _, rfl, _⟩ := handled
      cases outcome with
      | returned file => exact written _ (fun _ => rfl) (by simp) rfl
      | cleanup file =>
        refine written ⟨old.id, old.fileDescriptor, false, false, true⟩ (by simp) (by simp) ?_
        simp [epollHttpWorker, Server.write]
    · rename_i unreadable
      simp only [Option.some.injEq, Prod.mk.injEq] at handled
      obtain ⟨rfl, _⟩ := handled
      exact written { old with writable := false } (fun _ => by simpa using unreadable)
        (fun _ readable => absurd readable unreadable) rfl

/-- The slots that a pass has come past. -/
def Settled (entry : Server) (rounds : List (Nat × List Call)) (index : Nat)
    (new : TcpConnection) : Prop :=
  (new.closed = false → new.readable = false) ∧
    ∀ old, entry.connections.slots[index]? = some old → old.closed = false →
      old.readable = true → new.closed = true ∨
        ∃ calls, (index, calls) ∈ rounds ∧
          Worker.lastReceipt calls = some (old.fileDescriptor, .failed .again)

/-- What holds on the way: slots behind are settled, and slots ahead are as they were. -/
structure Passing (entry : Server) (pass : Pass) : Prop where
  count : pass.server.connections.count = entry.connections.count
  position : ∃ slot, pass.server.phase = .processing slot entry.connections.count ∧
    (∀ index, slot ≤ index →
      pass.server.connections.slots[index]? = entry.connections.slots[index]?) ∧
    ∀ index, index < slot → ∀ new, pass.server.connections.slots[index]? = some new →
      Settled entry pass.rounds index new

theorem Settled.more {entry : Server} {rounds : List (Nat × List Call)} {index : Nat}
    {new : TcpConnection} (settled : Settled entry rounds index new)
    (others : List (Nat × List Call)) : Settled entry (rounds ++ others) index new := by
  refine ⟨settled.1, fun old read wasOpen readable => ?_⟩
  exact (settled.2 old read wasOpen readable).imp id
    fun ⟨calls, member, blocked⟩ => ⟨calls, List.mem_append_left _ member, blocked⟩

/-- A round settles its slot. -/
theorem Passing.advance {entry : Server} {pass after : Pass} {slot : Nat} {outcome : Outcome}
    {others : List (Nat × List Call)} (count : pass.server.connections.count = entry.connections.count)
    (phase : pass.server.phase = .processing slot entry.connections.count)
    (ahead : ∀ index, slot ≤ index →
      pass.server.connections.slots[index]? = entry.connections.slots[index]?)
    (behind : ∀ index, index < slot → ∀ new,
      pass.server.connections.slots[index]? = some new → Settled entry pass.rounds index new)
    (stepped : EventLoop.step pass.server (.serve outcome) = some after.server)
    (rounds : after.rounds = pass.rounds ++ others)
    (blocked : ∀ old, pass.server.connections.slots[slot]? = some old → old.closed = false →
      old.readable = true → (∃ file, outcome = .cleanup file) ∨
        ∃ calls, (slot, calls) ∈ after.rounds ∧
          Worker.lastReceipt calls = some (old.fileDescriptor, .failed .again)) :
    Passing entry after := by
  obtain ⟨further, sameCount, kept, old, new, read, isNew, unread, closes⟩ := serve_slot phase stepped
  refine ⟨sameCount.trans count, slot + 1, further, ?_, ?_⟩
  · intro index beyond
    rw [kept index (by omega), ahead index (by omega)]
  · intro index below current readNew
    by_cases here : index = slot
    · subst here
      rw [isNew, Option.some.injEq] at readNew
      subst readNew
      refine ⟨unread, fun entryOld readEntry wasOpen readable => ?_⟩
      rw [← ahead index (Nat.le_refl _), read, Option.some.injEq] at readEntry
      subst readEntry
      exact (blocked old read wasOpen readable).imp
        (fun ⟨file, cleanup⟩ => closes wasOpen readable file cleanup) id
    · rw [kept index here] at readNew
      rw [rounds]
      exact (behind index (by omega) current readNew).more others

theorem Passing.round {entry : Server} {pass after : Pass} {answers : List Worker.Answer}
    (passing : Passing entry pass) (rounded : pass.round answers = some after) :
    Passing entry after := by
  obtain ⟨count, slot, phase, ahead, behind⟩ := passing
  simp only [Pass.round, phase, Option.bind_eq_bind, Option.bind_eq_some_iff] at rounded
  obtain ⟨connection, read, rounded⟩ := rounded
  split at rounded
  · simp only [Option.bind_eq_some_iff, Option.pure_def, Option.some.injEq] at rounded
    obtain ⟨worker, ran, outcome, ended, server, stepped, rfl⟩ := rounded
    refine Passing.advance count phase ahead behind stepped rfl ?_
    intro old readOld wasOpen readable
    rw [read, Option.some.injEq] at readOld
    subst readOld
    unfold Worker.outcome at ended
    split at ended
    · rename_i returned
      exact Or.inr ⟨worker.calls, by simp,
        (Worker.run_drained ran).blocked (by rw [returned]; trivial)⟩
    · exact Or.inl ⟨_, (Option.some.inj ended).symm⟩
    · simp at ended
  · rename_i idle
    simp only [Option.bind_eq_some_iff, Option.pure_def, Option.some.injEq] at rounded
    obtain ⟨server, stepped, rfl⟩ := rounded
    refine Passing.advance count phase ahead behind stepped (List.append_nil _).symm ?_
    intro old readOld wasOpen readable
    rw [read, Option.some.injEq] at readOld
    subst readOld
    exact absurd ⟨wasOpen, readable⟩ idle

/-- For every connection array, and whatever recv, send and the parser answer: when
`ProcessEvents` has returned, every connection that was open and readable at its entry is
closed, or the last recv of its worker in this pass would have blocked; and no open
connection is readable.

Each round settles its slot and leaves the others as they are. The worker of a round that
keeps the connection has left its loop where the socket would block. -/
theorem no_readiness_is_dropped {entry after : Server} {shared : Worker.Shared}
    {scripts : List (List Worker.Answer)} {pass : Pass}
    (position : entry.phase = .processing 0 entry.connections.count)
    (run : Runs.Run Pass.round Runs.anywhere ⟨entry, shared, []⟩ scripts pass)
    (returned : EventLoop.step pass.server .finish = some after) :
    (∀ index old new, index < entry.connections.count →
      entry.connections.slots[index]? = some old → old.closed = false → old.readable = true →
      after.connections.slots[index]? = some new → new.closed = true ∨
        ∃ calls, (index, calls) ∈ pass.rounds ∧
          Worker.lastReceipt calls = some (old.fileDescriptor, .failed .again)) ∧
    ∀ index new, index < entry.connections.count →
      after.connections.slots[index]? = some new → new.closed = false → new.readable = false := by
  have initial : Passing entry ⟨entry, shared, []⟩ :=
    ⟨rfl, 0, position, fun _ _ => rfl, fun index below => absurd below (Nat.not_lt_zero _)⟩
  obtain ⟨count, slot, phase, ahead, behind⟩ := run.invariant (Passing entry) initial
    (fun _ _ _ passing _ rounded => passing.round rounded)
  simp only [EventLoop.step, stepCalls, phase, Option.map_eq_some_iff, Option.bind_eq_bind,
    Option.bind_eq_some_iff, Option.guard_eq_some', Option.pure_def, Option.some.injEq] at returned
  obtain ⟨_, ⟨_, complete, rfl⟩, rfl⟩ := returned
  constructor
  · intro index old new below readOld wasOpen readable readNew
    exact (behind index (by omega) new readNew).2 old readOld wasOpen readable
  · intro index new below readNew
    exact (behind index (by omega) new readNew).1

/-- A server in front of its only connection, which is readable. -/
def readableEntry : Server :=
  ⟨3, ⟨[⟨0, 5, false, true, false⟩], 1, false⟩, ⟨{3, 5}, {3}, [(3, serverIndex), (5, 0)]⟩,
    .processing 0 1⟩

/-- A byte is received, then nothing; the file is not found, and the reply is sent. -/
def blockedScript : List Worker.Answer :=
  [.peek (.data [120]) [], .peek (.failed .again) [], .serve (fun _ => 0) [] .failed none,
    .send (.took 106)]

/-- The only connection stays open, and its socket would have blocked. -/
theorem no_readiness_is_dropped_blocked :
    ∃ pass after, Runs.Run Pass.round Runs.anywhere ⟨readableEntry, ⟨List.replicate 200 0, 0⟩, []⟩
        [blockedScript] pass ∧ EventLoop.step pass.server .finish = some after ∧
      after.connections.slots[0]? = some ⟨0, 5, false, false, false⟩ ∧
      ∃ calls, (0, calls) ∈ pass.rounds ∧
        Worker.lastReceipt calls = some (5, .failed .again) := by
  have computed : ((Pass.round ⟨readableEntry, ⟨List.replicate 200 0, 0⟩, []⟩ blockedScript).bind
      fun pass => (EventLoop.step pass.server .finish).map
        fun after => after.connections.slots[0]?) = some (some ⟨0, 5, false, false, false⟩) := by
    decide +kernel
  obtain ⟨pass, rounded, finished⟩ := Option.bind_eq_some_iff.mp computed
  obtain ⟨after, returned, slot⟩ := Option.map_eq_some_iff.mp finished
  have run : Runs.Run Pass.round Runs.anywhere ⟨readableEntry, ⟨List.replicate 200 0, 0⟩, []⟩
      [blockedScript] pass := .next .start trivial rounded
  refine ⟨pass, after, run, returned, slot, ?_⟩
  exact ((no_readiness_is_dropped rfl run returned).1 0 _ _ (by decide) rfl rfl rfl slot).resolve_left
    (by simp)

end VHttp
