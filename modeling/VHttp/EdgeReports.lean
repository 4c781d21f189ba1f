import VHttp.ReportedEvents
import VHttp.WholeServer

/-!
# No readiness is forgotten

A client is registered edge-triggered: what has arrived is reported once, and if the server then
leaves bytes in the socket, nothing reports them again. So at every moment somebody has to be
due to look at a socket that is ready: the kernel, with an edge to report; an event that is
still to be handled; or `ProcessEvents`, with a slot that is marked readable and still ahead.
Every step hands this duty on. The one that could drop it is the return of a worker, which
clears the mark of its slot: its receive loop was left where the socket would have blocked, and
what has arrived since then has left an edge.

Descriptor 1 is excepted, which the cleanup label of the worker closes for whoever has it. The
index of a registration has to be that of the slot, as `VHttp.ConnectionIndices` says when it
is.
-/

namespace VHttp

open EventLoop

namespace EventLoop

variable {before after : Server} {action : Action} {calls : List Syscall}

/-- The events whose readable stage is still to come. -/
def Phase.unread : Phase → List Event
  | .handling .write (_ :: rest) => rest
  | .handling _ pending => pending
  | _ => []

/-- `ProcessEvents` is still to come to the slot, before the next epoll_wait. -/
def Phase.Ahead (slot : Nat) : Phase → Prop
  | .waiting => False
  | .handling _ _ => True
  | .processing current _ => current ≤ slot

/-- The loop is due to call the worker for a slot: an event will mark it, or it is marked. -/
inductive Watched (server : Server) (slot : Nat) : Prop where
  | reported (event : Event) (member : event ∈ server.phase.unread) (index : event.index = slot)
      (readable : event.readable = true)
  | marked (connection : TcpConnection) (held : server.Holds slot connection)
      (readable : connection.readable = true) (later : server.phase.Ahead slot)

/-- `ProcessEvents` goes through all slots in use. -/
def Complete (server : Server) : Prop :=
  ∀ slot count, server.phase = .processing slot count → count = server.connections.count

/-- A client that is accepted overwrites no open connection. -/
theorem acceptClient_keeps {capacity descriptor slot : Nat} {connection : TcpConnection}
    (allocated : Allocated capacity before) (fresh : descriptor ∉ before.kernel.opened)
    {event : Event} {rest : List Event} (position : before.phase = .handling .read (event :: rest))
    (readable : event.readable = true) (listening : event.index = serverIndex)
    (handled : acceptClient before descriptor = some (after, calls))
    (held : before.Holds slot connection) (isOpen : connection.closed = false) :
    after.Holds slot connection := by
  have accepts : Accepts before (.read (some descriptor)) descriptor :=
    ⟨rfl, event, rest, position, readable, listening⟩
  have effect := (acceptClient_effect after.phase accepts fresh handled).2
  have stepped : stepCalls before (.read (some descriptor)) =
      some ({ after with phase := .handling .write (event :: rest) }, calls) := by
    simp [stepCalls, position, readable, listening, fresh, handled]
  have called : .accepted descriptor ∈ calls := accepts_calls accepts stepped
  cases effect with
  | reused _ target index old _ _ first read _ written _ =>
    obtain ⟨there, closed⟩ := firstClosed_some first read
    have different : slot ≠ target := by
      rintro rfl
      rw [Option.some.inj (there.2.symm.trans held.2), isOpen] at closed
      cases closed
    exact (holds_write written).mpr (Or.inr ⟨different, held⟩)
  | appended _ _ _ _ room written _ => exact (holds_push allocated room written).mpr (Or.inr held)
  | turnedAway _ _ _ _ _ sameConnections _ =>
    unfold Server.Holds
    rw [sameConnections]
    exact held
  | _ => simp at called

section Watched

variable {slot : Nat}

/-- Only the position in the loop has changed, and the slot's events and mark are still ahead. -/
theorem Watched.moved (watched : Watched before slot)
    (same : after.connections = before.connections)
    (unread : ∀ event ∈ before.phase.unread, event.index = slot → event.readable = true →
      event ∈ after.phase.unread)
    (ahead : before.phase.Ahead slot → after.phase.Ahead slot) : Watched after slot := by
  cases watched with
  | reported event member index readable =>
    exact .reported event (unread event member index readable) index readable
  | marked connection held readable later =>
    refine .marked connection ?_ readable (ahead later)
    unfold Server.Holds
    rw [same]
    exact held

/-- In epoll_wait no slot is ahead. -/
theorem Watched.busy (watched : Watched before slot) : before.phase ≠ .waiting := by
  intro waiting
  cases watched with
  | reported _ member _ _ => simp [waiting, Phase.unread] at member
  | marked _ _ _ later => simp [waiting, Phase.Ahead] at later

/-- A hang-up of another connection changes nothing for this one. -/
theorem Watched.hangUp {descriptor : Nat} (watched : Watched before slot)
    (taken : stepCalls before .hangUp = some (after, calls))
    (still : after.ServesAt slot descriptor) : Watched after slot := by
  simp only [stepCalls] at taken
  split at taken
  · rename_i event rest position
    simp only [Option.bind_eq_bind, Option.bind_eq_some_iff, Option.pure_def, Option.some.injEq,
      Prod.mk.injEq, Prod.exists] at taken
    obtain ⟨middle, _, handled, rfl, rfl⟩ := taken
    have sameUnread : before.phase.unread = event :: rest := by rw [position]; rfl
    unfold handleHangUp at handled
    by_cases reported : event.hangUp = true
    · simp only [reported, ↓reduceIte, Option.bind_eq_bind, Option.bind_eq_some_iff,
        Option.pure_def] at handled
      obtain ⟨old, read, handled⟩ := handled
      split at handled
      · simp only [Option.some.injEq, Prod.mk.injEq] at handled
        obtain ⟨rfl, rfl⟩ := handled
        exact watched.moved rfl (fun _ member _ _ => sameUnread ▸ member) (fun _ => trivial)
      · simp only [Option.some.injEq, Prod.mk.injEq] at handled
        obtain ⟨rfl, rfl⟩ := handled
        cases watched with
        | reported other member index readable =>
          exact .reported other (sameUnread ▸ member) index readable
        | marked connection held readable _ =>
          obtain ⟨_, there, isOpen, _⟩ := still
          have written : ({ before.write event.index { old with closed := true } with
              kernel := (before.kernel.removeFd old.fileDescriptor).close old.fileDescriptor
              phase := .handling .read (event :: rest) } : Server).connections =
            (before.write event.index { old with closed := true }).connections := rfl
          rcases (holds_write written).mp there with ⟨_, rfl, _⟩ | ⟨different, _⟩
          · cases isOpen
          · exact .marked connection ((holds_write written).mpr (Or.inr ⟨different, held⟩))
              readable trivial
    · simp only [reported, Bool.false_eq_true, ↓reduceIte, Option.pure_def, Option.some.injEq,
        Prod.mk.injEq] at handled
      obtain ⟨rfl, rfl⟩ := handled
      exact watched.moved rfl (fun _ member _ _ => sameUnread ▸ member) (fun _ => trivial)
  · cases taken

/-- A readable event of the slot marks it, and nothing takes a mark away. -/
theorem Watched.read {capacity descriptor : Nat} {accepted : Option Nat}
    (allocated : Allocated capacity before) (watched : Watched before slot)
    (taken : stepCalls before (.read accepted) = some (after, calls))
    (serves : before.ServesAt slot descriptor) (apart : slot ≠ serverIndex) :
    Watched after slot := by
  obtain ⟨connection, held, isOpen, _⟩ := serves
  simp only [stepCalls] at taken
  split at taken
  · rename_i event rest position
    have unread : ∀ other ∈ before.phase.unread, other = event ∨ other ∈ rest := by
      rw [position]
      exact fun other member => List.mem_cons.mp member
    by_cases readable : event.readable = true
    · simp only [readable, ↓reduceIte] at taken
      by_cases listening : event.index = serverIndex
      · have later : ∀ other ∈ before.phase.unread, other.index = slot → other.readable = true →
            other ∈ rest := by
          intro other member index _
          refine (unread other member).resolve_left ?_
          rintro rfl
          exact apart (index.symm.trans listening)
        simp only [listening, ↓reduceIte] at taken
        cases accepted with
        | none =>
          simp only [Option.pure_def, Option.some.injEq, Prod.mk.injEq] at taken
          obtain ⟨rfl, rfl⟩ := taken
          exact watched.moved rfl later (fun _ => trivial)
        | some client =>
          simp only [Option.bind_eq_bind, Option.bind_eq_some_iff, Option.guard_eq_some',
            Option.pure_def, Option.some.injEq, Prod.mk.injEq, Prod.exists] at taken
          obtain ⟨_, fresh, middle, _, handled, rfl, rfl⟩ := taken
          cases watched with
          | reported other member index isReadable =>
            exact .reported other (later other member index isReadable) index isReadable
          | marked other there isReadable _ =>
            obtain rfl : other = connection := Option.some.inj (there.2.symm.trans held.2)
            have kept := acceptClient_keeps allocated fresh position readable listening handled held
              isOpen
            exact .marked other ⟨kept.1, kept.2⟩ isReadable trivial
      · simp only [listening, ↓reduceIte, Option.bind_eq_bind, Option.bind_eq_some_iff,
          Option.pure_def, Option.some.injEq, Prod.mk.injEq] at taken
        obtain ⟨old, read, rfl, rfl⟩ := taken
        have written : ({ before.write event.index { old with readable := true } with
            phase := .handling .write (event :: rest) } : Server).connections =
          (before.write event.index { old with readable := true }).connections := rfl
        by_cases here : slot = event.index
        · have marks := (holds_write written).mpr (Or.inl ⟨here, rfl, connection, here ▸ held⟩)
          exact .marked _ marks rfl trivial
        · cases watched with
          | reported other member index isReadable =>
            refine .reported other ((unread other member).resolve_left ?_) index isReadable
            rintro rfl
            exact here index.symm
          | marked other there isReadable _ =>
            exact .marked other ((holds_write written).mpr (Or.inr ⟨here, there⟩)) isReadable trivial
    · simp only [readable, Bool.false_eq_true, ↓reduceIte, Option.pure_def, Option.some.injEq,
        Prod.mk.injEq] at taken
      obtain ⟨rfl, rfl⟩ := taken
      refine watched.moved rfl ?_ (fun _ => trivial)
      intro other member _ isReadable
      refine (unread other member).resolve_left ?_
      rintro rfl
      exact readable isReadable
  · cases taken

/-- A writable event changes neither events nor marks. -/
theorem Watched.write (watched : Watched before slot)
    (taken : stepCalls before .write = some (after, calls)) : Watched after slot := by
  simp only [stepCalls] at taken
  split at taken
  · rename_i event rest position
    have unread : before.phase.unread = rest := by rw [position]; rfl
    by_cases writable : event.writable = true
    · simp only [writable, ↓reduceIte, Option.bind_eq_bind, Option.bind_eq_some_iff,
        Option.pure_def, Option.some.injEq, Prod.mk.injEq] at taken
      obtain ⟨old, read, rfl, rfl⟩ := taken
      have written : ({ before.write event.index { old with writable := true } with
          phase := .handling .hangUp rest } : Server).connections =
        (before.write event.index { old with writable := true }).connections := rfl
      cases watched with
      | reported other member index readable =>
        exact .reported other (unread ▸ member) index readable
      | marked connection held readable _ =>
        by_cases here : slot = event.index
        · obtain rfl : connection = old := Option.some.inj (held.2.symm.trans (here ▸ read))
          have marks := (holds_write written).mpr (Or.inl ⟨here, rfl, connection, here ▸ held⟩)
          exact .marked _ marks readable trivial
        · exact .marked connection ((holds_write written).mpr (Or.inr ⟨here, held⟩)) readable trivial
    · simp only [writable, Bool.false_eq_true, ↓reduceIte, Option.pure_def, Option.some.injEq,
        Prod.mk.injEq] at taken
      obtain ⟨rfl, rfl⟩ := taken
      exact watched.moved rfl (fun _ member _ _ => unread ▸ member) (fun _ => trivial)
  · cases taken

/-- The round of another slot leaves this one as it is. -/
theorem Watched.serve {outcome : Outcome} {current count : Nat} (watched : Watched before slot)
    (position : before.phase = .processing current count) (other : slot ≠ current)
    (taken : EventLoop.step before (.serve outcome) = some after) : Watched after slot := by
  obtain ⟨phase, sameCount, kept, _⟩ := serve_slot position taken
  cases watched with
  | reported event member _ _ => simp [position, Phase.unread] at member
  | marked connection held readable later =>
    rw [position] at later
    refine .marked connection ⟨sameCount ▸ held.1, (kept slot other).trans held.2⟩ readable ?_
    rw [phase]
    exact Nat.lt_of_le_of_ne later (Ne.symm other)

/-- A step of the loop hands on every slot it is due to look at, and leaves none behind when it
goes back to epoll_wait. Of a round this is said for the other slots only. -/
theorem Watched.step {capacity descriptor : Nat} (allocated : Allocated capacity before)
    (complete : Complete before) (watched : Watched before slot)
    (taken : stepCalls before action = some (after, calls))
    (serves : before.ServesAt slot descriptor) (still : after.ServesAt slot descriptor)
    (apart : slot ≠ serverIndex)
    (elsewhere : ∀ outcome current count, action = .serve outcome →
      before.phase = .processing current count → slot ≠ current) : Watched after slot := by
  cases action with
  | wait reports =>
    simp only [stepCalls, Option.bind_eq_bind, Option.bind_eq_some_iff, Option.guard_eq_some',
      Option.pure_def, Option.some.injEq, Prod.mk.injEq] at taken
    obtain ⟨_, ⟨waiting, _⟩, _⟩ := taken
    exact absurd waiting watched.busy
  | hangUp => exact watched.hangUp taken still
  | read accepted => exact watched.read allocated taken serves apart
  | write => exact watched.write taken
  | process =>
    simp only [stepCalls] at taken
    split at taken
    · rename_i position
      simp only [Option.pure_def, Option.some.injEq, Prod.mk.injEq] at taken
      obtain ⟨rfl, rfl⟩ := taken
      refine watched.moved rfl (fun event member => ?_) (fun _ => Nat.zero_le slot)
      simp [position, Phase.unread] at member
    · cases taken
  | serve outcome =>
    have stepped : EventLoop.step before (.serve outcome) = some after := by
      rw [EventLoop.step, taken]
      rfl
    cases position : before.phase with
    | processing current count =>
      exact watched.serve position (elsewhere outcome current count rfl position) stepped
    | _ => simp [stepCalls, position] at taken
  | finish =>
    simp only [stepCalls] at taken
    split at taken
    · rename_i current count position
      simp only [Option.bind_eq_bind, Option.bind_eq_some_iff, Option.guard_eq_some',
        Option.pure_def, Option.some.injEq, Prod.mk.injEq] at taken
      obtain ⟨_, past, rfl, rfl⟩ := taken
      cases watched with
      | reported event member _ _ => simp [position, Phase.unread] at member
      | marked connection held _ later =>
        rw [position] at later
        have all := complete current count position
        have below := held.1
        have reached : current ≤ slot := later
        omega
    · cases taken

/-- The slots that `ProcessEvents` goes through stay the slots in use. -/
theorem Complete.step (complete : Complete before)
    (taken : stepCalls before action = some (after, calls)) : Complete after := by
  intro current count position
  cases action with
  | process =>
    simp only [stepCalls] at taken
    split at taken
    · simp only [Option.pure_def, Option.some.injEq, Prod.mk.injEq] at taken
      obtain ⟨rfl, rfl⟩ := taken
      simp only [Phase.processing.injEq] at position
      exact position.2.symm
    · cases taken
  | serve outcome =>
    have stepped : EventLoop.step before (.serve outcome) = some after := by
      rw [EventLoop.step, taken]
      rfl
    cases earlier : before.phase with
    | processing slot total =>
      obtain ⟨phase, sameCount, _⟩ := serve_slot earlier stepped
      rw [phase, Phase.processing.injEq] at position
      rw [sameCount, ← position.2]
      exact complete slot total earlier
    | _ => simp [stepCalls, earlier] at taken
  | wait _ | hangUp | read _ | write | finish =>
    have moves := step_advances taken
    rw [position] at moves
    cases moves

end Watched

end EventLoop

namespace Worker

variable {worker after : Worker} {answer : Answer}

/-- A worker that answers has been answering, or its last recv would have blocked. -/
theorem leaves_blocked (stepped : worker.step answer = some after)
    (answering : after.phase.Answering) :
    worker.phase.Answering ∨
      (∃ behind, worker.phase = .peeking ∧ answer = .peek (.failed .again) behind) ∨
      ∃ size, worker.phase = .discarding size ∧ answer = .discard (.failed .again) := by
  have cleaned : ∀ other : Worker, ¬ other.cleanup.phase.Answering := fun _ => id
  have refused : ∀ other : Worker, other.refuse = some after → False := by
    intro other refuses
    rw [(refuse_cases refuses).1] at answering
    exact answering
  have failed : ∀ (other : Worker) (errno : Errno), other.receiveFailed errno = some after →
      errno = .again := by
    intro other errno fails
    cases errno with
    | again => rfl
    | dead => exact absurd (Option.some.inj fails ▸ answering) (cleaned _)
    | other => exact absurd (Option.some.inj fails ▸ answering) (cleaned _)
  cases step_taken stepped with
  | looping inLoop _ _ =>
    cases phase : worker.phase with
    | peeking =>
      obtain ⟨result, behind, rfl, peeked⟩ := step_peeking phase stepped
      refine Or.inr (Or.inl ⟨behind, rfl, ?_⟩)
      cases result with
      | failed errno => rw [failed _ errno peeked]
      | data bytes =>
        cases bytes with
        | nil => exact absurd (Option.some.inj peeked ▸ answering) (cleaned _)
        | cons byte bytes =>
          simp only [peek, Option.bind_eq_bind, Option.bind_eq_some_iff] at peeked
          obtain ⟨_, _, block, _, searched⟩ := peeked
          rcases search_cases searched with ⟨_, _, _, rfl⟩ | rfl | refuses
          · exact absurd answering id
          · simp [log, phase, Phase.Answering] at answering
          · exact (refused _ refuses).elim
    | discarding size =>
      obtain ⟨result, rfl, discarded⟩ := step_discarding phase stepped
      refine Or.inr (Or.inr ⟨size, rfl, ?_⟩)
      cases result with
      | failed errno => rw [failed _ errno discarded]
      | data bytes =>
        simp only [discard, Option.bind_eq_bind, Option.bind_eq_some_iff, Option.pure_def,
          Option.some.injEq] at discarded
        obtain ⟨_, _, rfl⟩ := discarded
        exact absurd answering id
    | parsing =>
      obtain ⟨result, rfl, parsed⟩ := step_parsing phase stepped
      simp only [parse, Option.bind_eq_bind, Option.bind_eq_some_iff, Option.pure_def] at parsed
      obtain ⟨_, _, parsed⟩ := parsed
      split at parsed
      · split at parsed
        · obtain rfl := Option.some.inj parsed
          exact absurd answering id
        · obtain rfl := Option.some.inj parsed
          exact absurd answering id
      · exact (refused _ parsed).elim
    | receivingBody =>
      unfold Worker.step at stepped
      rw [phase] at stepped
      cases answer with
      | body fresh result =>
        obtain rfl := Option.some.inj stepped
        exact absurd answering id
      | _ => cases stepped
    | _ => simp [phase, Phase.InLoop] at inLoop
  | refusing _ step =>
    obtain ⟨_, _, _, _, _, cleanedUp, _⟩ := sendRefusal_cases step
    rw [cleanedUp] at answering
    exact absurd answering id
  | serving phase _ | sending phase _ | sendingFile phase _ =>
    rw [phase]
    exact Or.inl trivial

end Worker

namespace WholeServer

variable {before after : WholeServer} {event : ServerEvent}

/-- Somebody is due to look at the socket of a slot: the kernel has an edge to report, or the
loop will call the worker. -/
def Noticed (state : WholeServer) (slot descriptor : Nat) : Prop :=
  (state.sockets descriptor).edge = true ∨ Watched state.server slot

/-- The conditions under which readiness is followed: what the kernel promises, and the accepts
that register clients under their slots. -/
def Admitted (state : WholeServer) (event : ServerEvent) : Prop :=
  Promised state event ∧ Loops IndexKept state event

/-- Every open connection whose socket is ready is noticed. A worker that has left its receive
loop has emptied its socket, up to what has left an edge since. -/
structure Vigilant (state : WholeServer) : Prop where
  noticed : ∀ slot descriptor, state.server.ServesAt slot descriptor → descriptor ≠ 1 →
    (state.sockets descriptor).Ready → Noticed state slot descriptor
  drained : ∀ worker, state.working = some worker → worker.phase.Answering →
    (state.sockets worker.fileDescriptor).Ready →
      (state.sockets worker.fileDescriptor).edge = true
  complete : Complete state.server

/-- Taking bytes off a socket makes none ready. -/
theorem ready_of_drop {socket : Socket} {count : Nat}
    (ready : Socket.Ready { socket with waiting := socket.waiting.drop count }) : socket.Ready := by
  refine ready.imp_left fun left empty => left ?_
  simp [empty]

/-- Every report that is fetched is an event of the batch. -/
theorem mapM_eventOf_forward {kernel : Kernel} {reports : List Report}
    {events : List EventLoop.Event} (fetched : reports.mapM (eventOf kernel) = some events) :
    ∀ report ∈ reports, ∃ event ∈ events, eventOf kernel report = some event := by
  induction reports generalizing events with
  | nil => simp
  | cons report rest inductionHypothesis =>
    simp only [List.mapM_cons, Option.bind_eq_bind, Option.bind_eq_some_iff, Option.pure_def,
      Option.some.injEq] at fetched
    obtain ⟨first, fetchedFirst, later, fetchedLater, rfl⟩ := fetched
    intro other member
    rcases List.mem_cons.mp member with rfl | behind
    · exact ⟨first, List.mem_cons_self, fetchedFirst⟩
    · obtain ⟨event, present, same⟩ := inductionHypothesis fetchedLater other behind
      exact ⟨event, List.mem_cons_of_mem _ present, same⟩

/-- What the event loop keeps beside, in a run under the condition on indices. -/
structure Sided (capacity : Nat) (server : Server) : Prop where
  allocated : Allocated capacity server
  positioned : Positioned server
  tracked : Tracked server.kernel
  indexed : Indexed server

/-- A ready socket stays noticed when a peer sends or closes. -/
theorem Noticed.peer {state : WholeServer} {slot descriptor changed : Nat} {socket : Socket}
    (noticed : descriptor ≠ changed → Noticed state slot descriptor) (edge : socket.edge = true) :
    Noticed (state.setSocket changed socket) slot descriptor := by
  by_cases here : descriptor = changed
  · exact Or.inl (by simp [setSocket, here, edge])
  · refine (noticed here).imp_left fun pending => ?_
    simpa [setSocket, here] using pending

/-- A peer that sends or closes leaves an edge. -/
theorem Vigilant.peer {state : WholeServer} (vigilant : Vigilant state) (changed : Nat)
    (socket : Socket) (edge : socket.edge = true) : Vigilant (state.setSocket changed socket) := by
  refine ⟨fun slot descriptor serves apart ready => ?_, fun worker working answering ready => ?_,
    vigilant.complete⟩
  · refine Noticed.peer (fun other => vigilant.noticed slot descriptor serves apart ?_) edge
    simpa [setSocket, other] using ready
  · by_cases here : worker.fileDescriptor = changed
    · simp [setSocket, here, edge]
    · have same : (state.setSocket changed socket).sockets worker.fileDescriptor =
          state.sockets worker.fileDescriptor := if_neg here
      rw [same] at ready ⊢
      exact vigilant.drained worker working answering ready

/-- accept returns a descriptor that is not open. -/
theorem accepted_fresh {server after : Server} {action : Action} {calls : List Syscall}
    {descriptor : Nat} (effect : EventLoop.Effect server action after calls)
    (accepted : .accepted descriptor ∈ calls) : descriptor ∉ server.kernel.opened := by
  cases effect with
  | reused _ _ _ _ _ fresh _ _ _ _ _ =>
    obtain rfl := by simpa using accepted
    exact fresh
  | appended _ _ fresh _ _ _ _ =>
    obtain rfl := by simpa using accepted
    exact fresh
  | turnedAway _ _ fresh _ _ _ _ =>
    obtain rfl := by simpa using accepted
    exact fresh
  | _ => simp at accepted

/-- Of the socket of an open descriptor the loop changes the edge alone, when it is reported. -/
theorem socketsAfter_cases {server after : Server} {action : Action} {calls : List Syscall}
    {descriptor : Nat} (effect : EventLoop.Effect server action after calls)
    (isOpen : descriptor ∈ server.kernel.opened) (sockets : Nat → Socket) (client : Socket) :
    socketsAfter sockets calls client action descriptor = sockets descriptor ∨
      ∃ reports, action = .wait reports ∧ (∃ report ∈ reports, report.descriptor = descriptor) ∧
        socketsAfter sockets calls client action descriptor =
          { sockets descriptor with edge := false } := by
  cases action with
  | wait reports =>
    by_cases reported : descriptor ∈ reports.map Report.descriptor
    · exact Or.inr ⟨reports, rfl, List.mem_map.mp reported, if_pos reported⟩
    · exact Or.inl (if_neg reported)
  | read accepted =>
    cases accepted with
    | none => exact Or.inl rfl
    | some new =>
      refine Or.inl (if_neg ?_)
      rintro ⟨rfl, called⟩
      exact accepted_fresh effect called isOpen
  | _ => exact Or.inl rfl

/-- A step of the loop hands on every ready socket: an edge becomes an event of its slot, an
event a mark, and a mark stays until the worker is called. A client begins with an edge. -/
theorem Vigilant.loops {capacity : Nat} {action : Action} {client : Socket} {server : Server}
    {calls : List Syscall} (vigilant : Vigilant before) (sided : Sided capacity before.server)
    (promised : Promised before (.loops action client)) (idle : before.working = none)
    (none_due : due before.server = none)
    (stepped : stepCalls before.server action = some (server, calls)) :
    Vigilant { before with
      server := server
      sockets := socketsAfter before.sockets calls client action } := by
  obtain ⟨allocated, positioned, tracked, indexed⟩ := sided
  obtain ⟨_, effect, _⟩ := EventLoop.step_effect stepped
  refine ⟨fun slot descriptor serves apart ready => ?_, by simp [idle],
    vigilant.complete.step stepped⟩
  cases effect.stays allocated positioned serves with
  | accepted index accepts _ _ _ =>
    have called := accepts_calls accepts stepped
    obtain ⟨rfl, _⟩ := accepts
    have begins : socketsAfter before.sockets calls client (.read (some descriptor)) descriptor =
        { client with edge := decide client.Ready } := if_pos ⟨rfl, called⟩
    refine Or.inl ?_
    simp only [begins] at ready ⊢
    exact decide_eq_true ready
  | served served _ =>
    obtain ⟨present, reachable⟩ := indexed.addressed slot descriptor served apart
    have watches : Watched before.server slot → Watched server slot := by
      intro watched
      refine watched.step allocated vigilant.complete stepped served serves reachable ?_
      rintro outcome current count rfl position rfl
      -- a marked slot that `ProcessEvents` has come to would be due
      cases watched with
      | reported event member _ _ => simp [position, Phase.unread] at member
      | marked connection held readable _ =>
        obtain ⟨other, there, isOpen, _⟩ := served
        obtain rfl : connection = other := Option.some.inj (held.2.symm.trans there.2)
        have below := vigilant.complete slot count position ▸ held.1
        rw [not_due none_due position below held.2 isOpen] at readable
        cases readable
    rcases socketsAfter_cases effect (tracked.lookup present) before.sockets client with
      same | ⟨reports, rfl, ⟨report, member, reports_it⟩, same⟩
    · simp only [same] at ready
      exact (vigilant.noticed slot descriptor served apart ready).imp
        (fun pending => by simpa only [same] using pending) watches
    · simp only [same] at ready
      rcases vigilant.noticed slot descriptor served apart ready with pending | watched
      · simp only [stepCalls, Option.bind_eq_bind, Option.bind_eq_some_iff, Option.pure_def,
          Option.some.injEq, Prod.mk.injEq] at stepped
        obtain ⟨_, _, events, fetched, rfl, _⟩ := stepped
        obtain ⟨event, fetchedHere, made⟩ := mapM_eventOf_forward fetched report member
        rw [eventOf, reports_it, present] at made
        obtain rfl := Option.some.inj made
        exact Or.inr (.reported _ fetchedHere rfl
          (promised report member (reports_it ▸ pending)))
      · exact Or.inr (watches watched)

/-- A worker that takes bytes off its socket leaves the rest to the mark of its slot. -/
theorem Vigilant.answers {answer : Worker.Answer} {worker next : Worker}
    (vigilant : Vigilant before) (promised : Promised before (.answers answer))
    (working : before.working = some worker) (stepped : worker.step answer = some next) :
    Vigilant { before.setSocket worker.fileDescriptor
        { before.sockets worker.fileDescriptor with
          waiting := (before.sockets worker.fileDescriptor).waiting.drop answer.taken.length } with
      working := some next } := by
  refine ⟨fun slot descriptor serves apart ready => ?_, ?_, vigilant.complete⟩
  · by_cases here : descriptor = worker.fileDescriptor
    · subst here
      simp only [setSocket, ↓reduceIte] at ready
      refine (vigilant.noticed slot _ serves apart (ready_of_drop ready)).imp_left fun pending => ?_
      simpa [setSocket] using pending
    · simp only [setSocket, here, ↓reduceIte] at ready
      refine (vigilant.noticed slot _ serves apart ready).imp_left fun pending => ?_
      simpa [setSocket, here] using pending
  · rintro other ⟨⟩ answering ready
    simp only [Worker.step_descriptor stepped, setSocket, ↓reduceIte] at ready ⊢
    have full := ready_of_drop ready
    rcases Worker.leaves_blocked stepped answering with earlier | ⟨behind, phase, rfl⟩ |
      ⟨size, phase, rfl⟩
    · exact vigilant.drained worker working earlier full
    · have blocked := promised worker working
      simp only [Socket.Answers, phase] at blocked
      exact absurd full blocked
    · have blocked := promised worker working
      simp only [Socket.Answers, phase] at blocked
      exact absurd full blocked

/-- A worker that returns clears the mark of its slot, behind a socket that is empty or has an
edge; one that cleans up has closed its connection. -/
theorem Vigilant.returns {capacity : Nat} {worker : Worker} {outcome : Outcome} {server : Server}
    (vigilant : Vigilant before) (sided : Sided capacity before.server) (called : Called before)
    (working : before.working = some worker) (ended : worker.outcome = some outcome)
    (stepped : EventLoop.step before.server (.serve outcome) = some server) :
    Vigilant { before with server := server, shared := worker.shared, working := none } := by
  obtain ⟨calls, made⟩ := step_calls stepped
  obtain ⟨_, effect, _⟩ := EventLoop.step_effect made
  obtain ⟨connection, isDue, sameDescriptor⟩ := called.descriptor working
  obtain ⟨current, count, position, below, read, wasOpen, wasReadable⟩ := due_spec isDue
  obtain ⟨_, _, _, old, new, readOld, readNew, _, cleans⟩ := serve_slot position stepped
  obtain rfl : connection = old := Option.some.inj (read.symm.trans readOld)
  refine ⟨fun slot descriptor serves apart ready => ?_, by simp, vigilant.complete.step made⟩
  cases effect.stays sided.allocated sided.positioned serves with
  | accepted index accepts _ _ _ => cases accepts.1
  | served served _ =>
    by_cases here : slot = current
    · subst here
      obtain ⟨now, ⟨_, readNow⟩, stillOpen, _⟩ := serves
      obtain rfl : new = now := Option.some.inj (readNew.symm.trans readNow)
      obtain ⟨held, ⟨_, there⟩, _, rfl⟩ := served
      obtain rfl : held = connection := Option.some.inj (there.symm.trans read)
      refine Or.inl ?_
      unfold Worker.outcome at ended
      split at ended
      · rename_i returned
        have answering : worker.phase.Answering := by
          rw [returned]
          trivial
        rw [← sameDescriptor] at ready ⊢
        exact vigilant.drained worker working answering ready
      · have closed := cleans wasOpen wasReadable _ (Option.some.inj ended).symm
        rw [stillOpen] at closed
        cases closed
      · cases ended
    · exact (vigilant.noticed slot descriptor served apart ready).imp_right
        fun watched => watched.serve position here stepped

theorem start_vigilant (capacity listener : Nat) (own : Finset Nat) :
    Vigilant (start capacity listener own) := by
  refine ⟨?_, by simp [start], by simp [start, EventLoop.start, Complete]⟩
  rintro slot descriptor ⟨connection, ⟨below, _⟩, _⟩
  exact absurd below (Nat.not_lt_zero _)

/-- Beside the sockets, such a run is one of the event loop. -/
theorem run_sided {capacity listener : Nat} {own : Finset Nat} (listening : listener ∈ own)
    {trace : List ServerEvent} {state : WholeServer}
    (run : Runs.Run step Admitted (start capacity listener own) trace state) :
    Sided capacity state.server := by
  have serving : ∀ server outcome, IndexKept server (.serve outcome) := by
    rintro server outcome descriptor ⟨other, _⟩
    cases other
  obtain ⟨actions, ran⟩ := run_server serving (fun _ _ admitted => admitted.2) run
  exact ⟨run_allocated ran, run_positioned ran, run_tracked listening ran, run_indexed listening ran⟩

theorem run_vigilant {capacity listener : Nat} {own : Finset Nat} (listening : listener ∈ own)
    {trace : List ServerEvent} {state : WholeServer}
    (run : Runs.Run step Admitted (start capacity listener own) trace state) : Vigilant state := by
  apply run.induct (fun _ reached => Vigilant reached) (start_vigilant _ _ _)
  intro trace before event after earlier vigilant admitted taken
  have sided := run_sided listening earlier
  cases step_effect taken with
  | arrives descriptor bytes => exact vigilant.peer descriptor _ rfl
  | finishes descriptor => exact vigilant.peer descriptor _ rfl
  | loops action client server calls idle none_due stepped =>
    exact vigilant.loops sided admitted.1 idle none_due stepped
  | calls connection idle isDue =>
    refine ⟨vigilant.noticed, ?_, vigilant.complete⟩
    rintro worker ⟨⟩ answering
    exact absurd answering id
  | answers answer worker next working stepped =>
    exact vigilant.answers admitted.1 working stepped
  | returns worker outcome server working ended stepped =>
    exact vigilant.returns sided (run_called earlier) working ended stepped

/-- In every run of the whole server, with peers that send and close between any two steps and
whatever recv, send and the files answer: a socket that is ready, of an open connection on
another descriptor than 1, has an edge to report, or the loop is due to call the worker for it.
Once the worker that is called for it has left its receive loop for an answer, the socket has an
edge. So whenever the loop is in epoll_wait, the socket has an edge, and its report will name the
slot of its connection.

Where a duty is handed on, the step is one of the loop; the return of a worker is the only step
that ends one, and it ends it behind a recv that would have blocked. -/
theorem no_readiness_is_forgotten {capacity listener : Nat} {own : Finset Nat}
    (listening : listener ∈ own) {trace : List ServerEvent} {state : WholeServer}
    (run : Runs.Run step Admitted (start capacity listener own) trace state)
    {slot descriptor : Nat} (serves : state.server.ServesAt slot descriptor)
    (apart : descriptor ≠ 1) (ready : (state.sockets descriptor).Ready) :
    Noticed state slot descriptor ∧
      (∀ worker, state.working = some worker → worker.fileDescriptor = descriptor →
        worker.phase.Answering → (state.sockets descriptor).edge = true) ∧
      (state.server.phase = .waiting → (state.sockets descriptor).edge = true ∧
        state.server.kernel.registered.lookup descriptor = some slot ∧ slot ≠ serverIndex) := by
  have vigilant := run_vigilant listening run
  have noticed := vigilant.noticed slot descriptor serves apart ready
  refine ⟨noticed, ?_, fun waiting => ⟨?_, (run_sided listening run).indexed.addressed slot
    descriptor serves apart⟩⟩
  · rintro worker working rfl answering
    exact vigilant.drained worker working answering ready
  · rcases noticed with edge | watched
    · exact edge
    · exact absurd waiting watched.busy

/-- Steps of the loop that accept nobody are admitted where no edge is reported wrongly. -/
theorem admitted_loops {state : WholeServer} {action : Action} {client : Socket}
    (promised : Promised state (.loops action client))
    (accepts : ∀ descriptor, action ≠ .read (some descriptor)) :
    Admitted state (.loops action client) := by
  refine ⟨promised, ?_⟩
  rintro descriptor ⟨same, _⟩
  exact absurd same (accepts descriptor)

/-- The loop in epoll_wait, with a client on descriptor 5. -/
def connected : Server :=
  ⟨3, ⟨[⟨0, 5, false, false, false⟩, .zero], 1, false⟩,
    ⟨{5, 3}, {3}, [(3, serverIndex), (5, 0)]⟩, .waiting⟩

/-- The loop comes there from its start. -/
theorem run_connected : ∃ trace sockets, Runs.Run step Admitted (start 2 3 {3}) trace
      ⟨connected, Worker.Shared.start, sockets, none⟩ ∧ sockets 5 = .quiet := by
  have reported : Promised (start 2 3 {3}) (.loops (.wait [⟨3, false, true, false⟩]) .quiet) := by
    intro report member edge
    cases edge
  have waits : Runs.Run step Admitted (start 2 3 {3})
      ([] ++ [.loops (.wait [⟨3, false, true, false⟩]) .quiet]) _ :=
    Runs.Run.start.next (admitted_loops reported (by simp)) rfl
  have handles := waits.take (.loops .hangUp .quiet) (admitted_loops trivial (by simp)) rfl
  have kept : IndexKept { EventLoop.start 2 3 {3} with
      phase := .handling .read [⟨9999, false, true, false⟩] } (.read (some 5)) := by
    intro descriptor _ slot chosen
    obtain rfl : 0 = slot := Option.some.inj chosen
    exact ⟨by decide, fun _ => rfl⟩
  have accepts := handles.take (.loops (.read (some 5)) .quiet) ⟨trivial, kept⟩ rfl
  have writes := accepts.take (.loops .write .quiet) (admitted_loops trivial (by simp)) rfl
  have processes := writes.take (.loops .process .quiet) (admitted_loops trivial (by simp)) rfl
  have serves := processes.take (.loops (.serve (.returned none)) .quiet)
    (admitted_loops trivial (by simp)) rfl
  have run := serves.take (.loops .finish .quiet) (admitted_loops trivial (by simp)) rfl
  refine ⟨_, _, run, ?_⟩
  rfl

/-- That client sends a byte. -/
theorem no_readiness_is_forgotten_byte : ∃ trace state,
    Runs.Run step Admitted (start 2 3 {3}) trace state ∧ state.server.phase = .waiting ∧
      (state.sockets 5).waiting = [71] ∧ (state.sockets 5).edge = true ∧
      state.server.kernel.registered.lookup 5 = some 0 := by
  obtain ⟨_, sockets, reached, quiet⟩ := run_connected
  have run := reached.take (.arrives 5 [71]) ⟨trivial, trivial⟩ rfl
  obtain ⟨_, _, atWait⟩ := no_readiness_is_forgotten (by decide) run
    (show connected.ServesAt 0 5 from ⟨⟨0, 5, false, false, false⟩, ⟨by decide, rfl⟩, rfl, rfl⟩)
    (by decide) (Or.inl (by simp [setSocket]))
  obtain ⟨edge, lookup, _⟩ := atWait rfl
  exact ⟨_, _, run, rfl, by simp [setSocket, quiet, Socket.quiet], edge, lookup⟩

end WholeServer

end VHttp
