import Mathlib.Data.Finset.Basic
import VHttp.VArray

/-!
# The event loop of main.c

One iteration waits for a batch of events, takes the events in order, and then
lets `ProcessEvents` serve the readable connections. An event is handled in three
stages, one for each `if` of the loop body: hang-up, readable, writable. Stages
and rounds are single steps here, so that a run is any order of accepts, hang-ups,
readable events and worker outcomes the kernel can produce.

The kernel side is the set of open descriptors of the process and the interest
list of the epoll instance. Closing a descriptor drops its registration. accept
returns a descriptor that is not open, or fails; registering succeeds. The
listening socket is registered for readability only and is never shut down, so
nothing else is reported for it.

Of a connection the loop uses the fields kept below. The worker is represented by
how it returns and by the file it may leave open, since the sendfile path never
closes what it opened. Socket options have no part in the control flow and are left
out. A step that has no result cannot be taken, or would read outside the
connection array.
-/

namespace VHttp.EventLoop

/-- `tcp_connection`: the index kept in the slot, its descriptor and its flags. -/
structure TcpConnection where
  id : Nat
  fileDescriptor : Nat
  writable : Bool
  readable : Bool
  closed : Bool
  deriving DecidableEq

/-- A connection slot as calloc leaves it, and the `{0}` of a new client. -/
def TcpConnection.zero : TcpConnection := ⟨0, 0, false, false, false⟩

/-- The process's open descriptors, those of them that it opened for itself, and the
epoll interest list, which maps a descriptor to the index it was registered with. No
branch reads the middle field; it tells what belongs to no connection. -/
structure Kernel where
  opened : Finset Nat
  own : Finset Nat
  registered : List (Nat × Nat)
  deriving DecidableEq

/-- close(2): the descriptor is free again, and so is no longer registered. A
descriptor that is not open is left alone. -/
def Kernel.close (kernel : Kernel) (descriptor : Nat) : Kernel :=
  { kernel with
    opened := kernel.opened.erase descriptor
    registered := kernel.registered.filter (fun entry => decide (entry.1 ≠ descriptor)) }

/-- accept(2): the client's descriptor is open. -/
def Kernel.accept (kernel : Kernel) (descriptor : Nat) : Kernel :=
  { kernel with opened := insert descriptor kernel.opened }

/-- A file that the worker opens and leaves open belongs to the process. -/
def Kernel.openFile (kernel : Kernel) : Option Nat → Kernel
  | none => kernel
  | some descriptor =>
    { kernel with
      opened := insert descriptor kernel.opened
      own := insert descriptor kernel.own }

/-- `VEpoll_AddFd`. -/
def Kernel.addFd (kernel : Kernel) (descriptor index : Nat) : Kernel :=
  { kernel with registered := kernel.registered ++ [(descriptor, index)] }

/-- `VEpoll_RemoveFd`. -/
def Kernel.removeFd (kernel : Kernel) (descriptor : Nat) : Kernel :=
  { kernel with
    registered := kernel.registered.filter (fun entry => decide (entry.1 ≠ descriptor)) }

/-- What epoll_wait reports of a registered descriptor: EPOLLHUP or EPOLLRDHUP,
EPOLLIN, EPOLLOUT. -/
structure Report where
  descriptor : Nat
  hangUp : Bool
  readable : Bool
  writable : Bool
  deriving DecidableEq

/-- An event as the loop sees it: the registered index and the flags. -/
structure Event where
  index : Nat
  hangUp : Bool
  readable : Bool
  writable : Bool
  deriving DecidableEq

/-- The stages of one event's handling. -/
inductive Stage where
  | hangUp
  | read
  | write
  deriving DecidableEq

/-- Where the loop stands: in epoll_wait, at a stage of the first pending event,
or in front of a slot in `ProcessEvents`, which took the count once. -/
inductive Phase where
  | waiting
  | handling (stage : Stage) (pending : List Event)
  | processing (slot count : Nat)
  deriving DecidableEq

/-- The server, its kernel state and the loop's position. -/
structure Server where
  listener : Nat
  connections : VArray TcpConnection
  kernel : Kernel
  phase : Phase
  deriving DecidableEq

/-- System calls that change descriptors or answer a refused client. -/
inductive Syscall where
  | accepted (descriptor : Nat)
  | added (descriptor index : Nat)
  | removed (descriptor : Nat)
  | refused (descriptor : Nat)
  | closed (descriptor : Nat)
  deriving DecidableEq

/-- How `EpollHttpWorker` returns, normally or through its cleanup label, and the
file it leaves open. -/
inductive Outcome where
  | returned (file : Option Nat)
  | cleanup (file : Option Nat)
  deriving DecidableEq

/-- The file left open. -/
def Outcome.file : Outcome → Option Nat
  | .returned file => file
  | .cleanup file => file

/-- One step of the loop with what the environment chooses for it. -/
inductive Action where
  | wait (reports : List Report)
  | hangUp
  | read (accepted : Option Nat)
  | write
  | process
  | serve (outcome : Outcome)
  | finish
  deriving DecidableEq

/-- The index under which `main` registers the listening socket. -/
def serverIndex : Nat := 9999

/-- `MAX_EPOLL_EVENTS`. -/
def maxEpollEvents : Nat := 128

/-- The state before the first epoll_wait: `own` are the descriptors the process
has open, the listening socket among them. -/
def start (capacity listener : Nat) (own : Finset Nat) : Server :=
  ⟨listener, VArray.init capacity TcpConnection.zero false,
    ⟨own, own, [(listener, serverIndex)]⟩, .waiting⟩

/-- Replace one slot of the connection array. -/
def Server.write (server : Server) (slot : Nat) (connection : TcpConnection) : Server :=
  { server with
    connections := { server.connections with
      slots := server.connections.slots.set slot connection } }

/-- The first closed slot below `bound`, as both scans of the accept branch look
for it. -/
def firstClosed (connections : VArray TcpConnection) (bound : Nat) : Option Nat :=
  (connections.slots.take bound).findIdx? TcpConnection.closed

/-- What the kernel may report: distinct registered descriptors, at most one
array of events, and nothing but readability of the listening socket. -/
def reportable (server : Server) (reports : List Report) : Bool :=
  decide ((reports.map Report.descriptor).Nodup) && decide (reports.length ≤ maxEpollEvents) &&
    reports.all (fun report => decide (report.descriptor ≠ server.listener) ||
      (!report.hangUp && !report.writable))

/-- The event of a report carries the index of the registration. -/
def eventOf (kernel : Kernel) (report : Report) : Option Event :=
  (kernel.registered.lookup report.descriptor).map
    (fun index => ⟨index, report.hangUp, report.readable, report.writable⟩)

/-- The hang-up branch: a connection that is not closed yet is marked closed,
unregistered, and its descriptor is closed. -/
def handleHangUp (server : Server) (event : Event) : Option (Server × List Syscall) :=
  if event.hangUp then do
    let connection ← server.connections.slots[event.index]?
    if connection.closed then pure (server, [])
    else
      let server := server.write event.index { connection with closed := true }
      pure ({ server with
          kernel := (server.kernel.removeFd connection.fileDescriptor).close
            connection.fileDescriptor },
        [.removed connection.fileDescriptor, .closed connection.fileDescriptor])
  else pure (server, [])

/-- The accept branch below capacity: the first closed slot is reused under the
index it keeps, and otherwise the client is registered and appended. -/
def acceptBelowCapacity (server : Server) (descriptor : Nat) : Option (Server × List Syscall) := do
  let newIndex := server.connections.count
  let client := { TcpConnection.zero with fileDescriptor := descriptor, id := newIndex }
  match firstClosed server.connections server.connections.count with
  | some slot =>
    let reused ← server.connections.slots[slot]?
    let client := { client with id := reused.id }
    let server := server.write slot client
    pure ({ server with kernel := server.kernel.addFd descriptor client.id },
      [.accepted descriptor, .added descriptor client.id])
  | none =>
    pure ({ server with
        kernel := server.kernel.addFd descriptor newIndex
        connections := server.connections.push client TcpConnection.zero },
      [.accepted descriptor, .added descriptor newIndex])

/-- The accept branch at full capacity: the client overwrites the first closed
slot, index included, and is registered under the index it brought along; with no
closed slot it is answered with 503 and closed. -/
def acceptAtCapacity (server : Server) (descriptor : Nat) : Server × List Syscall :=
  let client := { TcpConnection.zero with fileDescriptor := descriptor }
  match firstClosed server.connections server.connections.capacity with
  | some slot =>
    let server := server.write slot client
    ({ server with kernel := server.kernel.addFd client.fileDescriptor client.id },
      [.accepted descriptor, .added client.fileDescriptor client.id])
  | none =>
    ({ server with kernel := server.kernel.close descriptor },
      [.accepted descriptor, .refused descriptor, .closed descriptor])

/-- A successful accept: the new descriptor is open, and the count decides the
branch. -/
def acceptClient (server : Server) (descriptor : Nat) : Option (Server × List Syscall) :=
  let server := { server with kernel := server.kernel.accept descriptor }
  if server.connections.count ≠ server.connections.capacity then
    acceptBelowCapacity server descriptor
  else pure (acceptAtCapacity server descriptor)

/-- The connection's end of `EpollHttpWorker`. Its cleanup label sets `Closed` to 1
and then closes the descriptor whose number is that flag. -/
def epollHttpWorker (server : Server) (slot : Nat) (connection : TcpConnection) :
    Outcome → Server × TcpConnection × List Syscall
  | .returned file => ({ server with kernel := server.kernel.openFile file }, connection, [])
  | .cleanup file =>
    let connection := { connection with closed := true }
    let server := server.write slot connection
    let closedFlag := 1
    ({ server with kernel := (server.kernel.openFile file).close closedFlag }, connection,
      [.closed closedFlag])

/-- One round of the loop of `ProcessEvents`. A file is opened under a descriptor that
was free. -/
def serveSlot (server : Server) (slot : Nat) (outcome : Outcome) :
    Option (Server × List Syscall) := do
  let connection ← server.connections.slots[slot]?
  if connection.closed then pure (server, [])
  else if connection.readable then do
    guard (∀ descriptor ∈ outcome.file, descriptor ∉ server.kernel.opened)
    let (server, connection, calls) := epollHttpWorker server slot connection outcome
    pure (server.write slot { connection with readable := false, writable := false }, calls)
  else
    pure (server.write slot { connection with writable := false }, [])

/-- One step of the loop, with the system calls it makes. -/
def stepCalls (server : Server) : Action → Option (Server × List Syscall)
  | .wait reports => do
    guard (server.phase = .waiting ∧ reportable server reports = true)
    let events ← reports.mapM (eventOf server.kernel)
    pure ({ server with phase := .handling .hangUp events }, [])
  | .hangUp =>
    match server.phase with
    | .handling .hangUp (event :: rest) => do
      let (server, calls) ← handleHangUp server event
      pure ({ server with phase := .handling .read (event :: rest) }, calls)
    | _ => none
  | .read accepted =>
    match server.phase with
    | .handling .read (event :: rest) =>
      if event.readable then
        if event.index = serverIndex then
          match accepted with
          | none => pure ({ server with phase := .handling .hangUp rest }, [])
          | some descriptor => do
            guard (descriptor ∉ server.kernel.opened)
            let (server, calls) ← acceptClient server descriptor
            pure ({ server with phase := .handling .write (event :: rest) }, calls)
        else do
          let connection ← server.connections.slots[event.index]?
          let server := server.write event.index { connection with readable := true }
          pure ({ server with phase := .handling .write (event :: rest) }, [])
      else pure ({ server with phase := .handling .write (event :: rest) }, [])
    | _ => none
  | .write =>
    match server.phase with
    | .handling .write (event :: rest) =>
      if event.writable then do
        let connection ← server.connections.slots[event.index]?
        let server := server.write event.index { connection with writable := true }
        pure ({ server with phase := .handling .hangUp rest }, [])
      else pure ({ server with phase := .handling .hangUp rest }, [])
    | _ => none
  | .process =>
    match server.phase with
    | .handling .hangUp [] =>
      pure ({ server with phase := .processing 0 server.connections.count }, [])
    | _ => none
  | .serve outcome =>
    match server.phase with
    | .processing slot count => do
      guard (slot < count)
      let (server, calls) ← serveSlot server slot outcome
      pure ({ server with phase := .processing (slot + 1) count }, calls)
    | _ => none
  | .finish =>
    match server.phase with
    | .processing slot count => do
      guard (count ≤ slot)
      pure ({ server with phase := .waiting }, [])
    | _ => none

/-- The step without its calls. -/
def step (server : Server) (action : Action) : Option Server :=
  (stepCalls server action).map Prod.fst

/-- The events still to be handled. -/
def Phase.pending : Phase → List Event
  | .handling _ pending => pending
  | _ => []

/-- The slot a step works on: the one the first pending event names, or the one
`ProcessEvents` has come to. -/
def Phase.subject : Phase → Option Nat
  | .handling _ (event :: _) => some event.index
  | .processing slot _ => some slot
  | _ => none

/-- The step takes the accept branch, and accept returns this descriptor. -/
def Accepts (server : Server) (action : Action) (descriptor : Nat) : Prop :=
  action = .read (some descriptor) ∧ ∃ event rest,
    server.phase = .handling .read (event :: rest) ∧ event.readable = true ∧
      event.index = serverIndex

/-- The step is a worker call for this connection that leaves through the cleanup
label. -/
def CleansUp (server : Server) (action : Action) (slot : Nat) (connection : TcpConnection) : Prop :=
  ∃ count file, action = .serve (.cleanup file) ∧ server.phase = .processing slot count ∧
    slot < count ∧ server.connections.slots[slot]? = some connection ∧
      connection.closed = false ∧ connection.readable = true

/-- Everything one step can do to the connections and to the kernel state. -/
inductive Effect (before : Server) (action : Action) (after : Server) : List Syscall → Prop where
  /-- Only the position in the loop changes. -/
  | unchanged (sameConnections : after.connections = before.connections)
      (sameKernel : after.kernel = before.kernel) : Effect before action after []
  /-- A readiness flag of one slot changes. -/
  | flagged (slot : Nat) (old new : TcpConnection)
      (subject : before.phase.subject = some slot)
      (read : before.connections.slots[slot]? = some old)
      (sameId : new.id = old.id) (sameDescriptor : new.fileDescriptor = old.fileDescriptor)
      (sameClosed : new.closed = old.closed)
      (written : after.connections = (before.write slot new).connections)
      (sameKernel : after.kernel = before.kernel) : Effect before action after []
  /-- The hang-up branch closes the connection of its event's slot. -/
  | hungUp (event : Event) (rest : List Event) (old : TcpConnection)
      (position : before.phase = .handling .hangUp (event :: rest))
      (reported : event.hangUp = true)
      (read : before.connections.slots[event.index]? = some old) (wasOpen : old.closed = false)
      (written : after.connections =
        (before.write event.index { old with closed := true }).connections)
      (closed : after.kernel =
        (before.kernel.removeFd old.fileDescriptor).close old.fileDescriptor) :
      Effect before action after [.removed old.fileDescriptor, .closed old.fileDescriptor]
  /-- A client is stored in a closed slot under the index that is registered: the
  slot's own below capacity, and zero at capacity. -/
  | reused (descriptor slot index : Nat) (old : TcpConnection)
      (accepts : Accepts before action descriptor)
      (fresh : descriptor ∉ before.kernel.opened)
      (first : firstClosed before.connections before.connections.count = some slot)
      (read : before.connections.slots[slot]? = some old)
      (kept : index = if before.connections.count = before.connections.capacity then 0 else old.id)
      (written : after.connections = (before.write slot
        { TcpConnection.zero with id := index, fileDescriptor := descriptor }).connections)
      (opened : after.kernel = (before.kernel.accept descriptor).addFd descriptor index) :
      Effect before action after [.accepted descriptor, .added descriptor index]
  /-- A client is appended when no slot in use is closed. -/
  | appended (descriptor : Nat)
      (accepts : Accepts before action descriptor)
      (fresh : descriptor ∉ before.kernel.opened)
      (none : firstClosed before.connections before.connections.count = none)
      (room : before.connections.count ≠ before.connections.capacity)
      (written : after.connections = before.connections.push
        { TcpConnection.zero with id := before.connections.count, fileDescriptor := descriptor }
        TcpConnection.zero)
      (opened : after.kernel =
        (before.kernel.accept descriptor).addFd descriptor before.connections.count) :
      Effect before action after [.accepted descriptor, .added descriptor before.connections.count]
  /-- A client is refused when every slot is in use and none is closed. -/
  | turnedAway (descriptor : Nat)
      (accepts : Accepts before action descriptor)
      (fresh : descriptor ∉ before.kernel.opened)
      (none : firstClosed before.connections before.connections.count = none)
      (full : before.connections.count = before.connections.capacity)
      (sameConnections : after.connections = before.connections)
      (closed : after.kernel = (before.kernel.accept descriptor).close descriptor) :
      Effect before action after [.accepted descriptor, .refused descriptor, .closed descriptor]
  /-- The worker answers the slot's client and keeps the connection. -/
  | served (slot count : Nat) (old new : TcpConnection) (file : Option Nat)
      (position : before.phase = .processing slot count) (below : slot < count)
      (fresh : ∀ descriptor ∈ file, descriptor ∉ before.kernel.opened)
      (read : before.connections.slots[slot]? = some old) (wasOpen : old.closed = false)
      (sameId : new.id = old.id) (sameDescriptor : new.fileDescriptor = old.fileDescriptor)
      (stillOpen : new.closed = false)
      (written : after.connections = (before.write slot new).connections)
      (kept : after.kernel = before.kernel.openFile file) : Effect before action after []
  /-- The worker leaves through its cleanup label. -/
  | cleanedUp (slot : Nat) (old new : TcpConnection) (file : Option Nat)
      (cleans : CleansUp before action slot old)
      (fresh : ∀ descriptor ∈ file, descriptor ∉ before.kernel.opened)
      (sameId : new.id = old.id) (sameDescriptor : new.fileDescriptor = old.fileDescriptor)
      (nowClosed : new.closed = true)
      (written : after.connections = (before.write slot new).connections)
      (closed : after.kernel = (before.kernel.openFile file).close 1) :
      Effect before action after [.closed 1]

theorem handleHangUp_effect {before after : Server} {event : Event} {rest : List Event}
    {calls : List Syscall} (action : Action) (phase : Phase)
    (position : before.phase = .handling .hangUp (event :: rest))
    (handled : handleHangUp before event = some (after, calls)) :
    after.listener = before.listener ∧ Effect before action { after with phase := phase } calls := by
  unfold handleHangUp at handled
  by_cases reported : event.hangUp = true
  · simp only [reported, ↓reduceIte, Option.bind_eq_bind, Option.bind_eq_some_iff,
      Option.pure_def] at handled
    obtain ⟨old, read, handled⟩ := handled
    cases closed : old.closed with
    | true =>
      simp only [closed, ↓reduceIte, Option.some.injEq, Prod.mk.injEq] at handled
      obtain ⟨rfl, rfl⟩ := handled
      exact ⟨rfl, Effect.unchanged rfl rfl⟩
    | false =>
      simp only [closed, Bool.false_eq_true, ↓reduceIte, Option.some.injEq,
        Prod.mk.injEq] at handled
      obtain ⟨rfl, rfl⟩ := handled
      exact ⟨rfl, Effect.hungUp event rest old position reported read closed rfl rfl⟩
  · simp only [reported, Bool.false_eq_true, ↓reduceIte, Option.pure_def, Option.some.injEq,
      Prod.mk.injEq] at handled
    obtain ⟨rfl, rfl⟩ := handled
    exact ⟨rfl, Effect.unchanged rfl rfl⟩

theorem acceptClient_effect {before after : Server} {action : Action} {descriptor : Nat}
    {calls : List Syscall} (phase : Phase) (accepts : Accepts before action descriptor)
    (fresh : descriptor ∉ before.kernel.opened)
    (handled : acceptClient before descriptor = some (after, calls)) :
    after.listener = before.listener ∧ Effect before action { after with phase := phase } calls := by
  unfold acceptClient at handled
  by_cases full : before.connections.count = before.connections.capacity
  · simp only [full, ne_eq, not_true_eq_false, ↓reduceIte, Option.pure_def, Option.some.injEq,
      acceptAtCapacity] at handled
    cases first : firstClosed before.connections before.connections.capacity with
    | some slot =>
      simp only [first, Prod.mk.injEq] at handled
      obtain ⟨rfl, rfl⟩ := handled
      have scanned : firstClosed before.connections before.connections.count = some slot := by
        rw [full]; exact first
      obtain ⟨inside, _⟩ := List.findIdx?_eq_some_iff_getElem.mp first
      have slotInside : slot < before.connections.slots.length :=
        lt_of_lt_of_le inside (List.length_take_le' _ _)
      exact ⟨rfl, Effect.reused descriptor slot 0 _ accepts fresh scanned
        (List.getElem?_eq_getElem slotInside) (by simp [full]) rfl rfl⟩
    | none =>
      simp only [first, Prod.mk.injEq] at handled
      obtain ⟨rfl, rfl⟩ := handled
      have scanned : firstClosed before.connections before.connections.count = none := by
        rw [full]; exact first
      exact ⟨rfl, Effect.turnedAway descriptor accepts fresh scanned full rfl rfl⟩
  · simp only [ne_eq, full, not_false_eq_true, ↓reduceIte, acceptBelowCapacity] at handled
    cases first : firstClosed before.connections before.connections.count with
    | some slot =>
      simp only [first, Option.bind_eq_bind, Option.bind_eq_some_iff, Option.pure_def,
        Option.some.injEq, Prod.mk.injEq] at handled
      obtain ⟨old, read, rfl, rfl⟩ := handled
      exact ⟨rfl, Effect.reused descriptor slot old.id old accepts fresh first read
        (by simp [full]) rfl rfl⟩
    | none =>
      simp only [first, Option.pure_def, Option.some.injEq, Prod.mk.injEq] at handled
      obtain ⟨rfl, rfl⟩ := handled
      exact ⟨rfl, Effect.appended descriptor accepts fresh first full rfl rfl⟩

theorem serveSlot_effect {before after : Server} {slot count : Nat} {outcome : Outcome}
    {calls : List Syscall} (phase : Phase) (position : before.phase = .processing slot count)
    (below : slot < count) (handled : serveSlot before slot outcome = some (after, calls)) :
    after.listener = before.listener ∧
      Effect before (.serve outcome) { after with phase := phase } calls := by
  have subject : before.phase.subject = some slot := by rw [position]; rfl
  simp only [serveSlot, Option.bind_eq_bind, Option.bind_eq_some_iff, Option.pure_def] at handled
  obtain ⟨old, read, handled⟩ := handled
  cases closed : old.closed with
  | true =>
    simp only [closed, ↓reduceIte, Option.some.injEq, Prod.mk.injEq] at handled
    obtain ⟨rfl, rfl⟩ := handled
    exact ⟨rfl, Effect.unchanged rfl rfl⟩
  | false =>
    cases readable : old.readable with
    | false =>
      simp only [closed, readable, Bool.false_eq_true, ↓reduceIte, Option.some.injEq,
        Prod.mk.injEq] at handled
      obtain ⟨rfl, rfl⟩ := handled
      exact ⟨rfl, Effect.flagged slot old ⟨old.id, old.fileDescriptor, false, false, false⟩
        subject read rfl rfl closed.symm (by simp [Server.write]) rfl⟩
    | true =>
      simp only [closed, readable, Bool.false_eq_true, ↓reduceIte, Option.bind_eq_some_iff,
        Option.guard_eq_some', Option.some.injEq, Prod.mk.injEq] at handled
      obtain ⟨_, fresh, rfl, rfl⟩ := handled
      cases outcome with
      | returned file =>
        exact ⟨rfl, Effect.served slot count old ⟨old.id, old.fileDescriptor, false, false, old.closed⟩
          file position below fresh read closed rfl rfl closed rfl rfl⟩
      | cleanup file =>
        have cleans : CleansUp before (.serve (.cleanup file)) slot old :=
          ⟨count, file, rfl, position, below, read, closed, readable⟩
        refine ⟨rfl, Effect.cleanedUp slot old ⟨old.id, old.fileDescriptor, false, false, true⟩
          file cleans fresh rfl rfl rfl ?_ rfl⟩
        simp [epollHttpWorker, Server.write]

/-- Every fetched event belongs to a report. -/
theorem mapM_eventOf {kernel : Kernel} {reports : List Report} {events : List Event}
    (fetched : reports.mapM (eventOf kernel) = some events) :
    ∀ event ∈ events, ∃ report ∈ reports, eventOf kernel report = some event := by
  induction reports generalizing events with
  | nil =>
    simp only [List.mapM_nil, Option.pure_def, Option.some.injEq] at fetched
    subst fetched
    simp
  | cons report rest inductionHypothesis =>
    simp only [List.mapM_cons, Option.bind_eq_bind, Option.bind_eq_some_iff, Option.pure_def,
      Option.some.injEq] at fetched
    obtain ⟨first, fetchedFirst, later, fetchedLater, rfl⟩ := fetched
    intro event member
    cases member with
    | head => exact ⟨report, List.mem_cons_self, fetchedFirst⟩
    | tail _ later =>
      obtain ⟨source, present, same⟩ := inductionHypothesis fetchedLater event later
      exact ⟨source, List.mem_cons_of_mem _ present, same⟩

/-- What a step does to the position in the loop: events are handled from the
front of the batch that a wait fetched, and `ProcessEvents` keeps the count it
started with. -/
structure Moves (before : Server) (action : Action) (after : Server) : Prop where
  pending : ∀ event ∈ after.phase.pending, event ∈ before.phase.pending ∨
    ∃ reports, action = .wait reports ∧ reportable before reports = true ∧
      ∃ report ∈ reports, eventOf before.kernel report = some event
  processing : ∀ slot count, after.phase = .processing slot count →
    (∃ earlier, before.phase = .processing earlier count) ∨ count = before.connections.count

/-- Events behind the one that is handled are still to be handled. -/
theorem still_pending {server : Server} {stage : Stage} {events later : List Event}
    (position : server.phase = .handling stage events) (fewer : later ⊆ events) {event : Event}
    (member : event ∈ later) : event ∈ server.phase.pending := by
  rw [position]
  exact fewer member

/-- The readable branch: a client is accepted, or a connection is marked. -/
theorem read_effect {before after : Server} {accepted : Option Nat} {calls : List Syscall}
    (taken : stepCalls before (.read accepted) = some (after, calls)) :
    after.listener = before.listener ∧ Effect before (.read accepted) after calls ∧
      Moves before (.read accepted) after := by
  simp only [stepCalls] at taken
  split at taken
  · rename_i event rest position
    have later : ∀ other, other ∈ rest → other ∈ before.phase.pending :=
      fun _ => still_pending position (List.subset_cons_self event rest)
    have same : ∀ other, other ∈ event :: rest → other ∈ before.phase.pending :=
      fun _ => still_pending position (List.Subset.refl _)
    by_cases readable : event.readable = true
    · simp only [readable, ↓reduceIte] at taken
      by_cases server : event.index = serverIndex
      · simp only [server, ↓reduceIte] at taken
        cases accepted with
        | none =>
          simp only [Option.pure_def, Option.some.injEq, Prod.mk.injEq] at taken
          obtain ⟨rfl, rfl⟩ := taken
          exact ⟨rfl, Effect.unchanged rfl rfl, fun other member => Or.inl (later other member),
            by simp⟩
        | some descriptor =>
          simp only [Option.bind_eq_bind, Option.bind_eq_some_iff, Option.guard_eq_some',
            Option.pure_def, Option.some.injEq, Prod.mk.injEq, Prod.exists] at taken
          obtain ⟨_, fresh, middle, _, handled, rfl, rfl⟩ := taken
          have accepts : Accepts before (.read (some descriptor)) descriptor :=
            ⟨rfl, event, rest, position, readable, server⟩
          obtain ⟨sameListener, effect⟩ := acceptClient_effect
            (.handling .write (event :: rest)) accepts fresh handled
          exact ⟨sameListener, effect, fun other member => Or.inl (same other member), by simp⟩
      · simp only [server, ↓reduceIte, Option.bind_eq_bind, Option.bind_eq_some_iff,
          Option.pure_def, Option.some.injEq, Prod.mk.injEq] at taken
        obtain ⟨old, read, rfl, rfl⟩ := taken
        have subject : before.phase.subject = some event.index := by rw [position]; rfl
        exact ⟨rfl, Effect.flagged event.index old { old with readable := true } subject read
          rfl rfl rfl rfl rfl, fun other member => Or.inl (same other member), by simp⟩
    · simp only [readable, Bool.false_eq_true, ↓reduceIte, Option.pure_def, Option.some.injEq,
        Prod.mk.injEq] at taken
      obtain ⟨rfl, rfl⟩ := taken
      exact ⟨rfl, Effect.unchanged rfl rfl, fun other member => Or.inl (same other member),
        by simp⟩
  · simp at taken

/-- The writable branch marks a connection. -/
theorem write_effect {before after : Server} {calls : List Syscall}
    (taken : stepCalls before .write = some (after, calls)) :
    after.listener = before.listener ∧ Effect before .write after calls ∧
      Moves before .write after := by
  simp only [stepCalls] at taken
  split at taken
  · rename_i event rest position
    have later : ∀ other, other ∈ rest → other ∈ before.phase.pending :=
      fun _ => still_pending position (List.subset_cons_self event rest)
    by_cases writable : event.writable = true
    · simp only [writable, ↓reduceIte, Option.bind_eq_bind, Option.bind_eq_some_iff,
        Option.pure_def, Option.some.injEq, Prod.mk.injEq] at taken
      obtain ⟨old, read, rfl, rfl⟩ := taken
      have subject : before.phase.subject = some event.index := by rw [position]; rfl
      exact ⟨rfl, Effect.flagged event.index old { old with writable := true } subject read
        rfl rfl rfl rfl rfl, fun other member => Or.inl (later other member), by simp⟩
    · simp only [writable, Bool.false_eq_true, ↓reduceIte, Option.pure_def, Option.some.injEq,
        Prod.mk.injEq] at taken
      obtain ⟨rfl, rfl⟩ := taken
      exact ⟨rfl, Effect.unchanged rfl rfl, fun other member => Or.inl (later other member),
        by simp⟩
  · simp at taken

/-- Every step moves on in the loop, keeps the listening socket and has one of the
effects. The accept branch is taken for the index of the listening socket only,
and only with a descriptor that accept returned. -/
theorem step_effect {before after : Server} {action : Action} {calls : List Syscall}
    (taken : stepCalls before action = some (after, calls)) :
    after.listener = before.listener ∧ Effect before action after calls ∧
      Moves before action after := by
  cases action with
  | wait reports =>
    simp only [stepCalls, Option.bind_eq_bind, Option.bind_eq_some_iff, Option.guard_eq_some',
      Option.pure_def, Option.some.injEq, Prod.mk.injEq] at taken
    obtain ⟨_, ⟨_, allowed⟩, events, fetched, rfl, rfl⟩ := taken
    refine ⟨rfl, Effect.unchanged rfl rfl, ?_, by simp⟩
    intro event member
    obtain ⟨report, reported, same⟩ := mapM_eventOf fetched event member
    exact Or.inr ⟨reports, rfl, allowed, report, reported, same⟩
  | hangUp =>
    simp only [stepCalls] at taken
    split at taken
    · rename_i event rest position
      simp only [Option.bind_eq_bind, Option.bind_eq_some_iff, Option.pure_def, Option.some.injEq,
        Prod.mk.injEq, Prod.exists] at taken
      obtain ⟨middle, _, handled, rfl, rfl⟩ := taken
      obtain ⟨sameListener, effect⟩ := handleHangUp_effect .hangUp
        (.handling .read (event :: rest)) position handled
      exact ⟨sameListener, effect, by simp [position, Phase.pending], by simp⟩
    · simp at taken
  | read accepted => exact read_effect taken
  | write => exact write_effect taken
  | process =>
    simp only [stepCalls] at taken
    split at taken
    · simp only [Option.pure_def, Option.some.injEq, Prod.mk.injEq] at taken
      obtain ⟨rfl, rfl⟩ := taken
      exact ⟨rfl, Effect.unchanged rfl rfl, by simp [Phase.pending], by simp⟩
    · simp at taken
  | serve outcome =>
    simp only [stepCalls] at taken
    split at taken
    · rename_i slot count position
      simp only [Option.bind_eq_bind, Option.bind_eq_some_iff, Option.guard_eq_some',
        Option.pure_def, Option.some.injEq, Prod.mk.injEq, Prod.exists] at taken
      obtain ⟨_, below, middle, _, handled, rfl, rfl⟩ := taken
      obtain ⟨sameListener, effect⟩ := serveSlot_effect (.processing (slot + 1) count)
        position below handled
      refine ⟨sameListener, effect, by simp [Phase.pending], ?_⟩
      intro next total same
      simp only [Phase.processing.injEq] at same
      exact Or.inl ⟨slot, by rw [position, same.2]⟩
    · simp at taken
  | finish =>
    simp only [stepCalls] at taken
    split at taken
    · simp only [Option.bind_eq_bind, Option.bind_eq_some_iff, Option.guard_eq_some',
        Option.pure_def, Option.some.injEq, Prod.mk.injEq] at taken
      obtain ⟨_, _, rfl, rfl⟩ := taken
      exact ⟨rfl, Effect.unchanged rfl rfl, by simp [Phase.pending], by simp⟩
    · simp at taken

/-- Whoever takes the accept branch calls accept. -/
theorem accepts_calls {before after : Server} {action : Action} {descriptor : Nat}
    {calls : List Syscall} (accepts : Accepts before action descriptor)
    (taken : stepCalls before action = some (after, calls)) : .accepted descriptor ∈ calls := by
  obtain ⟨rfl, event, rest, position, readable, server⟩ := accepts
  simp only [stepCalls, position, readable, server, ↓reduceIte, Option.bind_eq_bind,
    Option.bind_eq_some_iff, Option.pure_def, Option.some.injEq, Prod.mk.injEq, Prod.exists] at taken
  obtain ⟨_, _, middle, made, handled, rfl, rfl⟩ := taken
  simp only [acceptClient, acceptBelowCapacity, acceptAtCapacity] at handled
  split at handled
  · split at handled
    · simp only [Option.bind_eq_bind, Option.bind_eq_some_iff, Option.pure_def, Option.some.injEq,
        Prod.mk.injEq] at handled
      obtain ⟨_, _, _, rfl⟩ := handled
      exact List.mem_cons_self
    · simp only [Option.pure_def, Option.some.injEq, Prod.mk.injEq] at handled
      obtain ⟨_, rfl⟩ := handled
      exact List.mem_cons_self
  · split at handled
    all_goals
      simp only [Option.pure_def, Option.some.injEq, Prod.mk.injEq] at handled
      obtain ⟨_, rfl⟩ := handled
      exact List.mem_cons_self

/-- A worker that leaves through its cleanup label closes descriptor 1 and nothing
else, and its slot is left closed. -/
theorem cleansUp_step {before after : Server} {action : Action} {slot : Nat}
    {connection : TcpConnection} {calls : List Syscall}
    (cleans : CleansUp before action slot connection)
    (taken : stepCalls before action = some (after, calls)) :
    calls = [.closed 1] ∧ ∃ new : TcpConnection, new.closed = true ∧
      after.connections = (before.write slot new).connections := by
  obtain ⟨count, file, rfl, position, below, read, wasOpen, wasReadable⟩ := cleans
  simp only [stepCalls, position, Option.bind_eq_bind, Option.bind_eq_some_iff, Option.pure_def,
    Option.some.injEq, Prod.mk.injEq, Prod.exists] at taken
  obtain ⟨_, _, middle, made, handled, rfl, rfl⟩ := taken
  simp only [serveSlot, Option.bind_eq_bind, Option.bind_eq_some_iff, Option.pure_def] at handled
  obtain ⟨old, readAgain, handled⟩ := handled
  obtain rfl : connection = old := Option.some.inj (read.symm.trans readAgain)
  simp only [wasOpen, wasReadable, Bool.false_eq_true, ↓reduceIte, Option.bind_eq_some_iff,
    Option.some.injEq, Prod.mk.injEq, epollHttpWorker] at handled
  obtain ⟨_, _, rfl, rfl⟩ := handled
  refine ⟨rfl, ⟨connection.id, connection.fileDescriptor, false, false, true⟩, rfl, ?_⟩
  simp [Server.write]

/-- A step of a run, with the calls it makes. -/
theorem step_calls {before after : Server} {action : Action}
    (taken : step before action = some after) :
    ∃ calls, stepCalls before action = some (after, calls) := by
  simp only [step, Option.map_eq_some_iff, Prod.exists, exists_and_right, exists_eq_right] at taken
  exact taken

end VHttp.EventLoop
