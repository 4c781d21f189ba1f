import VHttp.ConnectionIndices
import VHttp.DescriptorOwnership
import VHttp.ProcessEvents
import VHttp.ServedResponses

/-!
# The whole server of main.c

The event loop, the worker that `ProcessEvents` calls, and the peers, as one system. The loop
takes its steps as in `VHttp.EventLoop`, except that the round of a readable connection is a
call of the worker, which goes from one of its own calls to the next as in
`VHttp.EpollHttpWorker`. Peers send bytes and close their side between any two of these steps,
also while a worker runs.

Of a client's socket the kernel keeps the bytes that wait, whether the peer has closed, and
whether an edge is still to be reported: the descriptor is registered edge-triggered, so
epoll_wait reports its readability once for what has arrived since the last report, and
registering it reports what has arrived before. A report may also tell of readability that is
no news.

What the kernel promises is stated apart from the steps, as the condition under which runs are
considered: a recv hands over waiting bytes, or would block if there are none and the peer has
not closed, and the report of a descriptor with an edge tells that it is readable. A recv or a
send may fail at any time. The parser is the one of http_request.c.
-/

namespace VHttp

open EventLoop

/-- What the kernel keeps of a client's socket. -/
structure Socket where
  waiting : Bytes
  finished : Bool
  edge : Bool

/-- A recv would not block: bytes wait, or the peer has closed. -/
def Socket.Ready (socket : Socket) : Prop := socket.waiting ≠ [] ∨ socket.finished = true

instance (socket : Socket) : Decidable socket.Ready := by unfold Socket.Ready; infer_instance

/-- A socket of which nothing is known. -/
def Socket.quiet : Socket := ⟨[], false, false⟩

/-- The bytes that the answer to a call takes off a socket. -/
def Worker.Answer.taken : Worker.Answer → Bytes
  | .discard (.data bytes) | .body _ (.data bytes) => bytes
  | _ => []

/-- What the kernel and the parser answer to the call that a worker stands at. -/
def Socket.Answers (socket : Socket) (worker : Worker) (answer : Worker.Answer) : Prop :=
  match worker.phase, answer with
  | .peeking, .peek (.failed .again) _ | .discarding _, .discard (.failed .again)
  | .receivingBody, .body _ (.failed .again) => ¬ socket.Ready
  | .peeking, .peek (.data bytes) _ | .discarding _, .discard (.data bytes)
  | .receivingBody, .body _ (.data bytes) =>
    bytes <+: socket.waiting ∧ (bytes = [] → socket.waiting = [] ∧ socket.finished = true)
  | .parsing, .parse result => ∃ fresh stack, VHttpRequest.parse fresh stack
      worker.stringPool.block ⟨0, worker.stringPool.length⟩ worker.request = some result
  | _, _ => True

/-- The server with its sockets, what its workers share, and the call of `EpollHttpWorker`
that is in progress. -/
structure WholeServer where
  server : Server
  shared : Worker.Shared
  sockets : Nat → Socket
  working : Option Worker

/-- A step of a peer, of the loop with the socket of a client it accepts, or of a worker's
call: its beginning, the answer to one of its own calls, its return. -/
inductive ServerEvent where
  | arrives (descriptor : Nat) (bytes : Bytes)
  | finishes (descriptor : Nat)
  | loops (action : Action) (client : Socket)
  | calls
  | answers (answer : Worker.Answer)
  | returns

namespace WholeServer

/-- The state before the first epoll_wait. -/
def start (capacity listener : Nat) (own : Finset Nat) : WholeServer :=
  ⟨EventLoop.start capacity listener own, Worker.Shared.start, fun _ => .quiet, none⟩

/-- Replace one socket. -/
def setSocket (state : WholeServer) (descriptor : Nat) (socket : Socket) : WholeServer :=
  { state with
    sockets := fun other => if other = descriptor then socket else state.sockets other }

/-- The connection that `ProcessEvents` is about to call the worker for. -/
def due (server : Server) : Option TcpConnection :=
  match server.phase with
  | .processing slot count =>
    if slot < count then
      (server.connections.slots[slot]?).filter
        (fun connection => !connection.closed && connection.readable)
    else none
  | _ => none

/-- The sockets after a step of the loop: edges are reported, and a client's socket begins
with an edge if something has arrived before it was registered. -/
def socketsAfter (sockets : Nat → Socket) (calls : List Syscall) (client : Socket) :
    Action → Nat → Socket
  | .wait reports => fun descriptor =>
    if descriptor ∈ reports.map Report.descriptor then { sockets descriptor with edge := false }
    else sockets descriptor
  | .read (some accepted) => fun descriptor =>
    if descriptor = accepted ∧ .accepted accepted ∈ calls then
      { client with edge := decide client.Ready }
    else sockets descriptor
  | _ => sockets

/-- One step. -/
def step (state : WholeServer) : ServerEvent → Option WholeServer
  | .arrives descriptor bytes =>
    let socket := state.sockets descriptor
    some (state.setSocket descriptor
      { socket with waiting := socket.waiting ++ bytes, edge := true })
  | .finishes descriptor =>
    some (state.setSocket descriptor
      { state.sockets descriptor with finished := true, edge := true })
  | .loops action client => do
    guard (state.working.isNone ∧ (due state.server).isNone)
    let (server, calls) ← stepCalls state.server action
    pure { state with
      server := server
      sockets := socketsAfter state.sockets calls client action }
  | .calls => do
    guard state.working.isNone
    let connection ← due state.server
    pure { state with working := some (Worker.start connection.fileDescriptor state.shared) }
  | .answers answer => do
    let worker ← state.working
    let next ← worker.step answer
    let socket := state.sockets worker.fileDescriptor
    pure { state.setSocket worker.fileDescriptor
        { socket with waiting := socket.waiting.drop answer.taken.length } with
      working := some next }
  | .returns => do
    let worker ← state.working
    let outcome ← worker.outcome
    let server ← EventLoop.step state.server (.serve outcome)
    pure { state with server := server, shared := worker.shared, working := none }

/-- What the kernel and the parser promise of a step. -/
def Promised (state : WholeServer) : ServerEvent → Prop
  | .loops (.wait reports) _ => ∀ report ∈ reports,
    (state.sockets report.descriptor).edge = true → report.readable = true
  | .answers answer => ∀ worker, state.working = some worker →
    (state.sockets worker.fileDescriptor).Answers worker answer
  | _ => True

/-- The steps of the loop meet a condition of the event loop. -/
def Loops (allowed : Server → Action → Prop) (state : WholeServer) : ServerEvent → Prop
  | .loops action _ => allowed state.server action
  | _ => True

/-! ## What a step does -/

variable {before after : WholeServer}

/-- One constructor for each way a step goes, with the state it leaves. -/
inductive Effect (before : WholeServer) : ServerEvent → WholeServer → Prop where
  | arrives (descriptor : Nat) (bytes : Bytes) :
      Effect before (.arrives descriptor bytes) (before.setSocket descriptor
        { before.sockets descriptor with
          waiting := (before.sockets descriptor).waiting ++ bytes
          edge := true })
  | finishes (descriptor : Nat) :
      Effect before (.finishes descriptor) (before.setSocket descriptor
        { before.sockets descriptor with finished := true, edge := true })
  | loops (action : Action) (client : Socket) (server : Server) (calls : List Syscall)
      (idle : before.working = none) (none_due : due before.server = none)
      (stepped : stepCalls before.server action = some (server, calls)) :
      Effect before (.loops action client) { before with
        server := server
        sockets := socketsAfter before.sockets calls client action }
  | calls (connection : TcpConnection) (idle : before.working = none)
      (isDue : due before.server = some connection) :
      Effect before .calls { before with
        working := some (Worker.start connection.fileDescriptor before.shared) }
  | answers (answer : Worker.Answer) (worker next : Worker)
      (working : before.working = some worker) (stepped : worker.step answer = some next) :
      Effect before (.answers answer) { before.setSocket worker.fileDescriptor
          { before.sockets worker.fileDescriptor with
            waiting := (before.sockets worker.fileDescriptor).waiting.drop answer.taken.length } with
        working := some next }
  | returns (worker : Worker) (outcome : Outcome) (server : Server)
      (working : before.working = some worker) (ended : worker.outcome = some outcome)
      (stepped : EventLoop.step before.server (.serve outcome) = some server) :
      Effect before .returns { before with
        server := server
        shared := worker.shared
        working := none }

theorem step_effect {event : ServerEvent} (taken : step before event = some after) :
    Effect before event after := by
  cases event with
  | arrives descriptor bytes =>
    obtain rfl := Option.some.inj taken
    exact .arrives descriptor bytes
  | finishes descriptor =>
    obtain rfl := Option.some.inj taken
    exact .finishes descriptor
  | loops action client =>
    simp only [step, Option.bind_eq_bind, Option.bind_eq_some_iff, Option.guard_eq_some',
      Option.pure_def, Option.some.injEq, Prod.exists, Option.isNone_iff_eq_none] at taken
    obtain ⟨_, ⟨idle, none_due⟩, server, calls, stepped, rfl⟩ := taken
    exact .loops action client server calls idle none_due stepped
  | calls =>
    simp only [step, Option.bind_eq_bind, Option.bind_eq_some_iff, Option.guard_eq_some',
      Option.pure_def, Option.some.injEq, Option.isNone_iff_eq_none] at taken
    obtain ⟨_, idle, connection, isDue, rfl⟩ := taken
    exact .calls connection idle isDue
  | answers answer =>
    simp only [step, Option.bind_eq_bind, Option.bind_eq_some_iff, Option.pure_def,
      Option.some.injEq] at taken
    obtain ⟨worker, working, next, stepped, rfl⟩ := taken
    exact .answers answer worker next working stepped
  | returns =>
    simp only [step, Option.bind_eq_bind, Option.bind_eq_some_iff, Option.pure_def,
      Option.some.injEq] at taken
    obtain ⟨worker, working, outcome, ended, server, stepped, rfl⟩ := taken
    exact .returns worker outcome server working ended stepped

/-- The connection that is due is open, readable, and in the slot that `ProcessEvents` has come
to. -/
theorem due_spec {server : Server} {connection : TcpConnection}
    (isDue : due server = some connection) : ∃ slot count, server.phase = .processing slot count ∧
      slot < count ∧ server.connections.slots[slot]? = some connection ∧
      connection.closed = false ∧ connection.readable = true := by
  unfold due at isDue
  split at isDue
  · rename_i slot count position
    split at isDue
    · rename_i below
      obtain ⟨read, passes⟩ := Option.filter_eq_some_iff.mp isDue
      simp only [Bool.and_eq_true, Bool.not_eq_eq_eq_not, Bool.not_true] at passes
      exact ⟨slot, count, position, below, read, passes⟩
    · cases isDue
  · cases isDue

/-- Where no connection is due, a slot that `ProcessEvents` has come to is closed or not
readable. -/
theorem not_due {server : Server} {slot count : Nat} {connection : TcpConnection}
    (none_due : due server = none) (position : server.phase = .processing slot count)
    (below : slot < count) (read : server.connections.slots[slot]? = some connection)
    (isOpen : connection.closed = false) : connection.readable = false := by
  simp only [due, position, below, ↓reduceIte, read] at none_due
  by_contra readable
  have isReadable : connection.readable = true := by simpa using readable
  simp [Option.filter, isOpen, isReadable] at none_due

/-! ## The runs of its parts -/

/-- The loop of the whole server takes the steps of the event loop alone, where the outcome of
a worker's call is that of the call. -/
theorem run_server {allowed : Server → Action → Prop}
    (serving : ∀ server outcome, allowed server (.serve outcome))
    {admitted : WholeServer → ServerEvent → Prop}
    (implied : ∀ state event, admitted state event → Loops allowed state event)
    {capacity listener : Nat} {own : Finset Nat} {trace : List ServerEvent} {state : WholeServer}
    (run : Runs.Run step admitted (start capacity listener own) trace state) :
    ∃ actions, Runs.Run EventLoop.step allowed (EventLoop.start capacity listener own) actions
      state.server := by
  have simulated : ∃ actions server, Runs.Run EventLoop.step allowed
      (EventLoop.start capacity listener own) actions server ∧ state.server = server := by
    apply run.simulates (fun whole server => whole.server = server) rfl
    rintro before event after _ rfl allowedHere taken
    have permitted := implied before event allowedHere
    cases step_effect taken with
    | loops action client server calls idle none_due stepped =>
      refine ⟨[action], server, Runs.Run.next Runs.Run.start permitted ?_, rfl⟩
      rw [EventLoop.step, stepped]
      rfl
    | returns worker outcome server working ended stepped =>
      exact ⟨[.serve outcome], server, Runs.Run.next Runs.Run.start (serving _ outcome) stepped, rfl⟩
    | _ => exact ⟨[], before.server, Runs.Run.start, rfl⟩
  obtain ⟨actions, _, reached, rfl⟩ := simulated
  exact ⟨actions, reached⟩

/-- What the workers share is what earlier calls have left, and the call in progress is a run of
the worker from there, on the descriptor of the connection that is due. -/
structure Called (state : WholeServer) : Prop where
  history : Worker.History state.shared
  call : ∀ worker, state.working = some worker → ∃ connection answers,
    due state.server = some connection ∧ Runs.Run Worker.step Runs.anywhere
      (Worker.start connection.fileDescriptor state.shared) answers worker

theorem run_called {admitted : WholeServer → ServerEvent → Prop} {capacity listener : Nat}
    {own : Finset Nat} {trace : List ServerEvent} {state : WholeServer}
    (run : Runs.Run step admitted (start capacity listener own) trace state) : Called state := by
  apply run.invariant Called ⟨.start, by simp [start]⟩
  intro before event after called _ taken
  cases step_effect taken with
  | arrives descriptor bytes => exact ⟨called.history, called.call⟩
  | finishes descriptor => exact ⟨called.history, called.call⟩
  | loops action client server calls idle none_due stepped =>
    exact ⟨called.history, by simp [idle]⟩
  | calls connection idle isDue =>
    refine ⟨called.history, ?_⟩
    rintro worker ⟨⟩
    exact ⟨connection, [], isDue, Runs.Run.start⟩
  | answers answer worker next working stepped =>
    refine ⟨called.history, ?_⟩
    rintro other ⟨⟩
    obtain ⟨connection, answers, isDue, ran⟩ := called.call worker working
    exact ⟨connection, answers ++ [answer], isDue, Runs.Run.next ran trivial stepped⟩
  | returns worker outcome server working ended stepped =>
    obtain ⟨connection, answers, _, ran⟩ := called.call worker working
    refine ⟨.next called.history ran ?_, by simp⟩
    unfold Worker.outcome at ended
    split at ended
    · rename_i returned
      exact Or.inl returned
    · rename_i cleanedUp
      exact Or.inr cleanedUp
    · cases ended

/-- The call in progress is on the descriptor of the connection that is due. -/
theorem Called.descriptor {state : WholeServer} (called : Called state) {worker : Worker}
    (working : state.working = some worker) :
    ∃ connection, due state.server = some connection ∧
      worker.fileDescriptor = connection.fileDescriptor := by
  obtain ⟨connection, answers, isDue, ran⟩ := called.call worker working
  exact ⟨connection, isDue, (Worker.run_drained ran.executed).sameDescriptor⟩

end WholeServer

end VHttp
