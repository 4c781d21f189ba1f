import VHttp.BatchedRequests
import VHttp.EdgeReports
import VHttp.ReportedEvents
import VHttp.WorkLeft

/-!
# Waiting clients are answered

A batch of complete requests waits on the socket of a connected client while the loop is in
epoll_wait. The kernel has an edge to report, its event carries the index of the client's slot, the
slot is marked, `ProcessEvents` comes to it, and the worker takes the whole batch and answers it. So
when the loop is back in epoll_wait, the client has its response, and has kept its slot.

Meanwhile other clients come and go, send, hang up, and have their own calls, which end anyhow. Of
this client it is asked that it sends nothing more and does not hang up, of the kernel that it
reports edges, that recv hands over what waits, and that no send fails.
-/

namespace VHttp

open EventLoop

namespace Worker

section Pieces

variable {worker after : Worker} {answer : Answer}

theorem receiveFailed_pieces {errno : Errno} (failed : worker.receiveFailed errno = some after) :
    piecesTaken after.calls = piecesTaken worker.calls := by
  have cleaned : piecesTaken worker.cleanup.calls = piecesTaken worker.calls := by
    simp [cleanup, log, Call.taken]
  cases errno with
  | again =>
    rcases leaveLoop_cases failed with ⟨_, rfl⟩ | ⟨_, _, _, rfl⟩
    · exact cleaned
    · rfl
  | dead | other =>
    obtain rfl := Option.some.inj failed
    exact cleaned

theorem refuse_pieces (refused : worker.refuse = some after) :
    piecesTaken after.calls = piecesTaken worker.calls := by
  obtain ⟨_, calls, _⟩ := refuse_cases refused
  simp [calls, Call.taken]

theorem peek_pieces {result : Received} {behind : Bytes}
    (peeked : worker.peek result behind = some after) :
    piecesTaken after.calls = piecesTaken worker.calls := by
  have logged : piecesTaken (worker.log [.peeked worker.fileDescriptor result]).calls =
      piecesTaken worker.calls := by
    simp [log, Call.taken]
  cases result with
  | failed errno => exact (receiveFailed_pieces peeked).trans logged
  | data bytes =>
    cases bytes with
    | nil =>
      obtain rfl := Option.some.inj peeked
      simp [cleanup, log, Call.taken]
    | cons byte bytes =>
      simp only [peek, Option.bind_eq_bind, Option.bind_eq_some_iff] at peeked
      obtain ⟨_, _, _, _, searched⟩ := peeked
      rcases search_cases searched with ⟨_, _, _, rfl⟩ | rfl | refused
      · exact logged
      · exact logged
      · exact (refuse_pieces refused).trans logged

theorem discard_pieces {size : Nat} {result : Received}
    (discarded : worker.discard size result = some after) :
    (piecesTaken after.calls).flatten =
      (piecesTaken worker.calls).flatten ++ (Answer.discard result).taken := by
  cases result with
  | failed errno =>
    have same := receiveFailed_pieces discarded
    rw [same]
    simp [log, Call.taken, Answer.taken]
  | data bytes =>
    simp only [discard, Option.bind_eq_bind, Option.bind_eq_some_iff, Option.pure_def,
      Option.some.injEq] at discarded
    obtain ⟨_, _, rfl⟩ := discarded
    simp [log, Call.taken, Answer.taken]

theorem parse_pieces {result : VHttpRequest.Parsed} (parsed : worker.parse result = some after) :
    piecesTaken after.calls = piecesTaken worker.calls := by
  simp only [parse, Option.bind_eq_bind, Option.bind_eq_some_iff, Option.pure_def] at parsed
  obtain ⟨_, _, parsed⟩ := parsed
  split at parsed
  · split at parsed
    · obtain rfl := Option.some.inj parsed
      rfl
    · obtain rfl := Option.some.inj parsed
      rfl
  · have same := refuse_pieces parsed
    exact same

theorem body_pieces (fresh : Nat → UInt8) (result : Received) :
    (piecesTaken (worker.body fresh result).calls).flatten =
      (piecesTaken worker.calls).flatten ++ (Answer.body fresh result).taken := by
  cases result with
  | failed errno => simp [body, log, Call.taken, Answer.taken]
  | data bytes => simp [body, log, Call.taken, Answer.taken]

/-- What an answer takes off the socket is noted with the calls. -/
theorem step_pieces (stepped : worker.step answer = some after) :
    (piecesTaken after.calls).flatten = (piecesTaken worker.calls).flatten ++ answer.taken := by
  cases phase : worker.phase with
  | peeking =>
    obtain ⟨result, behind, rfl, peeked⟩ := step_peeking phase stepped
    rw [peek_pieces peeked]
    exact (List.append_nil _).symm
  | discarding size =>
    obtain ⟨result, rfl, discarded⟩ := step_discarding phase stepped
    exact discard_pieces discarded
  | parsing =>
    obtain ⟨result, rfl, parsed⟩ := step_parsing phase stepped
    rw [parse_pieces parsed]
    exact (List.append_nil _).symm
  | receivingBody =>
    unfold Worker.step at stepped
    rw [phase] at stepped
    cases answer with
    | body fresh result =>
      obtain rfl := Option.some.inj stepped
      exact body_pieces fresh result
    | _ => cases stepped
  | _ =>
    have outside : ¬ worker.phase.InLoop := by
      rw [phase]
      exact id
    have nothing : answer.taken = [] := by
      cases step_taken stepped with
      | looping inside => exact absurd inside outside
      | _ => rfl
    rw [answer_pieces outside stepped, nothing, List.append_nil]

end Pieces

/-- Where nothing can be opened, a worker leaves no file open. -/
theorem noFiles_leavesNone {stream : Bytes} {descriptor : Nat} {shared : Shared}
    {answers : List Answer} {worker : Worker}
    (run : Runs.Run step (Succeeds noFiles stream) (start descriptor shared) answers worker) :
    worker.openFile = none := by
  apply run.invariant (fun reached => reached.openFile = none) rfl
  intro before answer after none succeeds stepped
  cases step_descriptors stepped with
  | serves served isServed openFile _ _ =>
    cases answer with
    | serve fresh beyond opening reading =>
      simp only [servedBy, Option.map_eq_some_iff] at isServed
      obtain ⟨path, made, rfl⟩ := isServed
      obtain ⟨rfl, rfl⟩ := Prod.mk.inj (succeeds.2 path made)
      have unopened : (vFileOpen .failed).fileDescriptor = Option.none := rfl
      rw [openFile, Served.calls_unopened unopened]
      rfl
    | _ => cases isServed
  | keeps _ untouched => exact untouched.openFile.trans none
  | cleans _ cleansUp => exact cleansUp.openFile.trans none

end Worker

namespace EventLoop

variable {before after : Server} {action : Action} {calls : List Syscall}

/-- An open connection keeps its slot in a step that neither hangs it up nor cleans it up. -/
theorem Effect.keepsServing {capacity : Nat} (effect : Effect before action after calls)
    (allocated : Allocated capacity before) {slot descriptor : Nat}
    (serves : before.ServesAt slot descriptor)
    (present : ∀ event ∈ before.phase.pending, event.index = slot → event.hangUp = false)
    (kept : ∀ connection, ¬ CleansUp before action slot connection) :
    after.ServesAt slot descriptor := by
  cases effect with
  | unchanged sameConnections _ => exact (servesAt_unchanged sameConnections).mpr serves
  | flagged _ _ _ _ read _ sameDescriptor sameClosed written _ =>
    exact (servesAt_same read sameDescriptor sameClosed written).mpr serves
  | hungUp event rest old position reported read _ written _ =>
    have nowClosed : ({ old with closed := true } : TcpConnection).closed = true := rfl
    refine (servesAt_closed nowClosed written).mpr ⟨?_, serves⟩
    rintro rfl
    have pending := still_pending position (List.Subset.refl _) List.mem_cons_self
    rw [present event pending rfl] at reported
    cases reported
  | reused accepted target index old _ _ first read _ written _ =>
    obtain ⟨held, closed⟩ := firstClosed_some first read
    exact (servesAt_reused held closed rfl written).mpr (Or.inr serves)
  | appended _ _ _ _ room written _ =>
    exact (servesAt_appended allocated room rfl written).mpr (Or.inr serves)
  | turnedAway _ _ _ _ _ sameConnections _ => exact (servesAt_unchanged sameConnections).mpr serves
  | served _ _ _ _ _ _ _ _ read wasOpen _ sameDescriptor stillOpen written _ =>
    exact (servesAt_same read sameDescriptor (stillOpen.trans wasOpen.symm) written).mpr serves
  | cleanedUp target old _ _ cleans _ _ _ nowClosed written _ =>
    refine (servesAt_closed nowClosed written).mpr ⟨?_, serves⟩
    rintro rfl
    exact kept old cleans

/-- What epoll_wait fetches is pending. -/
theorem Advances.fetches {kernel : Kernel} {before after : Phase} {reports : List Report}
    (moves : Advances kernel before (.wait reports) after) :
    ∃ events, reports.mapM (eventOf kernel) = some events ∧ after = .handling .hangUp events := by
  cases moves with
  | waits _ events _ _ fetched => exact ⟨events, fetched, rfl⟩

/-- A step other than epoll_wait leaves no event that was not pending. -/
theorem pending_kept (taken : stepCalls before action = some (after, calls))
    (other : ∀ reports, action ≠ .wait reports) : after.phase.pending ⊆ before.phase.pending := by
  obtain ⟨dropped, _⟩ := (step_advances taken).drops other
  rw [dropped]
  exact List.drop_subset _ _

end EventLoop

/-- The event is an epoll_wait. -/
def ServerEvent.Waits : ServerEvent → Prop
  | .loops (.wait _) _ => True
  | _ => False

namespace WholeServer

/-- What a call has taken off its socket so far, and what waits there. -/
def stream (state : WholeServer) (worker : Worker) : Bytes :=
  (Worker.piecesTaken worker.calls).flatten ++ (state.sockets worker.fileDescriptor).waiting

/-- The conditions under which one client is followed: it sends nothing more and stays, no hang-up
is reported under the index of its slot, an edge of its socket is reported, and in its call recv
hands over what waits, and sends succeed. -/
structure Attends (files : Worker.FileSystem) (slot descriptor : Nat) (state : WholeServer)
    (event : ServerEvent) : Prop where
  admitted : Admitted state event
  silent : ∀ bytes, event ≠ .arrives descriptor bytes
  lasting : event ≠ .finishes descriptor
  present : ∀ reports client, event = .loops (.wait reports) client → ∀ report ∈ reports,
    state.server.kernel.registered.lookup report.descriptor = some slot → report.hangUp = false
  reported : ∀ reports client, event = .loops (.wait reports) client →
    (state.sockets descriptor).edge = true → ∃ report ∈ reports, report.descriptor = descriptor
  succeeds : ∀ answer worker, event = .answers answer → state.working = some worker →
    worker.fileDescriptor = descriptor →
      Worker.Succeeds files (state.stream worker) worker answer

/-- A connected client whose bytes wait, and whose call has not come yet. -/
structure Unanswered (slot descriptor : Nat) (bytes : Bytes) (state : WholeServer) : Prop where
  serves : state.server.ServesAt slot descriptor
  waits : (state.sockets descriptor).waiting = bytes
  present : ∀ event ∈ state.server.phase.pending, event.index = slot → event.hangUp = false
  elsewhere : ∀ worker, state.working = some worker → worker.fileDescriptor ≠ descriptor

/-- The call for the client, as far as it has come. -/
structure InCall (batch : Worker.Batch) (slot descriptor : Nat) (worker : Worker)
    (state : WholeServer) : Prop where
  serves : state.server.ServesAt slot descriptor
  working : state.working = some worker
  run : ∃ answers, Runs.Run Worker.step
    (Worker.Succeeds batch.files (Worker.requestStream batch.requests))
    (Worker.start descriptor state.shared) answers worker
  whole : state.stream worker = Worker.requestStream batch.requests

/-- The client waits behind the step, and its edge is reported with an epoll_wait; or the worker is
called for it. -/
inductive Onward (batch : Worker.Batch) (slot descriptor : Nat) (before : WholeServer)
    (event : ServerEvent) (after : WholeServer) : Prop where
  | waits (unanswered : Unanswered slot descriptor (Worker.requestStream batch.requests) after)
      (edge : (before.sockets descriptor).edge = false ∨ event.Waits →
        (after.sockets descriptor).edge = false)
  | called (worker : Worker) (inCall : InCall batch slot descriptor worker after)

/-- Among the steps of a run is the return of a call that has sent the client the answer to its
batch, leaves nothing on its socket, and leaves it in its slot. -/
def Answered (batch : Worker.Batch) (slot descriptor : Nat) (origin : WholeServer)
    (trace : List ServerEvent) : Prop :=
  ∃ earlier rest before after worker, trace = earlier ++ .returns :: rest ∧
    Runs.Run step (Attends batch.files slot descriptor) origin earlier before ∧
    before.working = some worker ∧ worker.fileDescriptor = descriptor ∧
    batch.Answer (Worker.written worker.calls) ∧ step before .returns = some after ∧
    after.server.ServesAt slot descriptor ∧ (after.sockets descriptor).waiting = []

/-- How far the server has come with a client that has no answer yet. -/
inductive Stage (batch : Worker.Batch) (slot descriptor : Nat) (trace : List ServerEvent)
    (state : WholeServer) : Prop where
  | unreported (unanswered : Unanswered slot descriptor (Worker.requestStream batch.requests) state)
      (unturned : ∀ event ∈ trace, ¬ event.Waits)
  | reported (unanswered : Unanswered slot descriptor (Worker.requestStream batch.requests) state)
      (edge : (state.sockets descriptor).edge = false)
  | called (worker : Worker) (inCall : InCall batch slot descriptor worker state)

/-- A step goes on with the call, or is its return. -/
inductive Continues (batch : Worker.Batch) (slot descriptor : Nat) (worker : Worker)
    (before : WholeServer) : ServerEvent → WholeServer → Prop where
  | stays {event : ServerEvent} {after : WholeServer} (next : Worker)
      (inCall : InCall batch slot descriptor next after) (server : after.server = before.server)
      (shared : after.shared = before.shared) :
      Continues batch slot descriptor worker before event after
  | returns (outcome : Outcome) (server : Server) (ended : worker.outcome = some outcome)
      (stepped : EventLoop.step before.server (.serve outcome) = some server) :
      Continues batch slot descriptor worker before .returns
        { before with server := server, shared := worker.shared, working := none }

section Unanswered

variable {before after : WholeServer} {files : Worker.FileSystem} {slot descriptor : Nat}
variable {bytes : Bytes} {batch : Worker.Batch}

/-- Nothing that happens to another socket matters. -/
theorem setSocket_other {state : WholeServer} {changed : Nat} (socket : Socket)
    (apart : descriptor ≠ changed) :
    (state.setSocket changed socket).sockets descriptor = state.sockets descriptor :=
  if_neg apart

theorem Unanswered.peer (unanswered : Unanswered slot descriptor bytes before) {changed : Nat}
    (socket : Socket) (apart : descriptor ≠ changed) :
    Unanswered slot descriptor bytes (before.setSocket changed socket) := by
  refine ⟨unanswered.serves, ?_, unanswered.present, unanswered.elsewhere⟩
  rw [setSocket_other socket apart]
  exact unanswered.waits

/-- A connection that a call would clean up is due. -/
theorem not_cleaned {server : Server} {action : Action} (none_due : due server = none)
    (connection : TcpConnection) : ¬ CleansUp server action slot connection := by
  rintro ⟨count, file, _, position, below, read, isOpen, readable⟩
  rw [not_due none_due position below read isOpen] at readable
  cases readable

/-- A step of the loop leaves the client waiting. -/
theorem Unanswered.loops {capacity : Nat} {action : Action} {client : Socket} {server : Server}
    {calls : List Syscall} (unanswered : Unanswered slot descriptor bytes before)
    (sided : Sided capacity before.server) (apart : descriptor ≠ 1)
    (attends : Attends files slot descriptor before (.loops action client))
    (idle : before.working = none) (none_due : due before.server = none)
    (stepped : stepCalls before.server action = some (server, calls)) :
    Unanswered slot descriptor bytes { before with
        server := server
        sockets := socketsAfter before.sockets calls client action } := by
  obtain ⟨_, effect, _⟩ := EventLoop.step_effect stepped
  have isOpen := sided.tracked.lookup
    (sided.indexed.addressed slot descriptor unanswered.serves apart).1
  constructor
  case serves =>
    exact effect.keepsServing sided.allocated unanswered.serves unanswered.present
      (not_cleaned none_due)
  case waits =>
    rcases socketsAfter_cases effect isOpen before.sockets client with same | ⟨_, _, _, same⟩
    · rw [← unanswered.waits, ← same]
    · change (socketsAfter before.sockets calls client action descriptor).waiting = bytes
      rw [same]
      exact unanswered.waits
  case present =>
    intro event member index
    by_cases waits : ∃ reports, action = .wait reports
    · obtain ⟨reports, rfl⟩ := waits
      obtain ⟨events, fetched, position⟩ := (step_advances stepped).fetches
      change event ∈ server.phase.pending at member
      rw [position] at member
      obtain ⟨report, reports_it, made⟩ := mapM_eventOf fetched event member
      simp only [eventOf, Option.map_eq_some_iff] at made
      obtain ⟨found, isFound, rfl⟩ := made
      exact attends.present reports client rfl report reports_it (index ▸ isFound)
    · have other : ∀ reports, action ≠ .wait reports := fun reports same => waits ⟨reports, same⟩
      exact unanswered.present event (pending_kept stepped other member) index
  case elsewhere =>
    intro worker working
    rw [idle] at working
    cases working

/-- An epoll_wait reports the edge, and the loop makes none. -/
theorem edge_reported {capacity : Nat} {action : Action} {client : Socket} {server : Server}
    {calls : List Syscall} (serves : before.server.ServesAt slot descriptor)
    (sided : Sided capacity before.server) (apart : descriptor ≠ 1)
    (attends : Attends files slot descriptor before (.loops action client))
    (stepped : stepCalls before.server action = some (server, calls))
    (either : (before.sockets descriptor).edge = false ∨ ServerEvent.Waits (.loops action client)) :
    (socketsAfter before.sockets calls client action descriptor).edge = false := by
  obtain ⟨_, effect, _⟩ := EventLoop.step_effect stepped
  have isOpen := sided.tracked.lookup (sided.indexed.addressed slot descriptor serves apart).1
  rcases socketsAfter_cases effect isOpen before.sockets client with same | ⟨_, _, _, same⟩
  · rw [same]
    rcases either with none | waits
    · exact none
    · cases action with
      | wait reports =>
        by_contra edge
        obtain ⟨report, member, rfl⟩ :=
          attends.reported reports client rfl (by simpa using edge)
        have reported : report.descriptor ∈ reports.map Report.descriptor :=
          List.mem_map_of_mem member
        have gone : (socketsAfter before.sockets calls client (.wait reports)
            report.descriptor).edge = false := by
          simp [socketsAfter, reported]
        rw [same] at gone
        exact edge gone
      | _ => exact absurd waits id
  · rw [same]

/-- The return of a call for another client leaves this one waiting. -/
theorem Unanswered.returns {capacity : Nat} {worker : Worker} {outcome : Outcome} {server : Server}
    (unanswered : Unanswered slot descriptor bytes before) (sided : Sided capacity before.server)
    (called : Called before) (working : before.working = some worker)
    (stepped : EventLoop.step before.server (.serve outcome) = some server) :
    Unanswered slot descriptor bytes
      { before with server := server, shared := worker.shared, working := none } := by
  obtain ⟨calls, made⟩ := step_calls stepped
  obtain ⟨_, effect, _⟩ := EventLoop.step_effect made
  obtain ⟨connection, isDue, sameDescriptor⟩ := called.descriptor working
  have elsewhere : ∀ other, ¬ CleansUp before.server (.serve outcome) slot other := by
    rintro other ⟨_, _, _, position, _, read, _⟩
    obtain ⟨current, count, here, _, readDue, _⟩ := due_spec isDue
    obtain ⟨rfl, rfl⟩ := Phase.processing.inj (position.symm.trans here)
    obtain ⟨held, ⟨_, there⟩, _, rfl⟩ := unanswered.serves
    obtain rfl : connection = held := Option.some.inj (readDue.symm.trans there)
    exact unanswered.elsewhere worker working sameDescriptor
  constructor
  case serves =>
    exact effect.keepsServing sided.allocated unanswered.serves unanswered.present elsewhere
  case waits => exact unanswered.waits
  case present =>
    intro event member
    exact unanswered.present event (pending_kept made (by simp) member)
  case elsewhere => simp

/-- Every step leaves the client waiting, or calls the worker for it. -/
theorem Unanswered.step {capacity : Nat} {event : ServerEvent}
    (unanswered : Unanswered slot descriptor (Worker.requestStream batch.requests) before)
    (sided : Sided capacity before.server) (called : Called before) (apart : descriptor ≠ 1)
    (attends : Attends files slot descriptor before event) (taken : step before event = some after) :
    Onward batch slot descriptor before event after := by
  cases step_effect taken with
  | arrives changed sent =>
    have other : descriptor ≠ changed := by
      rintro rfl
      exact attends.silent sent rfl
    refine .waits (unanswered.peer _ other) fun either => ?_
    rw [setSocket_other _ other]
    exact either.resolve_right id
  | finishes changed =>
    have other : descriptor ≠ changed := by
      rintro rfl
      exact attends.lasting rfl
    refine .waits (unanswered.peer _ other) fun either => ?_
    rw [setSocket_other _ other]
    exact either.resolve_right id
  | loops action client server calls idle none_due stepped =>
    exact .waits (unanswered.loops sided apart attends idle none_due stepped)
      (edge_reported unanswered.serves sided apart attends stepped)
  | calls connection idle isDue =>
    by_cases here : connection.fileDescriptor = descriptor
    · subst here
      exact .called _ ⟨unanswered.serves, rfl, ⟨[], .start⟩, unanswered.waits⟩
    · refine .waits ⟨unanswered.serves, unanswered.waits, unanswered.present, ?_⟩
        (fun either => either.resolve_right id)
      rintro worker ⟨⟩
      exact here
  | answers answer worker next working stepped =>
    have other : descriptor ≠ worker.fileDescriptor :=
      Ne.symm (unanswered.elsewhere worker working)
    have moved := unanswered.peer { before.sockets worker.fileDescriptor with
      waiting := (before.sockets worker.fileDescriptor).waiting.drop answer.taken.length } other
    refine .waits ⟨moved.serves, moved.waits, moved.present, ?_⟩ fun either => ?_
    · rintro follower ⟨⟩
      rw [Worker.step_descriptor stepped]
      exact Ne.symm other
    · have none := either.resolve_right id
      rw [← setSocket_other _ other] at none
      exact none
  | returns worker outcome server working ended stepped =>
    exact .waits (unanswered.returns sided called working stepped)
      (fun either => either.resolve_right id)

end Unanswered

section InCall

variable {before after : WholeServer} {slot descriptor : Nat} {batch : Worker.Batch}
variable {worker next : Worker}

theorem InCall.ofClient (inCall : InCall batch slot descriptor worker before) :
    worker.fileDescriptor = descriptor := by
  obtain ⟨_, run⟩ := inCall.run
  exact (Worker.run_drained run.executed).sameDescriptor

theorem InCall.peer (inCall : InCall batch slot descriptor worker before) {changed : Nat}
    (socket : Socket) (apart : descriptor ≠ changed) :
    InCall batch slot descriptor worker (before.setSocket changed socket) := by
  refine ⟨inCall.serves, inCall.working, inCall.run, ?_⟩
  rw [stream, inCall.ofClient, setSocket_other socket apart, ← inCall.ofClient]
  exact inCall.whole

/-- A call that takes bytes notes them, so that nothing of the batch is lost. -/
theorem InCall.answers {answer : Worker.Answer}
    (inCall : InCall batch slot descriptor worker before)
    (attends : Attends batch.files slot descriptor before (.answers answer))
    (stepped : worker.step answer = some next) :
    InCall batch slot descriptor next { before.setSocket worker.fileDescriptor
        { before.sockets worker.fileDescriptor with
          waiting := (before.sockets worker.fileDescriptor).waiting.drop answer.taken.length } with
      working := some next } := by
  have succeeds := attends.succeeds answer worker rfl inCall.working inCall.ofClient
  rw [inCall.whole] at succeeds
  obtain ⟨answers, run⟩ := inCall.run
  refine ⟨inCall.serves, rfl, ⟨answers ++ [answer], run.next succeeds stepped⟩, ?_⟩
  have waits := Worker.taken_waits (attends.admitted.1 worker inCall.working) stepped
  obtain ⟨behind, split⟩ := waits
  have left : (before.sockets worker.fileDescriptor).waiting.drop answer.taken.length = behind := by
    rw [← split, List.drop_left]
  have whole := inCall.whole
  simp only [stream, ← split] at whole
  simp only [stream, setSocket, Worker.step_descriptor stepped, ↓reduceIte, left,
    Worker.step_pieces stepped, List.append_assoc]
  exact whole

/-- A call for the batch does not end before it has answered it. -/
theorem InCall.returns {capacity : Nat} {outcome : Outcome} {server : Server}
    (inCall : InCall batch slot descriptor worker before) (sided : Sided capacity before.server)
    (called : Called before) (ended : worker.outcome = some outcome)
    (stepped : EventLoop.step before.server (.serve outcome) = some server) :
    batch.Answer (Worker.written worker.calls) ∧ server.ServesAt slot descriptor ∧
      (before.sockets descriptor).waiting = [] := by
  obtain ⟨answers, run⟩ := inCall.run
  have sound := called.history.sound
  have returned : worker.phase = .returned := by
    refine (Worker.run_batched sound batch.some batch.fits run).returned ?_
    unfold Worker.outcome at ended
    split at ended
    · exact Or.inl (by assumption)
    · exact Or.inr (by assumption)
    · cases ended
  obtain ⟨taken, path, isPath, bytes⟩ :=
    Worker.batch_returned sound batch.some batch.fits run returned
  refine ⟨⟨path, isPath, bytes⟩, ?_, ?_⟩
  · obtain ⟨calls, made⟩ := step_calls stepped
    obtain ⟨_, effect, _⟩ := EventLoop.step_effect made
    obtain ⟨_, isDue, _⟩ := called.descriptor inCall.working
    obtain ⟨_, _, position, _⟩ := due_spec isDue
    refine effect.keepsServing sided.allocated inCall.serves ?_ ?_
    · simp [position, Phase.pending]
    · rintro connection ⟨_, _, cleans, _⟩
      simp [Worker.outcome, returned] at ended
      simp [← ended] at cleans
  · have whole := inCall.whole
    have all : (Worker.piecesTaken worker.calls).flatten =
        Worker.requestStream batch.requests := by
      rw [taken]
      rfl
    rw [stream, all, inCall.ofClient] at whole
    exact List.append_right_eq_self.mp whole

/-- What serves a batch is what the kernel and the parser answer, on a socket whose peer has not
closed. -/
theorem InCall.promised {answer : Worker.Answer}
    (inCall : InCall batch slot descriptor worker before) (sound : before.shared.Sound)
    (lasting : (before.sockets descriptor).finished = false)
    (succeeds : Worker.Succeeds batch.files (Worker.requestStream batch.requests) worker answer) :
    Promised before (.answers answer) := by
  rintro current working
  obtain rfl : worker = current := Option.some.inj (inCall.working.symm.trans working)
  obtain ⟨answers, run⟩ := inCall.run
  have waits : Worker.waiting (Worker.requestStream batch.requests) worker.calls =
      (before.sockets worker.fileDescriptor).waiting := by
    rw [← inCall.whole, stream, Worker.waiting, List.drop_left]
  rw [← inCall.ofClient] at lasting
  obtain ⟨delivers, succeeded⟩ := succeeds
  have whole_taken : ∀ count, 0 < count → (before.sockets worker.fileDescriptor).waiting ≠ [] →
      (before.sockets worker.fileDescriptor).waiting.take count ≠ [] := by
    intro count positive some none
    exact some ((List.take_eq_nil_iff.mp none).resolve_left positive.ne')
  cases Worker.run_batched sound batch.some batch.fits run with
  | replying phase _ _ _ _ =>
    cases here : worker.phase <;> simp_all [Worker.Phase.Replying, Socket.Answers]
  | reading place early _ =>
    cases place with
    | peeking _ _ _ phase _ _ =>
      cases answer with
      | peek result behind =>
        simp only [Worker.Delivers, phase, waits] at delivers
        simp only [Socket.Answers, phase]
        split at delivers
        · rename_i none
          rcases delivers with rfl | rfl
          · simp [Socket.Ready, none, lasting]
          · exact absurd succeeded id
        · rename_i some
          subst delivers
          exact ⟨List.take_prefix _ _, fun none =>
            absurd none (whole_taken _ (by decide) some)⟩
      | _ => simp [Socket.Answers, phase]
    | discarding parsed request rest split phase reading _ =>
      cases answer with
      | discard result =>
        simp only [Worker.Delivers, phase, waits] at delivers
        subst delivers
        simp only [Socket.Answers, phase]
        have some : (before.sockets worker.fileDescriptor).waiting ≠ [] := by
          rw [← waits, Worker.waiting_rest split reading.taken]
          exact fun empty => List.cons_ne_nil _ _ (Worker.requestStream_empty empty)
        exact ⟨List.take_prefix _ _, fun none =>
          absurd none (whole_taken _ request.bytes_positive some)⟩
      | _ => simp [Socket.Answers, phase]
    | parsing _ _ _ _ phase _ _ =>
      cases answer with
      | parse result =>
        simp only [Worker.Delivers, phase] at delivers
        simpa only [Socket.Answers, phase] using delivers
      | _ => simp [Socket.Answers, phase]
    | serving phase _ =>
      simp [Socket.Answers, phase]
    | left phase _ _ => exact absurd early (not_or.mpr phase)

/-- A run of the worker alone that serves the batch is one of the server. -/
theorem InCall.carried {answers : List Worker.Answer}
    (inCall : InCall batch slot descriptor worker before) (sound : before.shared.Sound)
    (lasting : (before.sockets descriptor).finished = false)
    (run : Runs.Run Worker.step (Worker.Succeeds batch.files
      (Worker.requestStream batch.requests)) worker answers next) :
    ∃ final, Runs.Run WholeServer.step (Attends batch.files slot descriptor) before
        (answers.map .answers) final ∧ InCall batch slot descriptor next final ∧
      final.server = before.server := by
  have carried : ∃ final, Runs.Run WholeServer.step (Attends batch.files slot descriptor) before
        (answers.map .answers) final ∧ InCall batch slot descriptor next final ∧
      final.server = before.server ∧ final.shared = before.shared ∧
      (final.sockets descriptor).finished = false := by
    induction run with
    | start => exact ⟨before, .start, inCall, rfl, rfl, lasting⟩
    | @next earlier middle after answer _ succeeds stepped inductionHypothesis =>
      obtain ⟨final, reached, here, server, shared, open'⟩ := inductionHypothesis
      have promised := here.promised (shared ▸ sound) open' succeeds
      have attends : Attends batch.files slot descriptor final (.answers answer) := by
        refine ⟨⟨promised, trivial⟩, by simp, by simp, by simp, by simp, ?_⟩
        rintro _ current ⟨⟩ working _
        obtain rfl : middle = current := Option.some.inj (here.working.symm.trans working)
        rwa [here.whole]
      refine ⟨_, ?_, here.answers attends stepped, server, shared, ?_⟩
      · rw [List.map_append]
        refine reached.next attends ?_
        simp only [WholeServer.step, here.working, stepped, Option.bind_eq_bind, Option.bind_some,
          Option.pure_def]
      · by_cases same : descriptor = middle.fileDescriptor
        · subst same
          simpa [setSocket] using open'
        · simpa [setSocket, same] using open'
  obtain ⟨final, reached, here, server, _, _⟩ := carried
  exact ⟨final, reached, here, server⟩

/-- While the call lasts, no other call begins and the loop makes no step. -/
theorem InCall.step {event : ServerEvent} (inCall : InCall batch slot descriptor worker before)
    (attends : Attends batch.files slot descriptor before event)
    (taken : WholeServer.step before event = some after) :
    Continues batch slot descriptor worker before event after := by
  cases step_effect taken with
  | arrives changed sent =>
    have other : descriptor ≠ changed := by
      rintro rfl
      exact attends.silent sent rfl
    exact .stays worker (inCall.peer _ other) rfl rfl
  | finishes changed =>
    have other : descriptor ≠ changed := by
      rintro rfl
      exact attends.lasting rfl
    exact .stays worker (inCall.peer _ other) rfl rfl
  | loops _ _ _ _ idle => simp [inCall.working] at idle
  | calls _ idle => simp [inCall.working] at idle
  | answers answer current next working stepped =>
    obtain rfl : worker = current := Option.some.inj (inCall.working.symm.trans working)
    exact .stays next (inCall.answers attends stepped) rfl rfl
  | returns current outcome server working ended stepped =>
    obtain rfl : worker = current := Option.some.inj (inCall.working.symm.trans working)
    exact .returns outcome server ended stepped

end InCall

section Stage

variable {batch : Worker.Batch} {slot descriptor capacity : Nat} {origin before after : WholeServer}
variable {trace : List ServerEvent} {event : ServerEvent}

/-- Every step before the call leads to it, or leaves the client where it is. -/
theorem Stage.step (stage : Stage batch slot descriptor trace before)
    (sided : Sided capacity before.server) (called : Called before) (apart : descriptor ≠ 1)
    (attends : Attends batch.files slot descriptor before event)
    (taken : WholeServer.step before event = some after) :
    Stage batch slot descriptor (trace ++ [event]) after ∨
      ∃ worker, InCall batch slot descriptor worker before ∧
        Continues batch slot descriptor worker before event after := by
  cases stage with
  | unreported unanswered unturned =>
    refine Or.inl ?_
    cases unanswered.step sided called apart attends taken with
    | waits still edge =>
      by_cases turns : event.Waits
      · exact .reported still (edge (Or.inr turns))
      · refine .unreported still fun other member => ?_
        rcases List.mem_append.mp member with earlier | last
        · exact unturned other earlier
        · rwa [List.mem_singleton.mp last]
    | called worker inCall => exact .called worker inCall
  | reported unanswered edge =>
    refine Or.inl ?_
    cases unanswered.step sided called apart attends taken with
    | waits still reported => exact .reported still (reported (Or.inl edge))
    | called worker inCall => exact .called worker inCall
  | called worker inCall => exact Or.inr ⟨worker, inCall, inCall.step attends taken⟩

/-- A client that has no answer behind a turn keeps the loop out of epoll_wait: its edge has been
reported, so there nobody would be due to look at its socket. -/
theorem Stage.busy (stage : Stage batch slot descriptor trace before)
    (turned : ∃ event ∈ trace, event.Waits) (vigilant : Vigilant before) (called : Called before)
    (apart : descriptor ≠ 1) : before.server.phase ≠ .waiting := by
  intro waiting
  cases stage with
  | unreported _ unturned =>
    obtain ⟨event, member, turns⟩ := turned
    exact unturned event member turns
  | reported still edge =>
    have ready : (before.sockets descriptor).Ready := by
      refine Or.inl fun empty => batch.some (Worker.requestStream_empty ?_)
      rw [← still.waits, empty]
    rcases vigilant.noticed slot descriptor still.serves apart ready with pending | watched
    · rw [edge] at pending
      cases pending
    · exact watched.busy waiting
  | called worker inCall =>
    obtain ⟨_, isDue, _⟩ := called.descriptor inCall.working
    obtain ⟨_, _, position, _⟩ := due_spec isDue
    rw [waiting] at position
    cases position

/-- What has been answered stays so. -/
theorem Answered.later (answered : Answered batch slot descriptor origin trace) :
    Answered batch slot descriptor origin (trace ++ [event]) := by
  obtain ⟨earlier, rest, middle, next, worker, rfl, reached, behind⟩ := answered
  exact ⟨earlier, rest ++ [event], middle, next, worker, by simp, reached, behind⟩

/-- The runs of one client's conditions extend a run of the server. -/
theorem attended_run {files : Worker.FileSystem} {listener : Nat} {own : Finset Nat}
    {more : List ServerEvent}
    (run : Runs.Run WholeServer.step Admitted (start capacity listener own) trace before)
    (goes : Runs.Run WholeServer.step (Attends files slot descriptor) before more after) :
    Runs.Run WholeServer.step Admitted (start capacity listener own) (trace ++ more) after :=
  run.append (goes.weaken fun _ _ attends => attends.admitted)

end Stage

/-- A client is connected on another descriptor than 1, a batch of complete requests waits on its
socket, and its call has not come yet. It sends nothing more and stays, and the kernel is kind to
it. Then whatever the other clients do and whatever becomes of their calls, when the loop is in
epoll_wait again behind a turn, a call has sent the client the answer to its whole batch, has left
nothing on its socket, and has left the client in its slot.

Induct on the continuation: the client waits, then its edge has been reported, then it is called,
and only its own return leads on from there. -/
theorem waiting_batch_is_answered {capacity listener : Nat} {own : Finset Nat}
    (listening : listener ∈ own) {trace : List ServerEvent} {state : WholeServer}
    (run : Runs.Run step Admitted (start capacity listener own) trace state)
    {batch : Worker.Batch} {slot descriptor : Nat} (apart : descriptor ≠ 1)
    (unanswered : Unanswered slot descriptor (Worker.requestStream batch.requests) state)
    {more : List ServerEvent} {later : WholeServer}
    (goes : Runs.Run step (Attends batch.files slot descriptor) state more later)
    (turned : ∃ event ∈ more, event.Waits) (back : later.server.phase = .waiting) :
    Answered batch slot descriptor state more := by
  have kept : Answered batch slot descriptor state more ∨
      Stage batch slot descriptor more later := by
    apply goes.induct (fun front reached => Answered batch slot descriptor state front ∨
      Stage batch slot descriptor front reached) (Or.inr (.unreported unanswered (by simp)))
    intro front before event after reached kept attends taken
    have earlier := attended_run run reached
    have sided := run_sided listening earlier
    have called := run_called earlier
    rcases kept with answered | stage
    · exact Or.inl answered.later
    · rcases stage.step sided called apart attends taken with still | ⟨worker, inCall, continues⟩
      · exact Or.inr still
      · cases continues with
        | stays next inCall _ _ => exact Or.inr (.called next inCall)
        | returns outcome server ended stepped =>
          obtain ⟨answer, serves, emptied⟩ := inCall.returns sided called ended stepped
          exact Or.inl ⟨front, [], before, _, worker, rfl, reached, inCall.working,
            inCall.ofClient, answer, taken, serves, emptied⟩
  rcases kept with answered | stage
  · exact answered
  · have whole := attended_run run goes
    exact absurd back (stage.busy turned (run_vigilant listening whole) (run_called whole) apart)

/-- Steps of the loop that fetch and accept nothing are attended to. -/
theorem attends_loops {files : Worker.FileSystem} {slot descriptor : Nat} {state : WholeServer}
    {action : Action} {client : Socket} (fetches : ∀ reports, action ≠ .wait reports)
    (accepts : ∀ descriptor, action ≠ .read (some descriptor)) :
    Attends files slot descriptor state (.loops action client) := by
  have promised : Promised state (.loops action client) := by
    cases action with
    | wait reports => exact absurd rfl (fetches reports)
    | _ => trivial
  refine ⟨admitted_loops promised accepts, by simp, by simp, ?_, ?_, by simp⟩
  · rintro reports _ ⟨⟩
    exact absurd rfl (fetches reports)
  · rintro reports _ ⟨⟩
    exact absurd rfl (fetches reports)

/-- The loop behind the readable event of the client on descriptor 5. -/
def readied : Server := { connected with
  connections := ⟨[⟨0, 5, false, true, false⟩, .zero], 1, false⟩
  phase := .processing 0 1 }

/-- A client sends a batch while the loop is in epoll_wait, and comes to be called. -/
theorem run_calls (batch : Worker.Batch) : ∃ trace state more later,
    Runs.Run step Admitted (start 2 3 {3}) trace state ∧
    Unanswered 0 5 (Worker.requestStream batch.requests) state ∧
    Runs.Run step (Attends batch.files 0 5) state more later ∧ (∃ event ∈ more, event.Waits) ∧
    later.server = readied ∧ later.shared = Worker.Shared.start ∧
    (later.sockets 5).finished = false ∧
    InCall batch 0 5 (Worker.start 5 Worker.Shared.start) later := by
  have sends : ∃ trace sockets, Runs.Run step Admitted (start 2 3 {3}) trace
        ⟨connected, Worker.Shared.start, sockets, none⟩ ∧
      sockets 5 = ⟨Worker.requestStream batch.requests, false, true⟩ := by
    obtain ⟨_, _, reached, quiet⟩ := run_connected
    refine ⟨_, _, reached.take (.arrives 5 (Worker.requestStream batch.requests))
      ⟨trivial, trivial⟩ rfl, ?_⟩
    simp [quiet, Socket.quiet]
  obtain ⟨trace, sockets, run, sent⟩ := sends
  have serves : connected.ServesAt 0 5 :=
    ⟨⟨0, 5, false, false, false⟩, ⟨by decide, rfl⟩, rfl, rfl⟩
  have unanswered : Unanswered 0 5 (Worker.requestStream batch.requests)
      ⟨connected, Worker.Shared.start, sockets, none⟩ :=
    ⟨serves, congrArg Socket.waiting sent, by simp [connected, Phase.pending], by simp⟩
  have fetches : Attends batch.files 0 5 ⟨connected, Worker.Shared.start, sockets, none⟩
      (.loops (.wait [⟨5, false, true, false⟩]) .quiet) := by
    refine ⟨admitted_loops ?_ (by simp), by simp, by simp, by simp, by simp, by simp⟩
    simp [Promised]
  have waits : Runs.Run step (Attends batch.files 0 5)
      ⟨connected, Worker.Shared.start, sockets, none⟩
      ([] ++ [.loops (.wait [⟨5, false, true, false⟩]) .quiet]) _ := Runs.Run.start.next fetches rfl
  have hangs := waits.take (.loops .hangUp .quiet) (attends_loops (by simp) (by simp)) rfl
  have marks := hangs.take (.loops (.read none) .quiet) (attends_loops (by simp) (by simp)) rfl
  have writes := marks.take (.loops .write .quiet) (attends_loops (by simp) (by simp)) rfl
  have processes := writes.take (.loops .process .quiet) (attends_loops (by simp) (by simp)) rfl
  have calls := processes.take .calls
    ⟨⟨trivial, trivial⟩, by simp, by simp, by simp, by simp, by simp⟩ rfl
  refine ⟨trace, _, _, _, run, unanswered, calls,
    ⟨.loops (.wait [⟨5, false, true, false⟩]) .quiet, by simp, trivial⟩, rfl, rfl, ?_, ?_⟩
  · simp [socketsAfter, sent]
  · refine ⟨⟨⟨0, 5, false, true, false⟩, ⟨Nat.one_pos, rfl⟩, rfl, rfl⟩, rfl, ⟨[], .start⟩, ?_⟩
    simp [stream, Worker.start, socketsAfter, sent]

/-- Two requests for the root are answered, where there are no files. -/
theorem waiting_batch_is_answered_root : ∃ trace state more later,
    Runs.Run step Admitted (start 2 3 {3}) trace state ∧
    Runs.Run step (Attends Worker.noFiles 0 5) state more later ∧
    later.server.phase = .waiting ∧ Answered Worker.rootBatch 0 5 state more := by
  obtain ⟨trace, state, more, before, run, unanswered, begins, ⟨event, member, turns⟩, atSlot, shared,
    lasting, inCall⟩ := run_calls Worker.rootBatch
  have sound : before.shared.Sound := shared ▸ Worker.History.start.sound
  obtain ⟨answers, worker, serving, returned⟩ :=
    Worker.rootBatch_answerable.returns Worker.History.start.sound 5
  obtain ⟨final, goes, ended, sameServer⟩ := inCall.carried sound lasting serving
  obtain ⟨server, _, _, _⟩ := final
  obtain rfl : server = readied := sameServer.trans atSlot
  obtain rfl : _ = some worker := ended.working
  have outcome : worker.outcome = some (.returned none) := by
    rw [Worker.outcome, returned, Worker.noFiles_leavesNone serving]
  have returns := (begins.append goes).take .returns
    ⟨⟨trivial, trivial⟩, by simp, by simp, by simp, by simp, by simp⟩
    (by simp only [step, Option.bind_eq_bind, Option.bind_some, outcome]; rfl)
  have finishes := returns.take (.loops .finish .quiet) (attends_loops (by simp) (by simp)) rfl
  exact ⟨trace, state, _, _, run, finishes, rfl,
    waiting_batch_is_answered (by decide) run (by decide) unanswered finishes
      ⟨event, by simp [member], turns⟩ rfl⟩

end WholeServer

end VHttp
