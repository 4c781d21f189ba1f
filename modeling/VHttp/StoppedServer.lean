import VHttp.AnsweredClients

/-!
# A batch that stops the server

The parser goes on probing when the names of a batch find no room in the header table, and the
loop that called it waits for it. So a client whose requests have more than 32 names in the header
lines that are read is called, and the server never comes back from that call: no event is fetched
any more, nobody is accepted, and no other client is called.
-/

namespace VHttp

open EventLoop VHttpRequest

namespace Worker

variable {requests : List CompleteRequest} {worker : Worker}

/-- A call that gets behind its receive loop has had room for all header names. -/
theorem run_few {files : FileSystem} {descriptor : Nat} {shared : Shared} (sound : shared.Sound)
    (some : requests ≠ []) (fits : (requestStream requests).length ≤ poolCapacity)
    {trace : List Answer} (run : Runs.Run step (Succeeds files (requestStream requests))
      (start descriptor shared) trace worker) :
    (worker.phase.InLoop ∨ worker.phase = .serving) ∨ (headerNames requests).card ≤ 32 := by
  apply run.induct (fun _ reached => (reached.phase.InLoop ∨ reached.phase = .serving) ∨
    (headerNames requests).card ≤ 32) (Or.inl (Or.inl trivial))
  intro _ before answer after reached kept allowed stepped
  cases run_batched sound some fits reached with
  | reading place early _ =>
    rcases early with inLoop | serving
    · obtain ⟨_, goesOn⟩ := place.step fits allowed.1 stepped
      refine Or.inl (goesOn inLoop some ?_)
      rintro behind rfl
      exact allowed.2
    · cases place with
      | serving _ reading => exact Or.inr reading.few
      | peeking _ _ _ other | discarding _ _ _ _ other | parsing _ _ _ _ other =>
        simp [serving] at other
      | left other => exact absurd serving other.2
  | replying phase _ _ _ _ =>
    refine Or.inr (kept.resolve_left ?_)
    rintro (inLoop | serving)
    · exact replying_outside phase inLoop
    · simp [serving, Phase.Replying] at phase

/-- From wherever a call with too many names stands, its parser may come to hang. -/
theorem run_hangs {files : FileSystem} {descriptor : Nat} {shared : Shared} (sound : shared.Sound)
    (some : requests ≠ []) (fits : (requestStream requests).length ≤ poolCapacity)
    (crowded : 32 < (headerNames requests).card) {trace : List Answer}
    (run : Runs.Run step (Succeeds files (requestStream requests)) (start descriptor shared) trace
      worker) :
    ∃ more final, Runs.Run step (Succeeds files (requestStream requests)) worker more final ∧
      Hangs final := by
  cases run_batched sound some fits run with
  | reading place early _ =>
    obtain ⟨more, final, goes, settled⟩ := place.settles early some fits
    refine ⟨more, final, goes.weaken (fun _ _ received => receives_succeeds received), ?_⟩
    refine settled.resolve_left ?_
    rintro ⟨_, reading⟩
    exact absurd reading.few (Nat.not_le.mpr crowded)
  | replying phase _ _ _ _ =>
    rcases run_few sound some fits run with (inLoop | serving) | few
    · exact absurd inLoop (replying_outside phase)
    · simp [serving, Phase.Replying] at phase
    · exact absurd few (Nat.not_le.mpr crowded)

end Worker

namespace WholeServer

section Crowded

variable {batch : Worker.Batch} {slot descriptor : Nat} {before after : WholeServer}
variable {worker : Worker} {trace : List ServerEvent}

/-- The call for such a batch has no end. -/
theorem InCall.endless (inCall : InCall batch slot descriptor worker before)
    (sound : before.shared.Sound) (crowded : 32 < (Worker.headerNames batch.requests).card) :
    worker.outcome = none := by
  obtain ⟨_, run⟩ := inCall.run
  unfold Worker.outcome
  rcases Worker.run_few sound batch.some batch.fits run with early | few
  · cases phase : worker.phase <;> simp_all [Worker.Phase.InLoop]
  · exact absurd few (Nat.not_le.mpr crowded)

/-- So it goes on for as long as the server runs. -/
theorem InCall.lasts (inCall : InCall batch slot descriptor worker before)
    (sound : before.shared.Sound) (crowded : 32 < (Worker.headerNames batch.requests).card)
    (goes : Runs.Run WholeServer.step (Attends batch.files slot descriptor) before trace after) :
    ∃ next, InCall batch slot descriptor next after ∧ after.server = before.server := by
  have kept : (∃ next, InCall batch slot descriptor next after) ∧
      after.server = before.server ∧ after.shared = before.shared := by
    apply goes.invariant (fun reached => (∃ next, InCall batch slot descriptor next reached) ∧
      reached.server = before.server ∧ reached.shared = before.shared) ⟨⟨worker, inCall⟩, rfl, rfl⟩
    rintro middle event reached ⟨⟨current, here⟩, server, shared⟩ attends taken
    cases here.step attends taken with
    | stays next still sameServer sameShared =>
      exact ⟨⟨next, still⟩, sameServer.trans server, sameShared.trans shared⟩
    | returns outcome _ ended _ =>
      rw [here.endless (shared ▸ sound) crowded] at ended
      cases ended
  obtain ⟨⟨next, still⟩, server, _⟩ := kept
  exact ⟨next, still, server⟩

end Crowded

/-- In a run whose accepts register clients under their own slots, a client is connected on another
descriptor than 1, a batch of complete requests whose header lines that are read have more than 32
names waits on its socket, and its call has not come yet. Under the conditions under which it would
be answered, the server never gets behind its call: behind a turn the loop is never in epoll_wait
again, and once the client is called, whatever comes, the loop makes no step any more, that call
stays the one in progress, and while the client stays it may come to where the parser does not
return.

Induct on the continuation as for a batch that is answered; what is missing is the return. -/
theorem crowded_batch_stops_the_server {capacity listener : Nat} {own : Finset Nat}
    (listening : listener ∈ own) {trace : List ServerEvent} {state : WholeServer}
    (run : Runs.Run step Admitted (start capacity listener own) trace state)
    {batch : Worker.Batch} {slot descriptor : Nat} (apart : descriptor ≠ 1)
    (unanswered : Unanswered slot descriptor (Worker.requestStream batch.requests) state)
    (crowded : 32 < (Worker.headerNames batch.requests).card)
    {more : List ServerEvent} {later : WholeServer}
    (goes : Runs.Run step (Attends batch.files slot descriptor) state more later) :
    ((∃ event ∈ more, event.Waits) → later.server.phase ≠ .waiting) ∧
    ∀ worker, later.working = some worker → worker.fileDescriptor = descriptor →
      (∀ further last, Runs.Run step (Attends batch.files slot descriptor) later further last →
        last.server = later.server ∧ ∃ current, last.working = some current ∧
          current.fileDescriptor = descriptor ∧ current.outcome = none) ∧
      ((later.sockets descriptor).finished = false → ∃ further last hanging,
        Runs.Run step (Attends batch.files slot descriptor) later further last ∧
          last.working = some hanging ∧ Worker.Hangs hanging) := by
  have whole := attended_run run goes
  have sound := (run_called whole).history.sound
  have stage : Stage batch slot descriptor more later := by
    apply goes.induct (Stage batch slot descriptor) (.unreported unanswered (by simp))
    intro front before event after reached stage attends taken
    have earlier := attended_run run reached
    have called := run_called earlier
    rcases stage.step (run_sided listening earlier) called apart attends taken with
      still | ⟨worker, inCall, continues⟩
    · exact still
    · cases continues with
      | stays next inCall _ _ => exact .called next inCall
      | returns outcome server ended _ =>
        rw [inCall.endless called.history.sound crowded] at ended
        cases ended
  refine ⟨fun turned => stage.busy turned (run_vigilant listening whole) (run_called whole) apart, ?_⟩
  intro worker working ofClient
  have called : ∃ current, InCall batch slot descriptor current later := by
    cases stage with
    | unreported unanswered _ | reported unanswered _ =>
      exact absurd ofClient (unanswered.elsewhere worker working)
    | called current inCall => exact ⟨current, inCall⟩
  obtain ⟨current, inCall⟩ := called
  constructor
  · intro further last onward
    obtain ⟨next, still, server⟩ := inCall.lasts sound crowded onward
    have ends := (run_called (attended_run whole onward)).history.sound
    exact ⟨server, next, still.working, still.ofClient, still.endless ends crowded⟩
  · intro lasting
    obtain ⟨answers, reached⟩ := inCall.run
    obtain ⟨rest, hanging, hangs, stuck⟩ :=
      Worker.run_hangs sound batch.some batch.fits crowded reached
    obtain ⟨last, onward, still, _⟩ := inCall.carried sound lasting hangs
    exact ⟨_, last, hanging, onward, still.working, stuck⟩

/-- Two requests with seventeen header names each, where there are no files. -/
def letterBatch : Worker.Batch :=
  ⟨Worker.noFiles, [Worker.firstLetters, Worker.lastLetters], by simp, by decide +kernel⟩

/-- They stop the server. -/
theorem crowded_batch_stops_the_server_letters : ∃ trace state more later,
    Runs.Run step Admitted (start 2 3 {3}) trace state ∧
    Runs.Run step (Attends Worker.noFiles 0 5) state more later ∧
    ∃ further last hanging, Runs.Run step (Attends Worker.noFiles 0 5) later further last ∧
      last.working = some hanging ∧ Worker.Hangs hanging ∧
      ∀ beyond final, Runs.Run step (Attends Worker.noFiles 0 5) later beyond final →
        final.server = later.server := by
  obtain ⟨trace, state, more, later, run, unanswered, goes, _, _, shared, lasting, inCall⟩ :=
    run_calls letterBatch
  obtain ⟨_, stops⟩ := crowded_batch_stops_the_server (by decide) run (by decide) unanswered
    (by decide) goes
  obtain ⟨still, hangs⟩ := stops _ inCall.working rfl
  obtain ⟨further, last, hanging, onward, working, stuck⟩ := hangs lasting
  exact ⟨trace, state, more, later, run, goes, further, last, hanging, onward, working, stuck,
    fun beyond final reached => (still beyond final reached).1⟩

end WholeServer

end VHttp
