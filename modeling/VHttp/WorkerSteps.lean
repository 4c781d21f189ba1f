import VHttp.EpollHttpWorker
import VHttp.Foundations.Runs

/-!
# What one step of the worker does

The steps of the receive loop stay in it, leave it to serve the request, refuse the request,
or clean up. Behind the loop the worker answers once, sends what it built, and returns or
cleans up. Each kind of step is described here by the calls it adds, where it leaves the
worker, and what it does to the shared state, so that a law about runs need not look into
the steps again.
-/

namespace VHttp.Worker

/-- The phases of the receive loop. -/
def Phase.InLoop : Phase → Prop
  | .peeking | .discarding _ | .parsing | .receivingBody => True
  | _ => False

/-- The calls of the receive loop: a recv on a descriptor, or the parser. -/
def InLoopCall (descriptor : Nat) : Call → Prop
  | .peeked peer _ | .received peer _ => peer = descriptor
  | .parsed _ => True
  | _ => False

/-- The text of a 400 reply. -/
def badRequest : Bytes := format badRequestResponseFmt [.text (ascii "text/plain")]

/-- A recv on a descriptor that would have blocked. -/
def Blocked (descriptor : Nat) (call : Call) : Prop :=
  call = .peeked descriptor (.failed .again) ∨ call = .received descriptor (.failed .again)

/-- A string pool as it is left behind the receive loop: its first byte is cleared. -/
def Cleared (pool : VString) : Prop := ∃ rest, pool.block = 0 :: rest

/-- The end of a step of the receive loop. -/
inductive Looped (before after : Worker) (heard : List Call) : Prop where
  | stays (inLoop : after.phase.InLoop) (calls : after.calls = before.calls ++ heard)
      (shared : after.shared = before.shared)
  | leaves (serving : after.phase = .serving) (calls : after.calls = before.calls ++ heard)
      (blocked : ∃ call, heard = [call] ∧ Blocked before.fileDescriptor call)
      (cleared : Cleared after.stringPool) (shared : after.shared = before.shared)
  | refuses (refusing : after.phase = .refusing badRequest.length)
      (calls : after.calls = before.calls ++ heard ++ [.responded badRequest none])
      (built : snprintf before.shared.responseMalloced responseMaxLen badRequest =
        some after.shared.responseMalloced)
      (last : after.shared.lastResponseLength = before.shared.lastResponseLength)
  | cleans (cleanedUp : after.phase = .cleanedUp)
      (calls : after.calls = before.calls ++ heard ++ [.closed 1])
      (shared : after.shared = before.shared)

/-- A step of the receive loop adds calls of the loop, and keeps the descriptor and the
file that is open. -/
structure LoopStep (before after : Worker) : Prop where
  looped : ∃ heard, (∀ call ∈ heard, InLoopCall before.fileDescriptor call) ∧
    Looped before after heard
  sameDescriptor : after.fileDescriptor = before.fileDescriptor
  sameFile : after.openFile = before.openFile

theorem refuse_cases {worker after : Worker} (refused : worker.refuse = some after) :
    after.phase = .refusing badRequest.length ∧
      after.calls = worker.calls ++ [.responded badRequest none] ∧
      snprintf worker.shared.responseMalloced responseMaxLen badRequest =
        some after.shared.responseMalloced ∧
      after.shared.lastResponseLength = worker.shared.lastResponseLength ∧
      after.fileDescriptor = worker.fileDescriptor ∧ after.openFile = worker.openFile := by
  simp only [refuse, Option.bind_eq_bind, Option.bind_eq_some_iff, Option.pure_def,
    Option.some.injEq] at refused
  obtain ⟨malloced, built, rfl⟩ := refused
  exact ⟨rfl, rfl, built, rfl, rfl, rfl⟩

/-- A worker that has left its loop either clears its string pool or cleans up. -/
theorem leaveLoop_cases {worker after : Worker} (left : worker.leaveLoop = some after) :
    (worker.stringPool.length = 0 ∧ after = worker.cleanup) ∨
      ∃ block, worker.stringPool.length ≠ 0 ∧
        clearFront worker.stringPool.block worker.stringPool.length = some block ∧
        after = { worker with stringPool := ⟨block, 0⟩, phase := .serving } := by
  rw [leaveLoop] at left
  split at left
  · rename_i empty
    exact Or.inl ⟨empty, (Option.some.inj left).symm⟩
  · rename_i received
    simp only [Option.bind_eq_bind, Option.bind_eq_some_iff, Option.pure_def,
      Option.some.injEq] at left
    obtain ⟨block, cleared, rfl⟩ := left
    exact Or.inr ⟨block, received, cleared, rfl⟩

/-- A recv that fails ends the loop: as a whole, or for good. -/
theorem receiveFailed_step {worker after : Worker} (call : Call) {errno : Errno}
    (mine : InLoopCall worker.fileDescriptor call)
    (blocks : errno = .again → Blocked worker.fileDescriptor call)
    (failed : (worker.log [call]).receiveFailed errno = some after) : LoopStep worker after := by
  have all : ∀ other ∈ [call], InLoopCall worker.fileDescriptor other := by simpa using mine
  have cleaned : LoopStep worker (worker.log [call]).cleanup :=
    ⟨⟨[call], all, .cleans rfl (by simp [cleanup, log]) rfl⟩, rfl, rfl⟩
  cases errno with
  | again =>
    rcases leaveLoop_cases failed with ⟨_, rfl⟩ | ⟨block, received, isCleared, rfl⟩
    · exact cleaned
    · exact ⟨⟨[call], all, .leaves rfl rfl ⟨call, rfl, blocks rfl⟩
        (clearFront_first received isCleared) rfl⟩, rfl, rfl⟩
  | dead => exact Option.some.inj failed ▸ cleaned
  | other => exact Option.some.inj failed ▸ cleaned

theorem search_cases {worker after : Worker} {behind : Bytes}
    (searched : worker.search behind = some after) :
    (∃ requestSize, 0 < requestSize ∧
      findSubstring (worker.stringPool.block ++ behind) ⟨0, worker.stringPool.length⟩
        (ascii "\r\n\r\n") = some requestSize ∧
      after = { worker with phase := .discarding requestSize }) ∨
    after = { worker with tries := worker.tries + 1 } ∨
    { worker with tries := worker.tries + 1 }.refuse = some after := by
  simp only [search, Option.bind_eq_bind, Option.bind_eq_some_iff, Option.pure_def] at searched
  obtain ⟨requestSize, found, searched⟩ := searched
  split at searched
  · rename_i positive
    exact Or.inl ⟨requestSize, positive, found, (Option.some.inj searched).symm⟩
  · split at searched
    · exact Or.inr (Or.inr searched)
    · exact Or.inr (Or.inl (Option.some.inj searched).symm)

theorem peek_step {worker after : Worker} {result : Received} {behind : Bytes}
    (peeking : worker.phase = .peeking) (peeked : worker.peek result behind = some after) :
    LoopStep worker after := by
  have all : ∀ call ∈ [Call.peeked worker.fileDescriptor result],
      InLoopCall worker.fileDescriptor call := by
    simp [InLoopCall]
  cases result with
  | failed errno =>
    exact receiveFailed_step (.peeked _ _) rfl (by rintro rfl; exact Or.inl rfl) peeked
  | data bytes =>
    cases bytes with
    | nil =>
      obtain rfl := Option.some.inj peeked
      exact ⟨⟨_, all, .cleans rfl (by simp [cleanup, log]) rfl⟩, rfl, rfl⟩
    | cons byte rest =>
      simp only [peek, guard, Option.bind_eq_bind, Option.bind_eq_some_iff] at peeked
      obtain ⟨_, _, block, _, searched⟩ := peeked
      rcases search_cases searched with ⟨requestSize, _, _, rfl⟩ | rfl | refused
      · exact ⟨⟨_, all, .stays trivial rfl rfl⟩, rfl, rfl⟩
      · have still : worker.phase.InLoop := peeking ▸ trivial
        exact ⟨⟨_, all, .stays still rfl rfl⟩, rfl, rfl⟩
      · obtain ⟨refusing, calls, built, last, descriptor, file⟩ := refuse_cases refused
        exact ⟨⟨_, all, .refuses refusing calls built last⟩, descriptor, file⟩

theorem discard_step {worker after : Worker} {requestSize : Nat} {result : Received}
    (discarded : worker.discard requestSize result = some after) : LoopStep worker after := by
  cases result with
  | failed errno =>
    exact receiveFailed_step (.received _ _) rfl (by rintro rfl; exact Or.inr rfl) discarded
  | data bytes =>
    simp only [discard, guard, Option.bind_eq_bind, Option.bind_eq_some_iff, Option.pure_def,
      Option.some.injEq] at discarded
    obtain ⟨_, _, rfl⟩ := discarded
    refine ⟨⟨[.received worker.fileDescriptor (.data bytes), .parsed worker.stringPool.content],
      ?_, .stays trivial ?_ rfl⟩, rfl, rfl⟩
    · simp [InLoopCall]
    · simp [log]

theorem parse_step {worker after : Worker} {result : VHttpRequest.Parsed}
    (parsed : worker.parse result = some after) : LoopStep worker after := by
  simp only [parse, guard, Option.bind_eq_bind, Option.bind_eq_some_iff, Option.pure_def] at parsed
  obtain ⟨_, _, parsed⟩ := parsed
  have none : ∀ call ∈ ([] : List Call), InLoopCall worker.fileDescriptor call := by simp
  split at parsed
  · split at parsed
    · obtain rfl := Option.some.inj parsed
      exact ⟨⟨[], none, .stays trivial (List.append_nil _).symm rfl⟩, rfl, rfl⟩
    · obtain rfl := Option.some.inj parsed
      exact ⟨⟨[], none, .stays trivial (List.append_nil _).symm rfl⟩, rfl, rfl⟩
  · obtain ⟨refusing, calls, built, last, descriptor, file⟩ := refuse_cases parsed
    refine ⟨⟨[], none, .refuses refusing ?_ built last⟩, descriptor, file⟩
    rw [List.append_nil]
    exact calls

theorem body_step (worker : Worker) (fresh : Nat → UInt8) (result : Received) :
    LoopStep worker (worker.body fresh result) :=
  ⟨⟨[.received worker.fileDescriptor result], by simp [InLoopCall], .stays trivial rfl rfl⟩,
    rfl, rfl⟩

section Positions

variable {worker after : Worker} {answer : Answer}

theorem step_peeking (phase : worker.phase = .peeking)
    (stepped : worker.step answer = some after) :
    ∃ result behind, answer = .peek result behind ∧ worker.peek result behind = some after := by
  unfold step at stepped
  rw [phase] at stepped
  cases answer with
  | peek result behind => exact ⟨result, behind, rfl, stepped⟩
  | _ => cases stepped

theorem step_discarding {requestSize : Nat} (phase : worker.phase = .discarding requestSize)
    (stepped : worker.step answer = some after) :
    ∃ result, answer = .discard result ∧ worker.discard requestSize result = some after := by
  unfold step at stepped
  rw [phase] at stepped
  cases answer with
  | discard result => exact ⟨result, rfl, stepped⟩
  | _ => cases stepped

theorem step_parsing (phase : worker.phase = .parsing)
    (stepped : worker.step answer = some after) :
    ∃ result, answer = .parse result ∧ worker.parse result = some after := by
  unfold step at stepped
  rw [phase] at stepped
  cases answer with
  | parse result => exact ⟨result, rfl, stepped⟩
  | _ => cases stepped

end Positions

/-- A step, by the phase that it is taken in. -/
inductive Taken (worker after : Worker) : Answer → Prop where
  | looping {answer : Answer} (phase : worker.phase.InLoop)
      (noSend : ∀ result, answer ≠ .send result) (step : LoopStep worker after) :
      Taken worker after answer
  | refusing {size : Nat} {result : Sent} (phase : worker.phase = .refusing size)
      (step : worker.sendRefusal size result = some after) :
      Taken worker after (.refuse result)
  | serving {fresh : Nat → UInt8} {beyond : Bytes} {opening : Opening} {reading : Option Nat}
      (phase : worker.phase = .serving)
      (step : worker.serve fresh beyond opening reading = some after) :
      Taken worker after (.serve fresh beyond opening reading)
  | sending {responseLen totalSent : Nat} {file : Option VFile} {result : Sent}
      (phase : worker.phase = .sending responseLen totalSent file)
      (step : worker.send responseLen totalSent file result = some after) :
      Taken worker after (.send result)
  | sendingFile {responseLen sended : Nat} {file : VFile} {result : Option Nat}
      (phase : worker.phase = .sendingFile responseLen file sended)
      (step : worker.sendfile responseLen file sended result = some after) :
      Taken worker after (.sendfile result)

theorem step_taken {worker after : Worker} {answer : Answer}
    (stepped : worker.step answer = some after) : Taken worker after answer := by
  unfold step at stepped
  split at stepped
  · rename_i phase
    exact .looping (phase ▸ trivial) nofun (peek_step phase stepped)
  · rename_i phase
    exact .looping (phase ▸ trivial) nofun (discard_step stepped)
  · rename_i phase
    exact .looping (phase ▸ trivial) nofun (parse_step stepped)
  · rename_i phase
    exact .looping (phase ▸ trivial) nofun (Option.some.inj stepped ▸ body_step worker _ _)
  · rename_i phase
    exact .refusing phase stepped
  · rename_i phase
    exact .serving phase stepped
  · rename_i phase
    exact .sending phase stepped
  · rename_i phase
    exact .sendingFile phase stepped
  · simp at stepped

section Answering

variable {worker after : Worker}

/-- The send of a refusal sends a part of it and cleans up. -/
theorem sendRefusal_cases {size : Nat} {result : Sent}
    (sent : worker.sendRefusal size result = some after) :
    ∃ taken bytes, taken ≤ size ∧
      Memory.readRange worker.shared.responseMalloced 0 taken = some bytes ∧
      (∀ count, result = .took count → taken = count) ∧
      after.phase = .cleanedUp ∧
      after.calls = worker.calls ++ [.sent worker.fileDescriptor bytes, .closed 1] ∧
      clearFront worker.shared.responseMalloced size = some after.shared.responseMalloced ∧
      after.shared.lastResponseLength = worker.shared.lastResponseLength ∧
      after.fileDescriptor = worker.fileDescriptor ∧ after.openFile = worker.openFile := by
  simp only [sendRefusal, Option.bind_eq_bind, Option.bind_eq_some_iff, Option.pure_def,
    Option.guard_eq_some', Option.some.injEq] at sent
  obtain ⟨_, bounded, bytes, read, malloced, cleared, rfl⟩ := sent
  refine ⟨_, bytes, bounded, read, ?_, rfl, by simp [cleanup, log], cleared, rfl, rfl, rfl⟩
  rintro count rfl
  rfl

/-- Nothing is left to send: the shared state is handed on, and the worker returns. -/
theorem finish_cases {responseLen : Nat} (finished : worker.finish responseLen = some after) :
    ∃ malloced, clearFront worker.shared.responseMalloced
        (if worker.shared.lastResponseLength = 0 then responseLen
          else worker.shared.lastResponseLength) = some malloced ∧
      after = { worker with shared := ⟨malloced, responseLen⟩, phase := .returned } := by
  simp only [finish, Option.bind_eq_bind, Option.bind_eq_some_iff, Option.pure_def,
    Option.some.injEq] at finished
  obtain ⟨malloced, cleared, rfl⟩ := finished
  exact ⟨malloced, cleared, rfl⟩

/-- A file is sent on until its size is reached. -/
theorem sendFileOn_cases {responseLen sended : Nat} {file : Option VFile}
    (sent : worker.sendFileOn responseLen file sended = some after) :
    (∃ more, file = some more ∧ sended < more.info.size ∧
      after = { worker with phase := .sendingFile responseLen more sended }) ∨
    ((∀ more, file = some more → more.info.size ≤ sended) ∧
      worker.finish responseLen = some after) := by
  unfold sendFileOn at sent
  split at sent
  · split at sent
    · exact Or.inl ⟨_, rfl, ‹_›, (Option.some.inj sent).symm⟩
    · refine Or.inr ⟨?_, sent⟩
      rintro _ ⟨⟩
      omega
  · exact Or.inr ⟨by simp, sent⟩

/-- A response is sent on until its length is reached. -/
theorem sendOn_cases {responseLen totalSent : Nat} {file : Option VFile}
    (sent : worker.sendOn responseLen totalSent file = some after) :
    (totalSent < responseLen ∧
      after = { worker with phase := .sending responseLen totalSent file }) ∨
    (responseLen ≤ totalSent ∧ worker.sendFileOn responseLen file 0 = some after) := by
  rw [sendOn] at sent
  split at sent
  · exact Or.inl ⟨‹_›, (Option.some.inj sent).symm⟩
  · exact Or.inr ⟨by omega, sent⟩

/-- The answer to a request: what it opens, what it builds, and that it is sent. -/
theorem serve_cases {fresh : Nat → UInt8} {beyond : Bytes} {opening : Opening}
    {reading : Option Nat} (served : worker.serve fresh beyond opening reading = some after) :
    ∃ path built responseLen,
      filePath fresh worker.request.url = some path ∧
      reply worker.shared.responseMalloced worker.stringPool
        (getMimeType (strrchr (readPath path beyond) 46)) fresh opening reading = some built ∧
      strlen built.responseMalloced = some responseLen ∧
      sendOn { worker with
          shared := ⟨built.responseMalloced, worker.shared.lastResponseLength⟩
          stringPool := built.stringPool
          openFile := built.leftOpen
          calls := worker.calls ++ [.opened (readPath path beyond) opening,
            .responded (built.responseMalloced.take responseLen) built.file] }
        responseLen 0 built.file = some after := by
  simp only [serve, Option.bind_eq_bind, Option.bind_eq_some_iff] at served
  obtain ⟨path, concatenated, built, replied, responseLen, measured, served⟩ := served
  exact ⟨path, built, responseLen, concatenated, replied, measured, served⟩

/-- A send of the response: it would block, it fails, or it takes some bytes. -/
theorem send_cases {responseLen totalSent : Nat} {file : Option VFile} {result : Sent}
    (sent : worker.send responseLen totalSent file result = some after) :
    (result = .failed .again ∧ worker.sendFileOn responseLen file 0 = some after) ∨
    ((∃ errno, errno ≠ .again ∧ result = .failed errno) ∧ after = worker.cleanup) ∨
    ∃ count bytes, result = .took count ∧ count ≤ responseLen - totalSent ∧
      Memory.readRange worker.shared.responseMalloced totalSent count = some bytes ∧
      (worker.log [.sent worker.fileDescriptor bytes]).sendOn responseLen (totalSent + count) file =
        some after := by
  match result with
  | .failed .again => exact Or.inl ⟨rfl, sent⟩
  | .failed .dead => exact Or.inr (Or.inl ⟨⟨.dead, by decide, rfl⟩, (Option.some.inj sent).symm⟩)
  | .failed .other => exact Or.inr (Or.inl ⟨⟨.other, by decide, rfl⟩, (Option.some.inj sent).symm⟩)
  | .took count =>
    simp only [send, Option.bind_eq_bind, Option.bind_eq_some_iff, Option.guard_eq_some'] at sent
    obtain ⟨_, bounded, bytes, read, sent⟩ := sent
    exact Or.inr (Or.inr ⟨count, bytes, rfl, bounded, read, sent⟩)

/-- A sendfile: it fails and is tried again, or it takes some bytes. -/
theorem sendfile_cases {responseLen sended : Nat} {file : VFile} {result : Option Nat}
    (sent : worker.sendfile responseLen file sended result = some after) :
    (result = none ∧ worker.sendFileOn responseLen (some file) sended = some after) ∨
    ∃ count, result = some count ∧ count ≤ file.info.size - sended ∧
      sendFileOn
        (worker.log [.sentFile worker.fileDescriptor ((file.content.drop sended).take count)])
        responseLen (some file) (sended + count) = some after := by
  cases result with
  | none => exact Or.inl ⟨rfl, sent⟩
  | some count =>
    simp only [sendfile, Option.bind_eq_bind, Option.bind_eq_some_iff, Option.guard_eq_some']
      at sent
    obtain ⟨_, bounded, sent⟩ := sent
    exact Or.inr ⟨count, rfl, bounded, sent⟩

/-- A step behind the receive loop adds none of the calls of the loop, and does not lead back
to it. -/
structure AnswerStep (before after : Worker) : Prop where
  calls : ∃ calls, after.calls = before.calls ++ calls ∧
    ∀ call ∈ calls, ∀ descriptor, ¬ InLoopCall descriptor call
  beyond : ¬ after.phase.InLoop ∧ after.phase ≠ .serving
  sameDescriptor : after.fileDescriptor = before.fileDescriptor

/-- Calls made in front of such a step. -/
theorem AnswerStep.behind {calls : List Call} (step : AnswerStep (worker.log calls) after)
    (silent : ∀ call ∈ calls, ∀ descriptor, ¬ InLoopCall descriptor call) :
    AnswerStep worker after := by
  obtain ⟨⟨more, same, quiet⟩, beyond, descriptor⟩ := step
  refine ⟨⟨calls ++ more, by simp [same, log], ?_⟩, beyond, descriptor⟩
  intro call member
  exact (List.mem_append.mp member).elim (silent call) (quiet call)

theorem sendFileOn_quiet {responseLen sended : Nat} {file : Option VFile}
    (sent : worker.sendFileOn responseLen file sended = some after) : AnswerStep worker after := by
  rcases sendFileOn_cases sent with ⟨more, _, _, rfl⟩ | ⟨_, finished⟩
  · exact ⟨⟨[], (List.append_nil _).symm, by simp⟩, ⟨id, nofun⟩, rfl⟩
  · obtain ⟨malloced, _, rfl⟩ := finish_cases finished
    exact ⟨⟨[], (List.append_nil _).symm, by simp⟩, ⟨id, nofun⟩, rfl⟩

theorem sendOn_quiet {responseLen totalSent : Nat} {file : Option VFile}
    (sent : worker.sendOn responseLen totalSent file = some after) : AnswerStep worker after := by
  rcases sendOn_cases sent with ⟨_, rfl⟩ | ⟨_, sent⟩
  · exact ⟨⟨[], (List.append_nil _).symm, by simp⟩, ⟨id, nofun⟩, rfl⟩
  · exact sendFileOn_quiet sent

theorem answer_quiet {answer : Answer} (outside : ¬ worker.phase.InLoop)
    (stepped : worker.step answer = some after) : AnswerStep worker after := by
  cases step_taken stepped with
  | looping phase => exact absurd phase outside
  | refusing phase step =>
    obtain ⟨_, _, _, _, _, cleanedUp, calls, _, _, descriptor, _⟩ := sendRefusal_cases step
    refine ⟨⟨_, calls, ?_⟩, ?_, descriptor⟩
    · simp [InLoopCall]
    · simp [cleanedUp, Phase.InLoop]
  | serving phase step =>
    obtain ⟨path, built, responseLen, _, _, _, sent⟩ := serve_cases step
    have quiet := sendOn_quiet sent
    exact AnswerStep.behind ⟨quiet.calls, quiet.beyond, quiet.sameDescriptor⟩ (by simp [InLoopCall])
  | sending phase step =>
    rcases send_cases step with ⟨_, sent⟩ | ⟨_, rfl⟩ | ⟨_, _, _, _, _, sent⟩
    · exact sendFileOn_quiet sent
    · exact ⟨⟨[.closed 1], rfl, by simp [InLoopCall]⟩, ⟨id, nofun⟩, rfl⟩
    · exact (sendOn_quiet sent).behind (by simp [InLoopCall])
  | sendingFile phase step =>
    rcases sendfile_cases step with ⟨_, sent⟩ | ⟨_, _, _, sent⟩
    · exact sendFileOn_quiet sent
    · exact (sendFileOn_quiet sent).behind (by simp [InLoopCall])

/-- Every step keeps the descriptor. -/
theorem step_descriptor {answer : Answer} (stepped : worker.step answer = some after) :
    after.fileDescriptor = worker.fileDescriptor := by
  by_cases inside : worker.phase.InLoop
  · cases step_taken stepped with
    | looping _ _ step => exact step.sameDescriptor
    | refusing phase _ | serving phase _ | sending phase _ | sendingFile phase _ =>
      rw [phase] at inside
      exact absurd inside id
  · exact (answer_quiet inside stepped).sameDescriptor

/-- Every step adds calls behind those made before. -/
theorem step_extends {answer : Answer} (stepped : worker.step answer = some after) :
    worker.calls <+: after.calls := by
  by_cases inside : worker.phase.InLoop
  · cases step_taken stepped with
    | looping _ _ step =>
      obtain ⟨heard, _, looped⟩ := step.looped
      cases looped with
      | stays _ calls _ | leaves _ calls _ _ _ => exact calls ▸ List.prefix_append _ _
      | refuses _ calls _ _ | cleans _ calls _ =>
        rw [calls, List.append_assoc]
        exact List.prefix_append _ _
    | refusing phase _ | serving phase _ | sending phase _ | sendingFile phase _ =>
      rw [phase] at inside
      exact absurd inside id
  · obtain ⟨calls, same, _⟩ := (answer_quiet inside stepped).calls
    exact same ▸ List.prefix_append _ _

/-- So does every run. -/
theorem run_extends {admitted : Worker → Answer → Prop} {trace : List Answer}
    (run : Runs.Run step admitted worker trace after) : worker.calls <+: after.calls :=
  run.invariant (fun reached => worker.calls <+: reached.calls) List.prefix_rfl
    (fun _ _ _ extended _ stepped => extended.trans (step_extends stepped))

end Answering

end VHttp.Worker
