import VHttp.CrowdedTables
import VHttp.PipelinedRequests

/-!
# Batches of requests on a connection

All requests that wait together are parsed into the same request before one of them is
answered. Nothing empties its url in between, and the decoder stores in front, so what is
opened in the end is named by the urls of the whole batch, the last one first. A connection
that is kept alive gets one such response for each call of the worker, in the order of the
calls, whatever the calls for other connections do to the shared buffer in between.
-/

namespace VHttp

open VHttpRequest

/-- The socket that a call writes to. -/
def Call.target : Call → Option Nat
  | .sent descriptor _ | .sentFile descriptor _ => some descriptor
  | _ => none

namespace Worker

/-- The url that a batch of requests leaves behind. -/
def batchUrl (requests : List CompleteRequest) : Bytes :=
  (requests.map (fun request => percentDecode request.url)).reverse.flatten

/-- A path that may be read for a batch: the root and the urls, up to a NUL. A path that does
not leave its first block is followed by one. -/
structure BatchPath (requests : List CompleteRequest) (path : Bytes) : Prop where
  read : ∃ behind, path = appRoot ++ (CString.read (batchUrl requests ++ behind)).1
  short : appRoot.length + (batchUrl requests).length < VString.initTextSize →
    path = appRoot ++ (CString.read (batchUrl requests)).1

/-- All that is written of a response. -/
def Response.whole (response : Response) : Bytes := response.text ++ fileBytes response.sent

/-- Requests that wait together, and the files as they are when these are answered. -/
structure Batch where
  files : FileSystem
  requests : List CompleteRequest
  some : requests ≠ []
  fits : (requestStream requests).length ≤ poolCapacity

/-- What a batch gets for an answer. -/
def Batch.Answer (batch : Batch) (bytes : Bytes) : Prop :=
  ∃ path, BatchPath batch.requests path ∧ bytes = (responseAt batch.files path).whole

/-- The bytes that a list of calls writes to one socket. -/
def writtenTo (descriptor : Nat) (calls : List Call) : Bytes :=
  calls.flatMap (fun call => if call.target = some descriptor then call.written else [])

/-- The calls of the process from its start on, as one connection sees them: those that take a
batch of its requests, and those for other connections, whatever they answer and however they
end. All that they write to its socket is collected. -/
inductive Conversation (descriptor : Nat) : List Batch → Bytes → Shared → Prop where
  | start : Conversation descriptor [] [] Shared.start
  | elsewhere {batches : List Batch} {sent : Bytes} {shared : Shared} {other : Nat}
      {trace : List Worker.Answer} {worker : Worker}
      (earlier : Conversation descriptor batches sent shared) (apart : other ≠ descriptor)
      (run : Runs.Run step Runs.anywhere (Worker.start other shared) trace worker)
      (ended : worker.phase = .returned ∨ worker.phase = .cleanedUp) :
      Conversation descriptor batches (sent ++ writtenTo descriptor worker.calls) worker.shared
  | batch {batches : List Batch} {sent : Bytes} {shared : Shared} {trace : List Worker.Answer}
      {worker : Worker} (batch : Batch)
      (earlier : Conversation descriptor batches sent shared)
      (run : Runs.Run step (Succeeds batch.files (requestStream batch.requests))
        (Worker.start descriptor shared) trace worker)
      (returned : worker.phase = .returned) :
      Conversation descriptor (batches ++ [batch]) (sent ++ writtenTo descriptor worker.calls)
        worker.shared

/-- Where a worker stands with a batch that it is to answer. -/
inductive Batched (files : FileSystem) (requests : List CompleteRequest) (worker : Worker) :
    Prop where
  | reading (place : At requests worker) (early : worker.phase.InLoop ∨ worker.phase = .serving)
      (free : responses worker.calls = [])
  | replying (phase : worker.phase.Replying) (path : Bytes) (isPath : BatchPath requests path)
      (taken : piecesTaken worker.calls = requests.map CompleteRequest.bytes)
      (noted : responses worker.calls =
        [((responseAt files path).text, (responseAt files path).sent)])

section Batched

variable {files : FileSystem} {requests : List CompleteRequest} {worker after : Worker}
variable {answer : Worker.Answer} {shared : Shared} {descriptor : Nat}

/-- All calls so far write to this socket, if they write. -/
def WritesTo (descriptor : Nat) (calls : List Call) : Prop :=
  ∀ call ∈ calls, call.target = none ∨ call.target = some descriptor

theorem WritesTo.append {calls more : List Call} (first : WritesTo descriptor calls)
    (second : WritesTo descriptor more) : WritesTo descriptor (calls ++ more) := by
  intro call member
  exact (List.mem_append.mp member).elim (first call) (second call)

theorem writesTo_inLoop {calls : List Call} (heard : ∀ call ∈ calls, InLoopCall descriptor call) :
    WritesTo descriptor calls := by
  intro call member
  have inLoop := heard call member
  cases call with
  | peeked _ _ | received _ _ | parsed _ => exact Or.inl rfl
  | _ => exact absurd inLoop id

theorem sendFileOn_calls {responseLen sended : Nat} {file : Option VFile}
    (sent : worker.sendFileOn responseLen file sended = some after) :
    after.calls = worker.calls := by
  rcases sendFileOn_cases sent with ⟨_, _, _, rfl⟩ | ⟨_, finished⟩
  · rfl
  · obtain ⟨_, _, rfl⟩ := finish_cases finished
    rfl

theorem sendOn_calls {responseLen totalSent : Nat} {file : Option VFile}
    (sent : worker.sendOn responseLen totalSent file = some after) : after.calls = worker.calls := by
  rcases sendOn_cases sent with ⟨_, rfl⟩ | ⟨_, sent⟩
  · rfl
  · exact sendFileOn_calls sent

/-- A step of a worker writes to no other socket than its own. -/
theorem step_writesTo (own : WritesTo worker.fileDescriptor worker.calls)
    (stepped : worker.step answer = some after) :
    WritesTo worker.fileDescriptor after.calls := by
  cases step_taken stepped with
  | looping _ _ step =>
    obtain ⟨heard, all, looped⟩ := step.looped
    have loop := own.append (writesTo_inLoop all)
    cases looped with
    | stays _ calls _ | leaves _ calls _ _ _ => exact calls ▸ loop
    | refuses _ calls _ _ | cleans _ calls _ =>
      rw [calls]
      exact loop.append (by simp [WritesTo, Call.target])
  | refusing _ step =>
    obtain ⟨_, bytes, _, _, _, _, calls, _⟩ := sendRefusal_cases step
    rw [calls]
    exact own.append (by simp [WritesTo, Call.target])
  | serving _ step =>
    obtain ⟨path, built, responseLen, _, _, _, sent⟩ := serve_cases step
    rw [sendOn_calls sent]
    exact own.append (by simp [WritesTo, Call.target])
  | sending _ step =>
    rcases send_cases step with ⟨_, sent⟩ | ⟨_, rfl⟩ | ⟨_, bytes, _, _, _, sent⟩
    · rwa [sendFileOn_calls sent]
    · exact own.append (by simp [WritesTo, Call.target])
    · rw [sendOn_calls sent]
      exact own.append (by simp [WritesTo, Call.target])
  | sendingFile _ step =>
    rcases sendfile_cases step with ⟨_, sent⟩ | ⟨_, _, _, sent⟩
    · rwa [sendFileOn_calls sent]
    · rw [sendFileOn_calls sent]
      exact own.append (by simp [WritesTo, Call.target])

/-- So does no run. -/
theorem run_writesTo {admitted : Worker → Worker.Answer → Prop} {trace : List Worker.Answer}
    (run : Runs.Run step admitted (start descriptor shared) trace worker) :
    WritesTo descriptor worker.calls := by
  have kept : worker.fileDescriptor = descriptor ∧ WritesTo descriptor worker.calls := by
    apply run.invariant (fun reached => reached.fileDescriptor = descriptor ∧
      WritesTo descriptor reached.calls) ⟨rfl, by simp [WritesTo, start]⟩
    rintro before answer after ⟨rfl, own⟩ _ stepped
    exact ⟨step_descriptor stepped, step_writesTo own stepped⟩
  exact kept.2

/-- What is written to one's own socket is all that is written. -/
theorem WritesTo.own {calls : List Call} (own : WritesTo descriptor calls) :
    writtenTo descriptor calls = written calls := by
  induction calls with
  | nil => rfl
  | cons call rest inductionHypothesis =>
    have later := inductionHypothesis (fun other member => own other (List.mem_cons_of_mem _ member))
    simp only [writtenTo, written, List.flatMap_cons] at later ⊢
    rw [later]
    rcases own call List.mem_cons_self with silent | mine
    · cases call <;> simp_all [Call.target, Call.written]
    · rw [if_pos mine]

/-- Another socket is left alone. -/
theorem WritesTo.other {calls : List Call} {other : Nat} (own : WritesTo other calls)
    (apart : other ≠ descriptor) : writtenTo descriptor calls = [] := by
  rw [writtenTo, List.flatMap_eq_nil_iff]
  intro call member
  rcases own call member with silent | elsewhere
  · simp [silent]
  · simp [elsewhere, apart]

/-- A NUL behind a string changes nothing of what is read of it. -/
theorem read_terminated (bytes rest : Bytes) :
    (CString.read (bytes ++ 0 :: rest)).1 = (CString.read bytes).1 := by
  induction bytes with
  | nil => rfl
  | cons byte bytes inductionHypothesis =>
    simp only [CString.read, List.cons_append, List.takeWhile_cons]
    simp only [CString.read] at inductionHypothesis
    rw [inductionHypothesis]

/-- The path that is opened after a batch. -/
theorem batchPath_of_made {url path : VString} {fresh : Nat → UInt8}
    (made : filePath fresh url = some path) (isUrl : url.content = batchUrl requests)
    (size : url.length = url.content.length) (beyond : Bytes) :
    BatchPath requests (readPath path beyond) := by
  constructor
  · obtain ⟨behind, _, read⟩ := readPath_content made beyond
    exact ⟨behind, by rw [read, isUrl]⟩
  · intro short
    rw [filePath_eq_pathFrom] at made
    obtain ⟨_, length, _⟩ := pathFrom_exact made
    obtain ⟨rest, block⟩ := pathFrom_next made
    rw [← isUrl, ← size, ← length] at short
    rw [readPath, block, if_pos short, List.append_assoc, List.append_assoc,
      CString.read_append _ _ (by decide), List.cons_append, read_terminated, isUrl]

/-- The response to a batch that has been read is that to its path. -/
theorem At.serve_batch (place : At requests worker) (ready : Ready worker)
    (phase : worker.phase = .serving) (free : responses worker.calls = [])
    {fresh : Nat → UInt8} {beyond : Bytes} {opening : Opening} {reading : Option Nat}
    (consistent : ∀ path, filePath fresh worker.request.url = some path →
      files (readPath path beyond) = (opening, reading))
    (served : worker.serve fresh beyond opening reading = some after) :
    Batched files requests after := by
  cases place with
  | serving _ read =>
    obtain ⟨path, built, made, _, _, rfl⟩ :=
      serve_exact ready.sound (ready.cleared phase) served
    have isPath := batchPath_of_made made read.url read.strings.url.content_length.symm beyond
    have same : responseAt files (readPath path beyond) =
        responseFor (readPath path beyond) opening reading := by
      rw [responseAt, consistent path made]
    refine .replying trivial (readPath path beyond) isPath ?_ ?_
    · simp [read.taken, Call.taken]
    · rw [same]
      simp [free, Call.response]
  | peeking _ _ _ other | discarding _ _ _ _ other | parsing _ _ _ _ other =>
    simp [phase] at other
  | left other => exact absurd phase other.2

/-- Behind the receive loop nothing is taken off the socket. -/
theorem answer_pieces (outside : ¬ worker.phase.InLoop)
    (stepped : worker.step answer = some after) :
    piecesTaken after.calls = piecesTaken worker.calls := by
  obtain ⟨calls, same, quiet⟩ := (answer_quiet outside stepped).calls
  have none : piecesTaken calls = [] := by
    rw [piecesTaken, List.filterMap_eq_nil_iff]
    intro call member
    cases call with
    | received descriptor result => exact absurd rfl (quiet _ member descriptor)
    | _ => rfl
  rw [same, piecesTaken_append, none, List.append_nil]

theorem replying_outside (phase : worker.phase.Replying) : ¬ worker.phase.InLoop := by
  intro inLoop
  cases here : worker.phase <;> simp_all [Phase.Replying, Phase.InLoop]

/-- Every step of a worker with a batch keeps it where it is to be. -/
theorem Batched.step (batched : Batched files requests worker) (some : requests ≠ [])
    (fits : (requestStream requests).length ≤ poolCapacity) (ready : Ready worker)
    (allowed : Succeeds files (requestStream requests) worker answer)
    (stepped : worker.step answer = Option.some after) : Batched files requests after := by
  obtain ⟨delivered, succeeded⟩ := allowed
  cases batched with
  | reading place early free =>
    obtain ⟨next, goesOn⟩ := place.step fits delivered stepped
    rcases early with inLoop | serving
    · have still : after.phase.InLoop ∨ after.phase = .serving := by
        apply goesOn inLoop some
        rintro behind rfl
        exact succeeded
      exact .reading next still ((step_reading inLoop still stepped).trans free)
    · cases step_taken stepped with
      | serving phase step => exact place.serve_batch ready phase free succeeded step
      | looping inLoop => simp [serving, Phase.InLoop] at inLoop
      | refusing other | sending other | sendingFile other => simp [serving] at other
  | replying phase path isPath taken noted =>
    have allowed : ∀ errno, answer ≠ .send (.failed errno) := by
      rintro errno rfl
      exact succeeded
    obtain ⟨still, same⟩ := step_replying phase allowed stepped
    exact .replying still path isPath ((answer_pieces (replying_outside phase) stepped).trans taken)
      (same.trans noted)

/-- So does every run. -/
theorem run_batched (sound : shared.Sound) (some : requests ≠ [])
    (fits : (requestStream requests).length ≤ poolCapacity) {trace : List Worker.Answer}
    (run : Runs.Run Worker.step (Succeeds files (requestStream requests))
      (start descriptor shared) trace worker) : Batched files requests worker := by
  have initial : Batched files requests (start descriptor shared) :=
    .reading (.peeking [] requests rfl rfl (start_reading requests descriptor shared) (by simp))
      (Or.inl trivial) rfl
  apply run.induct (fun _ reached => Batched files requests reached) initial
  intro _ _ _ _ earlier batched allowed stepped
  exact batched.step some fits (run_ready sound earlier) allowed stepped

/-- A worker with a batch does not clean up. -/
theorem Batched.returned (batched : Batched files requests worker)
    (ended : worker.phase = .returned ∨ worker.phase = .cleanedUp) : worker.phase = .returned := by
  refine ended.resolve_right fun cleanedUp => ?_
  cases batched with
  | reading _ early => simp [cleanedUp, Phase.InLoop] at early
  | replying phase => simp [cleanedUp, Phase.Replying] at phase

/-- If it has returned, and no send would have blocked, it has taken the whole batch, and has
written the one response. -/
theorem Batched.answered {admitted : Worker → Worker.Answer → Prop} {trace : List Worker.Answer}
    (batched : Batched files requests worker)
    (run : Runs.Run Worker.step admitted (start descriptor shared) trace worker)
    (smooth : ¬ Stalled trace) (returned : worker.phase = .returned) :
    piecesTaken worker.calls = requests.map CompleteRequest.bytes ∧
      ∃ path, BatchPath requests path ∧
        written worker.calls = (responseAt files path).whole := by
  cases batched with
  | reading _ early => simp [returned, Phase.InLoop] at early
  | replying _ path isPath taken noted =>
    rcases (run_progress run).verdict with ⟨_, _, other⟩ | ⟨response, file, also, _, complete⟩
    · exact absurd returned other
    · obtain ⟨rfl, rfl⟩ : (responseAt files path).text = response ∧
          (responseAt files path).sent = file := by
        simpa using noted.symm.trans also
      exact ⟨taken, path, isPath, (complete returned).mpr smooth⟩

/-- A call that returns has answered the batch. -/
theorem batch_returned (sound : shared.Sound) (some : requests ≠ [])
    (fits : (requestStream requests).length ≤ poolCapacity) {trace : List Worker.Answer}
    (run : Runs.Run Worker.step (Succeeds files (requestStream requests))
      (start descriptor shared) trace worker) (returned : worker.phase = .returned) :
    piecesTaken worker.calls = requests.map CompleteRequest.bytes ∧
      ∃ path, BatchPath requests path ∧
        written worker.calls = (responseAt files path).whole :=
  (run_batched sound some fits run).answered run (succeeds_smooth run) returned

/-- The url of a batch is short. -/
theorem batchUrl_length (requests : List CompleteRequest) :
    (batchUrl requests).length ≤ 2 * (requestStream requests).length := by
  induction requests with
  | nil => exact Nat.zero_le _
  | cons request rest inductionHypothesis =>
    have decoded := percentDecode_length request.url
    have part : request.url.length ≤ request.bytes.length := by
      simp only [CompleteRequest.bytes, CompleteRequest.line, requestBuffer, List.length_append]
      omega
    simp only [batchUrl, List.map_cons, List.reverse_cons, List.flatten_append,
      List.flatten_singleton, List.length_append, requestStream_cons] at inductionHypothesis ⊢
    omega

/-- A worker that serves a batch goes on to send a response, if the response to every path that
may be read can be built. -/
theorem serving_replies (ready : Ready worker) (serving : worker.phase = .serving)
    (read : Reading requests requests requests worker)
    (fits : (requestStream requests).length ≤ poolCapacity)
    (possible : ∀ path, BatchPath requests path →
      Possible (getMimeType (strrchr path 46)) (files path).1 (files path).2)
    (short : ∀ path, BatchPath requests path →
      (responseAt files path).text.length < responseMaxLen) :
    ∃ answer after, Succeeds files (requestStream requests) worker answer ∧
      worker.step answer = Option.some after ∧ after.phase.Replying := by
  have valid := read.strings.url
  have bounded : worker.request.url.length < 2 ^ 31 := by
    have length := batchUrl_length requests
    have small : 2 * poolCapacity < 2 ^ 31 := by decide
    rw [batchUrl, ← read.url, valid.content_length] at length
    omega
  obtain ⟨path, made⟩ := filePath_returns (fun _ => 0) valid bounded
  have isPath := batchPath_of_made made read.url valid.content_length.symm []
  obtain ⟨after, served⟩ := ready.serves serving made (possible _ isPath) (short _ isPath)
  refine ⟨_, after, ⟨by simp [Delivers, serving], ?_⟩, served, ?_⟩
  · intro other remade
    obtain rfl := Option.some.inj (made.symm.trans remade)
    rfl
  · have stepped := served
    unfold Worker.step at stepped
    rw [serving] at stepped
    obtain ⟨_, _, _, _, _, rfl⟩ := serve_exact ready.sound (ready.cleared serving) stepped
    trivial

end Batched

/-- A batch that can be answered: the table has room for its header names, and the response to
every path that may be read can be built in the response buffer. -/
structure Batch.Answerable (batch : Batch) : Prop where
  few : (headerNames batch.requests).card ≤ 32
  possible : ∀ path, BatchPath batch.requests path →
    Possible (getMimeType (strrchr path 46)) (batch.files path).1 (batch.files path).2
  short : ∀ path, BatchPath batch.requests path →
    (responseAt batch.files path).text.length < responseMaxLen

/-- Wherever in the receive loop it stands with such a batch, a call can return. -/
theorem Batch.Answerable.returns_from {batch : Batch} (answerable : batch.Answerable)
    {shared : Shared} (sound : shared.Sound) {descriptor : Nat} {trace : List Worker.Answer}
    {worker : Worker} (reached : Runs.Run step Runs.anywhere (Worker.start descriptor shared) trace
      worker) (place : At batch.requests worker)
    (early : worker.phase.InLoop ∨ worker.phase = .serving) :
    ∃ more final, Runs.Run step (Succeeds batch.files (requestStream batch.requests)) worker more
      final ∧ final.phase = .returned := by
  obtain ⟨first, middle, receives, settled⟩ := place.settles early batch.some batch.fits
  rcases settled with ⟨serving, read⟩ | hangs
  · have reads := reached.append (receives.weaken fun _ _ _ => trivial)
    obtain ⟨answer, after, allowed, served, replying⟩ := serving_replies
      (run_ready sound reads) serving read batch.fits answerable.possible answerable.short
    have serves := reads.next trivial served
    obtain ⟨more, final, goes, returned⟩ := replying_returns (requestStream batch.requests)
      (run_ready sound serves) (run_progress serves) replying
    have succeeds : Runs.Run step (Succeeds batch.files (requestStream batch.requests)) worker
        first middle := receives.weaken (fun _ _ received => receives_succeeds received)
    exact ⟨_, final, (succeeds.next allowed served).append goes, returned⟩
  · have there : At batch.requests middle := receives.invariant (At batch.requests) place
      fun _ _ _ place allowed stepped => (place.step batch.fits allowed.1 stepped).1
    exact absurd answerable.few (Nat.not_le.mpr (there.crowded hangs))

/-- A call that takes such a batch can return. -/
theorem Batch.Answerable.returns {batch : Batch} (answerable : batch.Answerable) {shared : Shared}
    (sound : shared.Sound) (descriptor : Nat) :
    ∃ trace worker, Runs.Run step (Succeeds batch.files (requestStream batch.requests))
      (Worker.start descriptor shared) trace worker ∧ worker.phase = .returned :=
  answerable.returns_from sound .start (.peeking [] batch.requests rfl rfl
    (start_reading batch.requests descriptor shared) (by simp)) (Or.inl trivial)

/-- The shared state in a conversation is what earlier calls have left. -/
theorem Conversation.history {descriptor : Nat} {batches : List Batch} {sent : Bytes}
    {shared : Shared} (conversation : Conversation descriptor batches sent shared) :
    History shared := by
  induction conversation with
  | start => exact .start
  | elsewhere _ _ run ended inductionHypothesis => exact .next inductionHypothesis run ended
  | batch batch _ run returned inductionHypothesis =>
    exact .next inductionHypothesis (run.weaken (fun _ _ _ => trivial)) (Or.inl returned)

/-- What a connection is sent are the answers to its batches.

Induct on the calls. A call for another connection writes nothing here, and what it leaves in
the shared buffer keeps the next call ready. -/
theorem Conversation.answers {descriptor : Nat} {batches : List Batch} {sent : Bytes}
    {shared : Shared} (conversation : Conversation descriptor batches sent shared) :
    ∃ answers, List.Forall₂ Batch.Answer batches answers ∧ sent = answers.flatten := by
  induction conversation with
  | start => exact ⟨[], .nil, rfl⟩
  | elsewhere _ apart run _ inductionHypothesis =>
    rwa [(run_writesTo run).other apart, List.append_nil]
  | batch batch earlier run returned inductionHypothesis =>
    obtain ⟨answers, each, rfl⟩ := inductionHypothesis
    obtain ⟨_, path, isPath, bytes⟩ :=
      batch_returned earlier.history.sound batch.some batch.fits run returned
    refine ⟨answers ++ [(responseAt batch.files path).whole], ?_, ?_⟩
    · exact List.rel_append each (.cons ⟨path, isPath, rfl⟩ .nil)
    · rw [List.flatten_append, List.flatten_singleton, (run_writesTo run).own, bytes]

/-- Two requests for the root, where there are no files. -/
def rootBatch : Batch := ⟨noFiles, [rootHead, rootHead], by simp, by decide⟩

theorem rootBatch_answerable : rootBatch.Answerable :=
  ⟨by decide, fun path _ => (missing_response path none).1,
    fun path _ => (missing_response path none).2.1⟩

end Worker

end VHttp
