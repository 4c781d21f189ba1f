import VHttp.Replies

/-!
# Requests that wait together

The receive loop takes every request that is waiting off the socket, and the code that
answers stands behind the loop. So a run of the worker gives one response, however many
requests it has taken: with one request that is the response to it, and with more the others
stay without one.
-/

namespace VHttp.Worker

open VHttpRequest

/-- What open finds at a path, and how far a read of it gets. -/
abbrev FileSystem := Bytes → Opening × Option Nat

/-- Results on a connection that stays open, where sends succeed and files do not change. -/
def Succeeds (files : FileSystem) (stream : Bytes) (worker : Worker) (answer : Answer) : Prop :=
  Delivers stream worker answer ∧
    match answer with
    | .peek (.data []) _ => False
    | .send (.failed _) => False
    | .serve fresh beyond opening reading => ∀ path,
      filePath fresh worker.request.url = some path →
        files (readPath path beyond) = (opening, reading)
    | _ => True

/-- A path that may be read for a url: the root and the decoded url, and what lies behind
them, up to a NUL. -/
def PathOf (url path : Bytes) : Prop :=
  ∃ behind, path = appRoot ++ (CString.read (percentDecode url ++ behind)).1

/-- The response to a path in a file system. -/
def responseAt (files : FileSystem) (path : Bytes) : Response :=
  responseFor path (files path).1 (files path).2

/-- One response for each request, in their order, and nothing else is written. -/
def Answered (files : FileSystem) (requests : List CompleteRequest) (calls : List Call) : Prop :=
  ∃ paths, List.Forall₂ (fun request path => PathOf request.url path) requests paths ∧
    responses calls =
      paths.map (fun path => ((responseAt files path).text, (responseAt files path).sent)) ∧
    written calls =
      paths.flatMap (fun path => (responseAt files path).text ++ fileBytes (responseAt files path).sent)

/-- A worker that returns has answered every request, and it can return. -/
structure AnswersAll (files : FileSystem) (requests : List CompleteRequest) (worker : Worker) :
    Prop where
  returned : worker.phase = .returned → Answered files requests worker.calls
  finishes : ∃ trace final,
    Runs.Run step (Succeeds files (requestStream requests)) worker trace final ∧
      final.phase = .returned ∧ Answered files requests final.calls

/-- A request that can be served: it fits the string pool, its header names fit the table,
and the response to its path fits the response buffer. -/
structure Servable (files : FileSystem) (request : CompleteRequest) : Prop where
  fits : request.bytes.length ≤ poolCapacity
  few : ((readHeaders request.headers).map HeaderLine.name).toFinset.card ≤ 32
  possible : ∀ path, PathOf request.url path →
    Possible (getMimeType (strrchr path 46)) (files path).1 (files path).2
  short : ∀ path, PathOf request.url path → (responseAt files path).text.length < responseMaxLen

/-- The phases in which a response is sent, or has been. -/
def Phase.Replying : Phase → Prop
  | .sending _ _ _ | .sendingFile _ _ _ | .returned => True
  | _ => False

/-- Where a worker stands that is to answer one request. -/
inductive Single (files : FileSystem) (request : CompleteRequest) (worker : Worker) : Prop where
  | reading (place : At [request] worker) (early : worker.phase.InLoop ∨ worker.phase = .serving)
      (free : responses worker.calls = [])
  | replying (phase : worker.phase.Replying) (path : Bytes) (isPath : PathOf request.url path)
      (noted : responses worker.calls =
        [((responseAt files path).text, (responseAt files path).sent)])

section Single

variable {files : FileSystem} {request : CompleteRequest} {worker after : Worker}
variable {answer : Answer}

theorem finish_replying {responseLen : Nat} (finished : worker.finish responseLen = some after) :
    after.phase.Replying ∧ responses after.calls = responses worker.calls := by
  obtain ⟨_, _, rfl⟩ := finish_cases finished
  exact ⟨trivial, rfl⟩

theorem sendFileOn_replying {responseLen sended : Nat} {file : Option VFile}
    (sent : worker.sendFileOn responseLen file sended = some after) :
    after.phase.Replying ∧ responses after.calls = responses worker.calls := by
  rcases sendFileOn_cases sent with ⟨_, _, _, rfl⟩ | ⟨_, finished⟩
  · exact ⟨trivial, rfl⟩
  · exact finish_replying finished

theorem sendOn_replying {responseLen totalSent : Nat} {file : Option VFile}
    (sent : worker.sendOn responseLen totalSent file = some after) :
    after.phase.Replying ∧ responses after.calls = responses worker.calls := by
  rcases sendOn_cases sent with ⟨_, rfl⟩ | ⟨_, sent⟩
  · exact ⟨trivial, rfl⟩
  · exact sendFileOn_replying sent

/-- A worker that sends goes on to send, or returns, as long as no send fails. -/
theorem step_replying (phase : worker.phase.Replying)
    (allowed : ∀ errno, answer ≠ .send (.failed errno))
    (stepped : worker.step answer = some after) :
    after.phase.Replying ∧ responses after.calls = responses worker.calls := by
  cases step_taken stepped with
  | looping inLoop => cases here : worker.phase <;> simp_all [Phase.Replying, Phase.InLoop]
  | refusing here | serving here => simp [here, Phase.Replying] at phase
  | sending here step =>
    rcases send_cases step with ⟨rfl, _⟩ | ⟨⟨errno, _, rfl⟩, _⟩ | ⟨count, bytes, rfl, _, _, sent⟩
    · exact absurd rfl (allowed .again)
    · exact absurd rfl (allowed errno)
    · obtain ⟨still, same⟩ := sendOn_replying sent
      exact ⟨still, same.trans (by simp [log, Call.response])⟩
  | sendingFile here step =>
    rcases sendfile_cases step with ⟨_, sent⟩ | ⟨count, rfl, _, sent⟩
    · exact sendFileOn_replying sent
    · obtain ⟨still, same⟩ := sendFileOn_replying sent
      exact ⟨still, same.trans (by simp [log, Call.response])⟩

/-- In the loop no response is built that is not a refusal. -/
theorem step_reading (inLoop : worker.phase.InLoop)
    (early : after.phase.InLoop ∨ after.phase = .serving) (stepped : worker.step answer = some after) :
    responses after.calls = responses worker.calls := by
  cases step_taken stepped with
  | looping _ _ step =>
    obtain ⟨heard, all, looped⟩ := step.looped
    obtain ⟨_, quiet⟩ := inLoopCalls_quiet all
    cases looped with
    | stays _ calls _ | leaves _ calls _ _ _ => simp [calls, quiet]
    | refuses phase _ _ _ | cleans phase _ _ => simp [phase, Phase.InLoop] at early
  | refusing phase _ | serving phase _ | sending phase _ | sendingFile phase _ =>
    simp [phase, Phase.InLoop] at inLoop

/-- The response to a single request that has been read is that to its path. -/
theorem At.serve_single (place : At [request] worker) (ready : Ready worker)
    (phase : worker.phase = .serving) (free : responses worker.calls = [])
    {fresh : Nat → UInt8} {beyond : Bytes} {opening : Opening} {reading : Option Nat}
    (consistent : ∀ path, filePath fresh worker.request.url = some path →
      files (readPath path beyond) = (opening, reading))
    (served : worker.serve fresh beyond opening reading = some after) :
    Single files request after := by
  obtain ⟨path, built, made, _, _, rfl⟩ :=
    serve_exact ready.sound (ready.cleared phase) served
  have url : worker.request.url.content = percentDecode request.url := by
    cases place with
    | serving _ reading =>
      rw [reading.url]
      simp
    | peeking _ _ _ other | discarding _ _ _ _ other | parsing _ _ _ _ other =>
      simp [phase] at other
    | left other => exact absurd phase other.2
  obtain ⟨behind, _, read⟩ := readPath_content made beyond
  have same : responseAt files (readPath path beyond) =
      responseFor (readPath path beyond) opening reading := by
    rw [responseAt, consistent path made]
  refine .replying trivial (readPath path beyond) ⟨behind, by rw [read, url]⟩ ?_
  rw [same]
  simp [free, Call.response]

/-- Every step of a worker with a single request keeps it where it is to be. -/
theorem Single.step (single : Single files request worker)
    (fits : request.bytes.length ≤ poolCapacity) (ready : Ready worker)
    (allowed : Succeeds files (requestStream [request]) worker answer)
    (stepped : worker.step answer = some after) : Single files request after := by
  have inside : (requestStream [request]).length ≤ poolCapacity := by
    rwa [requestStream_cons, requestStream_nil, List.append_nil]
  obtain ⟨delivered, succeeded⟩ := allowed
  cases single with
  | reading place early free =>
    obtain ⟨next, goesOn⟩ := place.step inside delivered stepped
    rcases early with inLoop | serving
    · have still : after.phase.InLoop ∨ after.phase = .serving := by
        refine goesOn inLoop (List.cons_ne_nil _ _) ?_
        rintro behind rfl
        exact succeeded
      exact .reading next still ((step_reading inLoop still stepped).trans free)
    · cases step_taken stepped with
      | serving phase step => exact place.serve_single ready phase free succeeded step
      | looping inLoop => simp [serving, Phase.InLoop] at inLoop
      | refusing other | sending other | sendingFile other => simp [serving] at other
  | replying phase path isPath noted =>
    have allowed : ∀ errno, answer ≠ .send (.failed errno) := by
      rintro errno rfl
      exact succeeded
    obtain ⟨still, same⟩ := step_replying phase allowed stepped
    exact .replying still path isPath (same.trans noted)

/-- So does every run. -/
theorem run_single {shared : Shared} (sound : shared.Sound) {descriptor : Nat}
    {trace : List Answer} (fits : request.bytes.length ≤ poolCapacity)
    (run : Runs.Run Worker.step (Succeeds files (requestStream [request]))
      (start descriptor shared) trace worker) : Single files request worker := by
  have initial : Single files request (start descriptor shared) :=
    .reading (.peeking [] [request] rfl rfl (start_reading [request] descriptor shared) (by simp))
      (Or.inl trivial) rfl
  exact run.induct (fun _ reached => Single files request reached) initial
    (fun _ _ _ _ earlier single allowed stepped =>
      single.step fits (run_ready sound earlier) allowed stepped)

/-- No send fails in such a run. -/
theorem succeeds_smooth {requests : List CompleteRequest} {shared : Shared} {descriptor : Nat}
    {trace : List Answer}
    (run : Runs.Run Worker.step (Succeeds files (requestStream requests))
      (start descriptor shared) trace worker) : ¬ Stalled trace :=
  run.induct (fun trace _ => ¬ Stalled trace) (by simp [Stalled]) (by
    intro trace before answer after _ smooth allowed _ stalled
    rcases (stalled_append answer).mp stalled with earlier | rfl
    · exact smooth earlier
    · exact allowed.2)

/-- A worker with a single request that has returned has answered it. -/
theorem Single.answered {shared : Shared} {descriptor : Nat} {trace : List Answer}
    (single : Single files request worker)
    (run : Runs.Run Worker.step (Succeeds files (requestStream [request]))
      (start descriptor shared) trace worker) (returned : worker.phase = .returned) :
    Answered files [request] worker.calls := by
  cases single with
  | reading _ early => simp [returned, Phase.InLoop] at early
  | replying _ path isPath noted =>
    rcases (run_progress run).verdict with ⟨_, _, other⟩ | ⟨response, file, also, _, complete⟩
    · exact absurd returned other
    · obtain ⟨rfl, rfl⟩ : (responseAt files path).text = response ∧
          (responseAt files path).sent = file := by
        simpa using noted.symm.trans also
      exact ⟨[path], .cons isPath .nil, noted, by
        simpa using (complete returned).mpr (succeeds_smooth run)⟩

/-- Receiving on a connection that stays open succeeds. -/
theorem receives_succeeds {stream : Bytes} (received : Receives stream worker answer) :
    Succeeds files stream worker answer := by
  obtain ⟨delivered, receiving⟩ := received
  refine ⟨delivered, ?_⟩
  split
  · exact receiving
  · exact absurd receiving id
  · exact absurd receiving id
  · trivial

/-- So does taking bytes. -/
theorem taking_succeeds (stream : Bytes) (taking : Taking answer) :
    Succeeds files stream worker answer := by
  cases answer with
  | send result =>
    cases result with
    | failed _ => exact absurd taking id
    | took _ => exact ⟨by cases here : worker.phase <;> simp [Delivers, here], trivial⟩
  | sendfile result => exact ⟨by cases here : worker.phase <;> simp [Delivers, here], trivial⟩
  | _ => exact absurd taking id

/-- A worker that sends can return. -/
theorem replying_returns {trace : List Answer} (stream : Bytes) (ready : Ready worker)
    (progress : Progress trace worker) (phase : worker.phase.Replying) :
    ∃ more final, Runs.Run Worker.step (Succeeds files stream) worker more final ∧
      final.phase = .returned := by
  cases progress with
  | sending response file totalSent sending short =>
    obtain ⟨more, final, sends, returned, taking⟩ := ready.returns sending short.le
    exact ⟨more, final, .of_admitted
      (fun answer member _ => taking_succeeds stream (taking answer member)) sends, returned⟩
  | sendingFile response file totalSent sended sendingFile =>
    obtain ⟨final, sends, returned⟩ := sendfile_returns ready.sound
      (ready.bounded response.length (by rw [sendingFile]; rfl)) sendingFile
    have taking : Taking (.sendfile (some (file.info.size - sended))) := trivial
    exact ⟨_, final, .next .start (taking_succeeds stream taking) sends, returned⟩
  | returned _ _ _ _ returned => exact ⟨[], worker, .start, returned⟩
  | before other =>
    rcases other with inLoop | serving
    · cases here : worker.phase <;> simp_all [Phase.Replying, Phase.InLoop]
    · simp [serving, Phase.Replying] at phase
  | refusing other | cleanedUp other => simp [other, Phase.Replying] at phase

/-- A worker that serves a request that can be served goes on to send a response. -/
theorem serving_answers (servable : Servable files request) (ready : Ready worker)
    (serving : worker.phase = .serving)
    (reading : Reading [request] [request] [request] worker) :
    ∃ answer after, Succeeds files (requestStream [request]) worker answer ∧
      worker.step answer = some after ∧ after.phase.Replying := by
  have url : worker.request.url.content = percentDecode request.url := by
    rw [reading.url]
    simp
  have valid := reading.strings.url
  have short : worker.request.url.length < 2 ^ 31 := by
    have decoded := percentDecode_length request.url
    have fits := servable.fits
    have length : worker.request.url.length = (percentDecode request.url).length := by
      rw [← valid.content_length, url]
    have part : request.url.length ≤ request.bytes.length := by
      simp only [CompleteRequest.bytes, CompleteRequest.line, requestBuffer, List.length_append]
      omega
    have small : 2 * poolCapacity < 2 ^ 31 := by decide
    omega
  obtain ⟨path, made⟩ := filePath_returns (fun _ => 0) valid short
  obtain ⟨behind, _, read⟩ := readPath_content made []
  have isPath : PathOf request.url (readPath path []) := ⟨behind, by rw [read, url]⟩
  obtain ⟨after, served⟩ := ready.serves serving made (servable.possible _ isPath)
    (servable.short _ isPath)
  refine ⟨_, after, ⟨by simp [Delivers, serving], ?_⟩, served, ?_⟩
  · intro other remade
    obtain rfl := Option.some.inj (made.symm.trans remade)
    rfl
  · have stepped := served
    unfold Worker.step at stepped
    rw [serving] at stepped
    obtain ⟨_, _, _, _, _, rfl⟩ := serve_exact ready.sound (ready.cleared serving) stepped
    trivial

/-- A run that has answered all of its requests had one. -/
theorem answered_count {requests : List CompleteRequest} {shared : Shared} {descriptor : Nat}
    {trace : List Answer}
    (run : Runs.Run Worker.step (Succeeds files (requestStream requests))
      (start descriptor shared) trace worker) (returned : worker.phase = .returned)
    (answered : Answered files requests worker.calls) : requests.length = 1 := by
  obtain ⟨paths, each, all, _⟩ := answered
  rcases (run_progress run).verdict with ⟨_, _, other⟩ | ⟨response, file, noted, _, _⟩
  · exact absurd returned other
  · have sizes := congrArg List.length (noted.symm.trans all)
    rw [each.length_eq]
    simpa using sizes.symm

end Single

/-- In every run on complete requests that wait together, on a connection that stays open and
with sends that succeed: only a single request can be answered, and a single one that can be
served is. In every state reached the worker can go on until it returns, and when it has
returned, its response is that to the request, and is written.

At most one response is built in a run, which settles more than one request. With one, the run
keeps its place in the stream until it serves the request, and then sends the response. -/
theorem only_a_single_request_is_answered (files : FileSystem) (requests : List CompleteRequest)
    {shared : Shared} (history : History shared) {descriptor : Nat} {trace : List Answer}
    {worker : Worker}
    (run : Runs.Run step (Succeeds files (requestStream requests)) (start descriptor shared) trace
      worker) :
    (AnswersAll files requests worker → requests.length = 1) ∧
    (∀ request, requests = [request] → Servable files request →
      AnswersAll files requests worker) := by
  constructor
  · intro all
    obtain ⟨more, final, further, returned, answered⟩ := all.finishes
    exact answered_count (run.append further) returned answered
  · rintro request rfl servable
    have single := run_single history.sound servable.fits run
    refine ⟨single.answered run, ?_⟩
    have finishes : ∀ {trace : List Answer} {middle : Worker},
        Runs.Run step (Succeeds files (requestStream [request])) (start descriptor shared) trace
          middle → middle.phase.Replying → ∃ more final,
        Runs.Run step (Succeeds files (requestStream [request])) middle more final ∧
          final.phase = .returned ∧ Answered files [request] final.calls := by
      intro trace middle reached replying
      obtain ⟨more, final, goes, returned⟩ := replying_returns (requestStream [request])
        (run_ready history.sound reached) (run_progress reached) replying
      have whole := reached.append goes
      exact ⟨more, final, goes, returned,
        (run_single history.sound servable.fits whole).answered whole returned⟩
    cases single with
    | reading place early _ =>
      obtain ⟨first, middle, receives, serving, reading⟩ :=
        place.reaches_serving early servable.fits servable.few
      have reads : Runs.Run step (Succeeds files (requestStream [request])) worker first middle :=
        receives.weaken (fun _ _ received => receives_succeeds received)
      obtain ⟨answer, after, allowed, served, replying⟩ := serving_answers servable
        (run_ready history.sound (run.append reads)) serving reading
      have serves := Runs.Run.next reads allowed served
      obtain ⟨more, final, goes, done⟩ := finishes (run.append serves) replying
      exact ⟨_, final, serves.append goes, done⟩
    | replying phase _ _ _ => exact finishes run phase

/-- A file system without files. -/
def noFiles : FileSystem := fun _ => (.failed, none)

/-- A single request for the root is answered. -/
theorem only_a_single_request_is_answered_root :
    AnswersAll noFiles [rootHead] (start 5 Shared.start) := by
  refine (only_a_single_request_is_answered noFiles [rootHead] .start .start).2 rootHead rfl
    ⟨by decide, by decide, ?_, ?_⟩
  · exact fun path _ => (missing_response path none).1
  · exact fun path _ => (missing_response path none).2.1

/-- Of two requests for the root, one is left without a response. -/
theorem second_request_is_unanswered :
    ∃ trace worker, Runs.Run step (Succeeds noFiles (requestStream [rootHead, rootHead]))
        (start 5 Shared.start) trace worker ∧ worker.phase = .returned ∧
      ¬ Answered noFiles [rootHead, rootHead] worker.calls := by
  obtain ⟨first, one, takes, parsing, removed, holding, _⟩ :=
    (start_reading [rootHead, rootHead] 5 Shared.start).advance rfl rfl (by decide)
  obtain ⟨second, two, parses, peeking, still, _⟩ :=
    removed.advance_parsed parsing holding (by decide)
  obtain ⟨third, three, takesToo, parsingToo, removedToo, holdingToo, _⟩ :=
    still.advance rfl peeking (by decide)
  obtain ⟨fourth, four, parsesToo, peekingToo, all, filled⟩ :=
    removedToo.advance_parsed parsingToo holdingToo (by decide)
  obtain ⟨five, blocks, received, serving, reading⟩ := all.serve_next peekingToo filled
  have receives := (((takes.append parses).append takesToo).append parsesToo).next received blocks
  have reads : Runs.Run step (Succeeds noFiles (requestStream [rootHead, rootHead]))
      (start 5 Shared.start) _ five :=
    receives.weaken (fun _ _ received => receives_succeeds received)
  have length : five.request.url.length = 2 := by
    rw [← reading.strings.url.content_length, reading.url]
    decide
  have ready := run_ready Shared.start_sound reads
  obtain ⟨six, response, served, sending⟩ :=
    ready.serves_missing serving reading.strings.url (by rw [length]; decide)
  have allowed : Succeeds noFiles (requestStream [rootHead, rootHead]) five
      (.serve (fun _ => 0) [] .failed none) := ⟨by simp [Delivers, serving], fun _ _ => rfl⟩
  have serves := reads.next allowed served
  obtain ⟨seventh, worker, sends, returned, taking⟩ :=
    (ready.step served).returns sending (Nat.zero_le _)
  have whole := serves.append (.of_admitted
    (fun answer member _ => taking_succeeds _ (taking answer member)) sends)
  refine ⟨_, worker, whole, returned, fun answered => ?_⟩
  exact absurd (answered_count whole returned answered) (by decide)

end VHttp.Worker
