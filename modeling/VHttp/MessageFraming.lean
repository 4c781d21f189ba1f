import VHttp.Foundations.Formats
import VHttp.RequestStream

/-!
# Messages with bodies

A message is a complete request and as many body bytes as its Content-Length states. The
parser never sets the content length of a request, so the loop never takes a body off the
socket as one: the next peek begins with the first byte of the body, and a body that looks
like a request is parsed as one. Without bodies, every message is taken as it was sent.
-/

namespace VHttp.Worker

open VHttpRequest

/-- The name of the header that states the size of a body. -/
def contentLengthName : CString := ⟨ascii "Content-Length", by decide⟩

/-- A complete request with its body. -/
structure Message where
  request : CompleteRequest
  body : Bytes
  stated : ∀ header ∈ request.headers, header.name = contentLengthName →
    header.trimmed = digits body.length
  unstated : (∀ header ∈ request.headers, header.name ≠ contentLengthName) → body = []

/-- A message as it is sent. -/
def Message.bytes (message : Message) : Bytes := message.request.bytes ++ message.body

/-- What is to be taken off the socket for a message: the head, and the body if there is one. -/
def Message.pieces (message : Message) : List Bytes :=
  message.request.bytes :: if message.body = [] then [] else [message.body]

/-- The bytes of messages, one behind the other. -/
def messageStream (messages : List Message) : Bytes := messages.flatMap Message.bytes

/-- The worker takes messages as they were sent: every buffer that it parses starts with a
message's head, what it has taken off the socket are heads and bodies in order, and it can
go on until all of them are taken. -/
structure TakesMessages (messages : List Message) (worker : Worker) : Prop where
  starts : ∀ buffer, .parsed buffer ∈ worker.calls → ∃ before message after,
    messages = before ++ message :: after ∧ buffer = messageStream (message :: after)
  pieces : piecesTaken worker.calls <+: messages.flatMap Message.pieces
  finishes : ∃ trace final, Runs.Run step (Delivers (messageStream messages)) worker trace final ∧
    piecesTaken final.calls = messages.flatMap Message.pieces

/-- Without bodies, the stream of messages is that of their requests. -/
theorem messageStream_bodyless (messages : List Message)
    (bodyless : ∀ message ∈ messages, message.body = []) :
    messageStream messages = requestStream (messages.map Message.request) := by
  rw [messageStream, requestStream, List.flatMap_map]
  refine List.flatMap_congr fun message member => ?_
  rw [Message.bytes, bodyless message member, List.append_nil]

theorem pieces_bodyless (messages : List Message)
    (bodyless : ∀ message ∈ messages, message.body = []) :
    messages.flatMap Message.pieces =
      (messages.map Message.request).map CompleteRequest.bytes := by
  induction messages with
  | nil => rfl
  | cons message rest inductionHypothesis =>
    have empty := bodyless message List.mem_cons_self
    have tail := inductionHypothesis
      (fun other member => bodyless other (List.mem_cons_of_mem _ member))
    rw [List.flatMap_cons, tail, Message.pieces, if_pos empty]
    rfl

/-- What a worker has taken stays at the front of what there is to take. -/
theorem At.prefix {requests : List CompleteRequest} {worker : Worker}
    (place : At requests worker) :
    piecesTaken worker.calls <+: requests.map CompleteRequest.bytes := by
  cases place with
  | peeking parsed rest split phase reading _ =>
    rw [reading.taken, split, List.map_append]
    exact List.prefix_append _ _
  | discarding parsed request rest split phase reading holding =>
    rw [reading.taken, split, List.map_append]
    exact List.prefix_append _ _
  | parsing parsed request rest split phase reading holding =>
    rw [reading.taken, split]
    exact ⟨rest.map CompleteRequest.bytes, by simp⟩
  | serving phase reading => exact reading.taken ▸ List.prefix_rfl
  | left phase removed framed => exact removed ▸ List.prefix_rfl

theorem At.framed {requests : List CompleteRequest} {worker : Worker}
    (place : At requests worker) : Framed requests worker.calls := by
  cases place with
  | peeking parsed rest split phase reading _ => exact reading.framed
  | discarding parsed request rest split phase reading holding => exact reading.framed
  | parsing parsed request rest split phase reading holding => exact reading.framed
  | serving phase reading => exact reading.framed
  | left phase removed framed => exact framed

/-- In every run on messages without bodies that fit the string pool, whose header lines,
those of the last one apart, have up to 32 distinct names: in every state reached, the
worker takes the messages as they were sent.

The stream is one of complete requests, and the run keeps its place in it. -/
theorem bodyless_messages_are_taken (messages : List Message)
    (fits : (messageStream messages).length ≤ poolCapacity)
    (bodyless : ∀ message ∈ messages, message.body = [])
    (few : ((messages.dropLast.flatMap (fun message => readHeaders message.request.headers)).map
      HeaderLine.name).toFinset.card ≤ 32)
    {descriptor : Nat} {shared : Shared} {trace : List Answer} {worker : Worker}
    (run : Runs.Run step (Delivers (messageStream messages)) (start descriptor shared) trace
      worker) :
    TakesMessages messages worker := by
  have same := messageStream_bodyless messages bodyless
  have names : (messages.map Message.request).dropLast.flatMap
      (fun request => readHeaders request.headers) =
      messages.dropLast.flatMap (fun message => readHeaders message.request.headers) := by
    rw [← List.map_dropLast, List.flatMap_map]
  have place := run_place (same ▸ fits) (same ▸ run)
  refine ⟨?_, ?_, ?_⟩
  · intro buffer parsed
    obtain ⟨before, request, after, split, begins⟩ := place.framed buffer parsed
    obtain ⟨front, tail, rfl, rfl, behind⟩ := List.map_eq_append_iff.mp split
    obtain ⟨message, others, rfl, rfl, rfl⟩ := List.map_eq_cons_iff.mp behind
    refine ⟨front, message, others, rfl, ?_⟩
    rw [messageStream_bodyless _ (fun other member => bodyless other (by simp_all)), begins]
    rfl
  · rw [pieces_bodyless messages bodyless]
    exact place.prefix
  · rw [pieces_bodyless messages bodyless, same]
    obtain ⟨trace, final, takes, all⟩ := place.takes_all (same ▸ fits) (names ▸ few)
    exact ⟨trace, final, takes.weaken (fun _ _ received => received.1), all⟩

/-- A request for the root as a message. -/
def rootMessage : Message := ⟨rootHead, [], by decide, fun _ => rfl⟩

/-- Two requests for the root; the first one has been taken. -/
theorem bodyless_messages_are_taken_twice :
    ∃ trace worker, Runs.Run step (Delivers (messageStream [rootMessage, rootMessage]))
        (start 5 Shared.start) trace worker ∧ worker.phase = .parsing ∧
      TakesMessages [rootMessage, rootMessage] worker := by
  have same := messageStream_bodyless [rootMessage, rootMessage] (by decide)
  obtain ⟨trace, worker, received, parsing, _⟩ :=
    (start_reading [rootHead, rootHead] 5 Shared.start).advance rfl rfl (by decide)
  have run := received.weaken (fun _ _ received => received.1)
  refine ⟨trace, worker, same ▸ run, parsing, ?_⟩
  exact bodyless_messages_are_taken [rootMessage, rootMessage] (by decide) (by decide) (by decide)
    (same ▸ run)

/-- A header line that states the size of a request for the root. -/
def sizeLine : HeaderLine where
  key := ascii "Content-Length"
  value := ascii " 18"
  named := by decide
  keyClean := by decide
  valueClean := by decide
  printed := by decide

/-- A request with a body. -/
def postHead : CompleteRequest where
  method := .post
  name := ascii "POST"
  supported := by decide
  url := ascii "/"
  urlClean := slash_clean
  headers := [sizeLine]

/-- A message whose body is a request for the root. -/
def smuggled : Message := ⟨postHead, rootHead.bytes, by decide, by decide⟩

/-- The body of a message is parsed as a request. -/
theorem body_is_parsed :
    ∃ trace worker, Runs.Run step (Delivers (messageStream [smuggled])) (start 5 Shared.start) trace
        worker ∧ (messageStream [smuggled]).length ≤ poolCapacity ∧
      .parsed smuggled.body ∈ worker.calls ∧ ¬ TakesMessages [smuggled] worker := by
  have same : messageStream [smuggled] = requestStream [postHead, rootHead] := by
    simp [messageStream, requestStream, Message.bytes, smuggled]
  obtain ⟨first, middle, takes, parsing, removed, holding, _⟩ :=
    (start_reading [postHead, rootHead] 5 Shared.start).advance rfl rfl (by decide)
  obtain ⟨second, next, parses, peeking, still, _⟩ :=
    removed.advance_parsed parsing holding (by decide)
  obtain ⟨third, worker, takesBody, _, _, _, parsedBody⟩ := still.advance rfl peeking (by decide)
  have body : requestStream [rootHead] = smuggled.body := by
    simp [requestStream, smuggled]
  rw [body] at parsedBody
  have run := ((takes.append parses).append takesBody).weaken (fun _ _ received => received.1)
  refine ⟨_, worker, same ▸ run, by decide, parsedBody, ?_⟩
  intro all
  obtain ⟨before, message, after, split, begins⟩ := all.starts _ parsedBody
  cases before with
  | nil =>
    obtain ⟨rfl, rfl⟩ := List.cons.inj split
    have sizes := congrArg List.length begins
    exact absurd sizes (by decide)
  | cons _ rest => simp at split

end VHttp.Worker
