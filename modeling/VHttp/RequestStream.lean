import VHttp.CompleteRequest
import VHttp.HashTableTermination
import VHttp.WorkerSteps

/-!
# A stream of complete requests

What is waiting on a connection is a stream of bytes. A peek delivers what is waiting and
leaves it there, a recv takes it off, and the parser is the one of http_request.c. When the
stream consists of complete requests and fits the string pool, the receive loop peeks at
them, takes off the head of the first one, parses it, and comes back for the next one, until
nothing is waiting. All requests go through one table, so the loop can only be held up where
the table has no room for another name.
-/

namespace VHttp

open VHttpRequest VHashTable

/-- The bytes that a call takes off the socket. -/
def Call.taken : Call → Option Bytes
  | .received _ (.data bytes) => some bytes
  | _ => none

namespace Worker

/-- What a list of calls takes off the socket, piece by piece. -/
def piecesTaken (calls : List Call) : List Bytes := calls.filterMap Call.taken

/-- What is still waiting of a stream. -/
def waiting (stream : Bytes) (calls : List Call) : Bytes :=
  stream.drop (piecesTaken calls).flatten.length

/-- The results of recv on a connection whose incoming bytes are all available, and of the
parser. When nothing is waiting, a peek would block, or the peer has closed. -/
def Delivers (stream : Bytes) (worker : Worker) (answer : Answer) : Prop :=
  match worker.phase, answer with
  | .peeking, .peek result _ =>
    if waiting stream worker.calls = [] then result = .failed .again ∨ result = .data []
    else result = .data ((waiting stream worker.calls).take poolCapacity)
  | .discarding size, .discard result =>
    result = .data ((waiting stream worker.calls).take size)
  | .receivingBody, .body _ result =>
    result = .data ((waiting stream worker.calls).take worker.request.contentLength)
  | .parsing, .parse result => ∃ fresh stack, VHttpRequest.parse fresh stack
      worker.stringPool.block ⟨0, worker.stringPool.length⟩ worker.request = some result
  | _, _ => True

/-- The result of a call of the receive loop, on a connection that stays open. -/
def Answer.Receiving : Answer → Prop
  | .peek (.data []) _ => False
  | .peek _ _ | .discard _ | .parse _ | .body _ _ => True
  | _ => False

/-- The results of the receive loop, on a connection that stays open. -/
def Receives (stream : Bytes) (worker : Worker) (answer : Answer) : Prop :=
  Delivers stream worker answer ∧ answer.Receiving

/-- The bytes of complete requests, one behind the other. -/
def requestStream (requests : List CompleteRequest) : Bytes :=
  requests.flatMap CompleteRequest.bytes

/-- The insertions that parsing complete requests makes. -/
def insertions (requests : List CompleteRequest) : List (CString × Bytes) :=
  requests.flatMap (fun request => (readHeaders request.headers).map HeaderLine.entry)

/-- Every buffer that was parsed begins with a request and is the rest of the stream. -/
def Framed (requests : List CompleteRequest) (calls : List Call) : Prop :=
  ∀ buffer, .parsed buffer ∈ calls → ∃ before request after,
    requests = before ++ request :: after ∧ buffer = requestStream (request :: after)

/-- What a worker has read of a list of complete requests: the first ones have been parsed
into its request, and as many, or one more, have been taken off the socket. -/
structure Reading (requests parsed removed : List CompleteRequest) (worker : Worker) : Prop where
  capacity : worker.stringPool.block.length = poolCapacity
  strings : ValidStrings worker.request
  bodyless : worker.request.contentLength = 0
  inserted : insertAll (VHashTable.init 0) (insertions parsed) = some worker.request.headers
  url : worker.request.url.content =
    (parsed.map (fun request => percentDecode request.url)).reverse.flatten
  taken : piecesTaken worker.calls = removed.map CompleteRequest.bytes
  framed : Framed requests worker.calls

/-- The string pool holds the stream from some request on. -/
def Holding (requests : List CompleteRequest) (worker : Worker) : Prop :=
  ∃ behind, worker.stringPool = ⟨requestStream requests ++ behind, (requestStream requests).length⟩

/-- A string pool into which something was received. -/
def Filled (pool : VString) : Prop := pool.length ≠ 0 ∧ pool.length ≤ pool.capacity

/-- Where a worker stands with a list of complete requests. -/
inductive At (requests : List CompleteRequest) (worker : Worker) : Prop where
  | peeking (parsed rest : List CompleteRequest) (split : requests = parsed ++ rest)
      (phase : worker.phase = .peeking) (reading : Reading requests parsed parsed worker)
      (received : parsed ≠ [] → Filled worker.stringPool)
  | discarding (parsed : List CompleteRequest) (request : CompleteRequest)
      (rest : List CompleteRequest) (split : requests = parsed ++ request :: rest)
      (phase : worker.phase = .discarding request.bytes.length)
      (reading : Reading requests parsed parsed worker)
      (holding : Holding (request :: rest) worker)
  | parsing (parsed : List CompleteRequest) (request : CompleteRequest)
      (rest : List CompleteRequest) (split : requests = parsed ++ request :: rest)
      (phase : worker.phase = .parsing)
      (reading : Reading requests parsed (parsed ++ [request]) worker)
      (holding : Holding (request :: rest) worker)
  | serving (phase : worker.phase = .serving) (reading : Reading requests requests requests worker)
  | left (phase : ¬ worker.phase.InLoop ∧ worker.phase ≠ .serving)
      (taken : piecesTaken worker.calls = requests.map CompleteRequest.bytes)
      (framed : Framed requests worker.calls)

section Streams

variable {requests parsed removed rest : List CompleteRequest} {request : CompleteRequest}
variable {worker after : Worker}

@[simp] theorem requestStream_nil : requestStream [] = [] := rfl

@[simp] theorem requestStream_cons (request : CompleteRequest) (rest : List CompleteRequest) :
    requestStream (request :: rest) = request.bytes ++ requestStream rest := rfl

@[simp] theorem piecesTaken_nil : piecesTaken [] = [] := rfl

@[simp] theorem piecesTaken_cons (call : Call) (rest : List Call) :
    piecesTaken (call :: rest) = call.taken.toList ++ piecesTaken rest := by
  rw [piecesTaken, List.filterMap_cons]
  cases call.taken <;> rfl

@[simp] theorem piecesTaken_append (first second : List Call) :
    piecesTaken (first ++ second) = piecesTaken first ++ piecesTaken second := List.filterMap_append

theorem requestStream_empty (empty : requestStream requests = []) : requests = [] := by
  cases requests with
  | nil => rfl
  | cons request rest =>
    have positive := request.bytes_positive
    rw [requestStream_cons, List.append_eq_nil_iff] at empty
    simp [empty.1] at positive

/-- What is waiting once some requests have been taken off. -/
theorem waiting_rest (split : requests = removed ++ rest)
    (removedHere : piecesTaken worker.calls = removed.map CompleteRequest.bytes) :
    waiting (requestStream requests) worker.calls = requestStream rest := by
  have begun : (removed.map CompleteRequest.bytes).flatten = requestStream removed :=
    List.flatMap_def.symm
  have whole : requestStream requests = requestStream removed ++ requestStream rest := by
    rw [split, requestStream, List.flatMap_append]
    rfl
  rw [waiting, removedHere, begun, whole, List.drop_left]

/-- Calls that take nothing and parse nothing change neither account. -/
theorem Framed.append {calls others : List Call} (framed : Framed requests calls)
    (none : ∀ buffer, .parsed buffer ∉ others) : Framed requests (calls ++ others) := by
  intro buffer member
  rcases List.mem_append.mp member with earlier | later
  · exact framed buffer earlier
  · exact absurd later (none buffer)

/-- A peek that delivers some bytes puts them in front of the string pool and searches. -/
theorem peek_data {bytes : Bytes} (nonempty : bytes ≠ []) (fits : bytes.length ≤ poolCapacity)
    (capacity : worker.stringPool.block.length = poolCapacity) (behind : Bytes) :
    worker.peek (.data bytes) behind =
      search { worker.log [.peeked worker.fileDescriptor (.data bytes)] with
        stringPool := ⟨bytes ++ worker.stringPool.block.drop bytes.length, bytes.length⟩ } behind := by
  obtain ⟨byte, others, rfl⟩ := List.exists_cons_of_ne_nil nonempty
  have inside : 0 + (byte :: others).length ≤ worker.stringPool.block.length := by
    rw [Nat.zero_add, capacity]
    exact fits
  have written := writeRange_some inside
  rw [List.take_zero, List.nil_append, Nat.zero_add] at written
  simp only [peek, guard, fits, ↓reduceIte, Option.bind_eq_bind, Option.pure_def, Option.bind_some,
    log, written]

/-- A peek at the requests that are left finds the end of the first one. -/
theorem Reading.peek (reading : Reading requests parsed parsed worker)
    (fits : (requestStream (request :: rest)).length ≤ poolCapacity) (behind : Bytes) :
    ∃ after, worker.peek (.data (requestStream (request :: rest))) behind = some after ∧
      after.phase = .discarding request.bytes.length ∧
      Reading requests parsed parsed after ∧ Holding (request :: rest) after := by
  have positive := request.bytes_positive
  have nonempty : requestStream (request :: rest) ≠ [] :=
    fun empty => by simpa using requestStream_empty empty
  have found := request.search_ends [] (requestStream rest)
    (worker.stringPool.block.drop (requestStream (request :: rest)).length ++ behind)
  rw [peek_data nonempty fits reading.capacity]
  simp only [List.nil_append, ← requestStream_cons, List.length_nil] at found
  refine ⟨{ worker.log [.peeked worker.fileDescriptor (.data (requestStream (request :: rest)))] with
      stringPool := ⟨requestStream (request :: rest) ++
        worker.stringPool.block.drop (requestStream (request :: rest)).length,
        (requestStream (request :: rest)).length⟩
      phase := .discarding request.bytes.length }, ?_, rfl,
    ⟨?_, reading.strings, reading.bodyless, reading.inserted, reading.url, ?_, ?_⟩, _, rfl⟩
  · simp only [search, log, List.append_assoc, found, Option.bind_eq_bind, Option.bind_some,
      gt_iff_lt, positive, ↓reduceIte, Option.pure_def]
  · have capacity := reading.capacity
    simp only [List.length_append, List.length_drop]
    omega
  · simp [log, reading.taken, Call.taken]
  · exact reading.framed.append (by simp)

/-- The head is taken off the socket, and the buffer is parsed. -/
theorem Reading.discard (reading : Reading requests parsed parsed worker)
    (split : requests = parsed ++ request :: rest) (holding : Holding (request :: rest) worker) :
    ∃ after, worker.discard request.bytes.length (.data request.bytes) = some after ∧
      after.phase = .parsing ∧ Reading requests parsed (parsed ++ [request]) after ∧
      Holding (request :: rest) after ∧
      .parsed (requestStream (request :: rest)) ∈ after.calls := by
  obtain ⟨behind, held⟩ := holding
  have content : worker.stringPool.content = requestStream (request :: rest) := by
    rw [held, VString.content, List.take_left]
  refine ⟨{ worker.log [.received worker.fileDescriptor (.data request.bytes),
      .parsed worker.stringPool.content] with phase := .parsing }, ?_, rfl,
    ⟨reading.capacity, reading.strings, reading.bodyless, reading.inserted, reading.url, ?_, ?_⟩,
    ⟨behind, held⟩, by simp [log, content]⟩
  · simp [Worker.discard, guard, log]
  · simp [log, reading.taken, Call.taken]
  · intro buffer member
    simp only [log, List.mem_append, List.mem_cons, List.not_mem_nil, Call.parsed.injEq,
      reduceCtorEq, false_or, or_false] at member
    rcases member with earlier | rfl
    · exact reading.framed buffer earlier
    · exact ⟨parsed, request, rest, split, content⟩

/-- Whatever the parser returns, the table had room for the names of the request. -/
theorem Holding.table (holding : Holding (request :: rest) worker) {fresh : Nat → UInt8}
    {stack : Nat → VStringView} {result : Parsed}
    (isParsed : VHttpRequest.parse fresh stack worker.stringPool.block
      ⟨0, worker.stringPool.length⟩ worker.request = some result) :
    ∃ table, insertAll worker.request.headers
      ((readHeaders request.headers).map HeaderLine.entry) = some table := by
  obtain ⟨behind, held⟩ := holding
  obtain ⟨left, cut⟩ := request.parse_into [] (requestStream rest) behind worker.request
  simp only [List.nil_append, List.length_nil, ← requestStream_cons] at cut
  rw [held, cut, Option.bind_eq_some_iff] at isParsed
  obtain ⟨table, inserted, _⟩ := isParsed
  exact ⟨table, inserted⟩

/-- With room in the table the parser accepts the request, and the next peek comes. -/
theorem Reading.parse (reading : Reading requests parsed (parsed ++ [request]) worker)
    (holding : Holding (request :: rest) worker) {table : VHashTable Bytes}
    (inserted : insertAll worker.request.headers
      ((readHeaders request.headers).map HeaderLine.entry) = some table)
    (fresh : Nat → UInt8) (stack : Nat → VStringView) :
    ∃ result after, VHttpRequest.parse fresh stack worker.stringPool.block
        ⟨0, worker.stringPool.length⟩ worker.request = some result ∧
      worker.parse result = some after ∧ after.phase = .peeking ∧
      Reading requests (parsed ++ [request]) (parsed ++ [request]) after ∧
      Filled after.stringPool := by
  obtain ⟨behind, held⟩ := holding
  obtain ⟨result, _, isParsed, accepted, _, url, strings, same, size, _⟩ :=
    request.parse_accepts [] (requestStream rest) behind fresh stack reading.strings inserted
  simp only [List.nil_append, List.length_nil, ← requestStream_cons] at isParsed size
  have kept : result.memory.length = worker.stringPool.capacity := by
    rw [size, held]
    rfl
  have bodyless : result.request.contentLength = 0 := by
    rw [same]
    exact reading.bodyless
  refine ⟨result, { worker with
      request := result.request
      stringPool := { worker.stringPool with block := result.memory }
      phase := .peeking }, by rw [held]; exact isParsed, ?_, rfl,
    ⟨kept.trans reading.capacity, strings, bodyless, ?_, ?_, reading.taken, reading.framed⟩, ?_⟩
  · simp [Worker.parse, guard, kept, accepted, bodyless]
  · rw [insertions, List.flatMap_append, insertAll, List.foldlM_append]
    have before := reading.inserted
    rw [insertions, insertAll] at before
    rw [before, same]
    simpa [insertAll] using inserted
  · rw [url, reading.url]
    simp
  · have positive := request.bytes_positive
    have inside : (requestStream (request :: rest)).length ≤ worker.stringPool.capacity := by
      rw [held, VString.capacity, List.length_append]
      exact Nat.le_add_right _ _
    rw [Filled, VString.capacity, kept]
    simp only [held, requestStream_cons, List.length_append] at inside ⊢
    exact ⟨by omega, inside⟩

/-- When nothing is waiting any more, the loop is left. -/
theorem Reading.leave (reading : Reading requests requests requests worker) {result : Received}
    (ended : result = .failed .again ∨ result = .data []) {behind : Bytes}
    (peeked : worker.peek result behind = some after) : At requests after := by
  have removed : piecesTaken (worker.log [.peeked worker.fileDescriptor result]).calls =
      requests.map CompleteRequest.bytes := by
    simp [log, reading.taken, Call.taken]
  have framed : Framed requests (worker.log [.peeked worker.fileDescriptor result]).calls :=
    reading.framed.append (by simp)
  have cleaned : At requests (worker.log [.peeked worker.fileDescriptor result]).cleanup := by
    have cleanedUp : ¬ Phase.InLoop .cleanedUp ∧ Phase.cleanedUp ≠ .serving := by
      simp [Phase.InLoop]
    refine .left cleanedUp ?_ (framed.append (by simp))
    rw [cleanup, log, piecesTaken_append, removed]
    simp [Call.taken]
  rcases ended with rfl | rfl
  · rcases leaveLoop_cases peeked with ⟨_, rfl⟩ | ⟨block, _, cleared, rfl⟩
    · exact cleaned
    · exact .serving rfl ⟨(writeRange_length cleared).trans reading.capacity, reading.strings,
        reading.bodyless, reading.inserted, reading.url, removed, framed⟩
  · exact Option.some.inj peeked ▸ cleaned

/-- When a peek would block, a worker that has received something serves the request. -/
theorem Reading.serve_next (reading : Reading requests requests requests worker)
    (phase : worker.phase = .peeking) (received : Filled worker.stringPool) :
    ∃ next, worker.step (.peek (.failed .again) []) = some next ∧
      Receives (requestStream requests) worker (.peek (.failed .again) []) ∧
      next.phase = .serving ∧ Reading requests requests requests next := by
  obtain ⟨nonzero, fits⟩ := received
  obtain ⟨block, cleared, size⟩ := clearFront_some worker.stringPool.block _ fits
  refine ⟨{ worker.log [.peeked worker.fileDescriptor (.failed .again)] with
      stringPool := ⟨block, 0⟩, phase := .serving }, ?_, ?_, rfl,
    ⟨size.trans reading.capacity, reading.strings, reading.bodyless, reading.inserted, reading.url,
      ?_, reading.framed.append (by simp)⟩⟩
  · unfold Worker.step
    rw [phase]
    simp only [Worker.peek, receiveFailed, leaveLoop, log, nonzero, ↓reduceIte, cleared,
      Option.bind_eq_bind, Option.bind_some, Option.pure_def]
  · have all : requests = requests ++ [] := (List.append_nil _).symm
    refine ⟨?_, trivial⟩
    simp only [Delivers, phase, waiting_rest all reading.taken]
    simp
  · simp [log, reading.taken, Call.taken]

/-- Behind the loop nothing is taken any more. -/
theorem AnswerStep.left (step : AnswerStep worker after)
    (removed : piecesTaken worker.calls = requests.map CompleteRequest.bytes)
    (framed : Framed requests worker.calls) : At requests after := by
  obtain ⟨calls, same, quiet⟩ := step.calls
  have none : calls.filterMap Call.taken = [] := by
    rw [List.filterMap_eq_nil_iff]
    intro call member
    cases call with
    | received descriptor result =>
      have outside := quiet _ member descriptor
      simp [InLoopCall] at outside
    | _ => rfl
  refine .left step.beyond ?_ ?_
  · rw [same, piecesTaken_append, removed, piecesTaken, none, List.append_nil]
  · rw [same]
    exact framed.append (fun buffer member => quiet _ member 0 trivial)

/-- Every step of a worker to which the stream is delivered keeps its place in it. As long as
the connection stays open, the loop is left for the request only. -/
theorem At.step {answer : Answer} (place : At requests worker)
    (fits : (requestStream requests).length ≤ poolCapacity)
    (delivered : Delivers (requestStream requests) worker answer)
    (stepped : worker.step answer = some after) :
    At requests after ∧ (worker.phase.InLoop → requests ≠ [] →
      (∀ behind, answer ≠ .peek (.data []) behind) →
        after.phase.InLoop ∨ after.phase = .serving) := by
  cases place with
  | peeking parsed rest split phase reading filled =>
    obtain ⟨result, behind, rfl, ran⟩ := step_peeking phase stepped
    simp only [Delivers, phase, waiting_rest split reading.taken] at delivered
    cases rest with
    | nil =>
      rw [List.append_nil] at split
      subst split
      refine ⟨reading.leave delivered ran, fun _ some open' => Or.inr ?_⟩
      rcases delivered with rfl | rfl
      · rcases leaveLoop_cases ran with ⟨empty, _⟩ | ⟨block, _, _, rfl⟩
        · exact absurd empty (filled some).1
        · rfl
      · exact absurd rfl (open' behind)
    | cons request rest =>
      have inside : (requestStream (request :: rest)).length ≤ poolCapacity := by
        rw [split, requestStream, List.flatMap_append, List.length_append] at fits
        exact (Nat.le_add_left _ _).trans fits
      obtain ⟨next, peeked, discarding, still, holding⟩ := reading.peek inside behind
      rw [if_neg (fun empty => by simpa using requestStream_empty empty),
        List.take_of_length_le inside] at delivered
      rw [delivered, peeked, Option.some.injEq] at ran
      subst ran
      exact ⟨.discarding parsed request rest split discarding still holding,
        fun _ _ _ => Or.inl (discarding ▸ trivial)⟩
  | discarding parsed request rest split phase reading holding =>
    obtain ⟨result, rfl, ran⟩ := step_discarding phase stepped
    simp only [Delivers, phase, waiting_rest split reading.taken, requestStream_cons,
      List.take_left] at delivered
    obtain ⟨next, discarded, parsing, still, held, _⟩ := reading.discard split holding
    rw [delivered, discarded, Option.some.injEq] at ran
    subst ran
    exact ⟨.parsing parsed request rest split parsing still held,
      fun _ _ _ => Or.inl (parsing ▸ trivial)⟩
  | parsing parsed request rest split phase reading holding =>
    obtain ⟨result, rfl, ran⟩ := step_parsing phase stepped
    simp only [Delivers, phase] at delivered
    obtain ⟨fresh, stack, isParsed⟩ := delivered
    obtain ⟨table, inserted⟩ := holding.table isParsed
    obtain ⟨other, next, same, parsedNext, peeking, still, filled⟩ :=
      reading.parse holding inserted fresh stack
    obtain rfl := Option.some.inj (isParsed.symm.trans same)
    rw [parsedNext, Option.some.injEq] at ran
    subst ran
    exact ⟨.peeking (parsed ++ [request]) rest (by simp [split]) peeking still (fun _ => filled),
      fun _ _ _ => Or.inl (peeking ▸ trivial)⟩
  | serving phase reading =>
    have outside : ¬ worker.phase.InLoop := by simp [phase, Phase.InLoop]
    exact ⟨(answer_quiet outside stepped).left reading.taken reading.framed,
      fun inside => absurd inside outside⟩
  | left phase removed framed =>
    exact ⟨(answer_quiet phase.1 stepped).left removed framed,
      fun inside => absurd inside phase.1⟩

theorem start_reading (requests : List CompleteRequest) (descriptor : Nat) (shared : Shared) :
    Reading requests [] [] (start descriptor shared) :=
  ⟨List.length_replicate, init_fresh.valid, rfl, rfl, rfl, rfl, by simp [Framed, start]⟩

/-- A run of a worker that starts with nothing received, and to which a stream of complete
requests is delivered, keeps its place in the stream. -/
theorem run_place {descriptor : Nat} {shared : Shared} {trace : List Answer}
    (fits : (requestStream requests).length ≤ poolCapacity)
    (run : Runs.Run step (Delivers (requestStream requests)) (start descriptor shared) trace worker) :
    At requests worker := by
  have initial : At requests (start descriptor shared) :=
    .peeking [] requests rfl rfl (start_reading requests descriptor shared) (by simp)
  exact run.invariant (At requests) initial
    (fun _ _ _ place delivered stepped => (place.step fits delivered stepped).1)

/-- The insertions of the requests that have been parsed, and of the next one. -/
theorem Reading.room (reading : Reading requests parsed removed worker)
    (few : (((parsed ++ [request]).flatMap (fun one => readHeaders one.headers)).map
      HeaderLine.name).toFinset.card ≤ 32) :
    ∃ table, insertAll worker.request.headers
      ((readHeaders request.headers).map HeaderLine.entry) = some table := by
  have names : (insertions (parsed ++ [request])).map Prod.fst =
      ((parsed ++ [request]).flatMap (fun one => readHeaders one.headers)).map HeaderLine.name := by
    rw [insertions, List.map_flatMap, List.map_flatMap]
    simp only [List.map_map]
    rfl
  have room := (insertAll_returns_iff (insertions (parsed ++ [request]))).mpr (names ▸ few)
  have before := reading.inserted
  rw [insertions, insertAll] at before
  rw [insertions, List.flatMap_append, insertAll, List.foldlM_append, before] at room
  simpa [insertAll] using room

/-- The step that takes a head off the socket. -/
theorem Reading.discard_step (reading : Reading requests parsed parsed worker)
    (split : requests = parsed ++ request :: rest)
    (phase : worker.phase = .discarding request.bytes.length)
    (holding : Holding (request :: rest) worker) :
    ∃ next, worker.step (.discard (.data request.bytes)) = some next ∧
      Receives (requestStream requests) worker (.discard (.data request.bytes)) ∧
      next.phase = .parsing ∧ Reading requests parsed (parsed ++ [request]) next ∧
      Holding (request :: rest) next ∧ .parsed (requestStream (request :: rest)) ∈ next.calls := by
  obtain ⟨next, discarded, parsing, removed, held⟩ := reading.discard split holding
  refine ⟨next, ?_, ?_, parsing, removed, held⟩
  · unfold Worker.step
    rw [phase]
    exact discarded
  · refine ⟨?_, trivial⟩
    simp only [Delivers, phase, waiting_rest split reading.taken, requestStream_cons,
      List.take_left]

/-- Two steps take the next request off the socket. -/
theorem Reading.advance (reading : Reading requests parsed parsed worker)
    (split : requests = parsed ++ request :: rest) (phase : worker.phase = .peeking)
    (fits : (requestStream requests).length ≤ poolCapacity) :
    ∃ trace next, Runs.Run step (Receives (requestStream requests)) worker trace next ∧
      next.phase = .parsing ∧ Reading requests parsed (parsed ++ [request]) next ∧
      Holding (request :: rest) next ∧ .parsed (requestStream (request :: rest)) ∈ next.calls := by
  have inside : (requestStream (request :: rest)).length ≤ poolCapacity := by
    rw [split, requestStream, List.flatMap_append, List.length_append] at fits
    exact (Nat.le_add_left _ _).trans fits
  obtain ⟨middle, peeked, discarding, still, held⟩ := reading.peek inside []
  obtain ⟨next, discards, still_available, parsing, removed, holding⟩ :=
    still.discard_step split discarding held
  have peeks : worker.step (.peek (.data (requestStream (request :: rest))) []) = some middle := by
    unfold Worker.step
    rw [phase]
    exact peeked
  have nonempty : requestStream (request :: rest) ≠ [] :=
    fun empty => by simpa using requestStream_empty empty
  have available : Receives (requestStream requests) worker
      (.peek (.data (requestStream (request :: rest))) []) := by
    constructor
    · simp only [Delivers, phase, waiting_rest split reading.taken]
      rw [if_neg nonempty, List.take_of_length_le inside]
    · obtain ⟨byte, bytes, opened⟩ := List.exists_cons_of_ne_nil nonempty
      rw [opened]
      trivial
  exact ⟨_, next, .next (.next .start available peeks) still_available discards, parsing, removed,
    holding⟩

/-- With room in the table a third step parses it. -/
theorem Reading.advance_parsed (reading : Reading requests parsed (parsed ++ [request]) worker)
    (phase : worker.phase = .parsing) (holding : Holding (request :: rest) worker)
    (few : (((parsed ++ [request]).flatMap (fun one => readHeaders one.headers)).map
      HeaderLine.name).toFinset.card ≤ 32) :
    ∃ trace next, Runs.Run step (Receives (requestStream requests)) worker trace next ∧
      next.phase = .peeking ∧
      Reading requests (parsed ++ [request]) (parsed ++ [request]) next ∧
      Filled next.stringPool := by
  obtain ⟨table, inserted⟩ := reading.room few
  obtain ⟨result, next, isParsed, parsedNext, peeking, still, received⟩ :=
    reading.parse holding inserted (fun _ => 0) (fun _ => ⟨0, 0⟩)
  have parses : worker.step (.parse result) = some next := by
    unfold Worker.step
    rw [phase]
    exact parsedNext
  have genuine : Receives (requestStream requests) worker (.parse result) := by
    refine ⟨?_, trivial⟩
    simp only [Delivers, phase]
    exact ⟨_, _, isParsed⟩
  exact ⟨_, next, .next .start genuine parses, peeking, still, received⟩

/-- Once a request has been taken, the loop goes on to take all that are left.

Induct on these. The last one is taken before its names must find room in the table. -/
theorem Reading.takes_all (rest : List CompleteRequest) {parsed : List CompleteRequest}
    {request : CompleteRequest} {worker : Worker}
    (reading : Reading requests parsed (parsed ++ [request]) worker)
    (split : requests = parsed ++ request :: rest) (phase : worker.phase = .parsing)
    (holding : Holding (request :: rest) worker)
    (fits : (requestStream requests).length ≤ poolCapacity)
    (few : ((requests.dropLast.flatMap (fun one => readHeaders one.headers)).map
      HeaderLine.name).toFinset.card ≤ 32) :
    ∃ trace final, Runs.Run step (Receives (requestStream requests)) worker trace final ∧
      piecesTaken final.calls = requests.map CompleteRequest.bytes := by
  induction rest generalizing parsed request worker with
  | nil => exact ⟨[], worker, .start, by rw [reading.taken, split]⟩
  | cons another others inductionHypothesis =>
    obtain ⟨tail, earlier⟩ : parsed ++ [request] <+: requests.dropLast := by
      rw [split, List.dropLast_append_of_ne_nil (by simp), List.dropLast_cons_cons]
      exact ⟨(another :: others).dropLast, by simp⟩
    have room : (((parsed ++ [request]).flatMap (fun one => readHeaders one.headers)).map
        HeaderLine.name).toFinset.card ≤ 32 := by
      refine (Finset.card_le_card (fun name member => ?_)).trans few
      rw [List.mem_toFinset] at member ⊢
      rw [← earlier, List.flatMap_append, List.map_append]
      exact List.mem_append_left _ member
    have further : requests = (parsed ++ [request]) ++ another :: others := by
      rw [split]
      simp
    obtain ⟨first, next, parses, peeking, still, _⟩ := reading.advance_parsed phase holding room
    obtain ⟨second, later, takes, parsing, removed, held, _⟩ := still.advance further peeking fits
    obtain ⟨third, final, goes, all⟩ := inductionHypothesis removed further parsing held
    exact ⟨_, final, (parses.append takes).append goes, all⟩

/-- From every place in the stream the run can go on until everything is taken. -/
theorem At.takes_all (place : At requests worker)
    (fits : (requestStream requests).length ≤ poolCapacity)
    (few : ((requests.dropLast.flatMap (fun one => readHeaders one.headers)).map
      HeaderLine.name).toFinset.card ≤ 32) :
    ∃ trace final, Runs.Run Worker.step (Receives (requestStream requests)) worker trace final ∧
      piecesTaken final.calls = requests.map CompleteRequest.bytes := by
  cases place with
  | peeking parsed rest split phase reading _ =>
    cases rest with
    | nil =>
      rw [List.append_nil] at split
      exact ⟨[], worker, .start, by rw [reading.taken, split]⟩
    | cons request rest =>
      obtain ⟨first, next, takes, parsing, removed, holding, _⟩ := reading.advance split phase fits
      obtain ⟨second, final, goes, all⟩ := removed.takes_all rest split parsing holding fits few
      exact ⟨_, final, takes.append goes, all⟩
  | discarding parsed request rest split phase reading holding =>
    obtain ⟨next, discards, available, parsing, removed, held, _⟩ :=
      reading.discard_step split phase holding
    obtain ⟨second, final, goes, all⟩ := removed.takes_all rest split parsing held fits few
    exact ⟨_, final, (Runs.Run.start.next available discards).append goes, all⟩
  | parsing parsed request rest split phase reading holding =>
    exact reading.takes_all rest split phase holding fits few
  | serving phase reading => exact ⟨[], worker, .start, reading.taken⟩
  | left phase removed framed => exact ⟨[], worker, .start, removed⟩

/-- A single request is served once it has been parsed and nothing more is waiting. -/
theorem At.reaches_serving (place : At [request] worker)
    (early : worker.phase.InLoop ∨ worker.phase = .serving)
    (fits : request.bytes.length ≤ poolCapacity)
    (few : ((readHeaders request.headers).map HeaderLine.name).toFinset.card ≤ 32) :
    ∃ trace next, Runs.Run Worker.step (Receives (requestStream [request])) worker trace next ∧
      next.phase = .serving ∧ Reading [request] [request] [request] next := by
  have inside : (requestStream [request]).length ≤ poolCapacity := by
    rwa [requestStream_cons, requestStream_nil, List.append_nil]
  have fromPeeking : ∀ middle, middle.phase = .peeking → Reading [request] [request] [request] middle →
      Filled middle.stringPool → ∃ trace next, Runs.Run Worker.step
        (Receives (requestStream [request])) middle trace next ∧ next.phase = .serving ∧
          Reading [request] [request] [request] next := by
    intro middle peeking reading filled
    obtain ⟨next, blocks, received, serving, served⟩ := reading.serve_next peeking filled
    exact ⟨_, next, .next .start received blocks, serving, served⟩
  have fromParsing : ∀ middle, middle.phase = .parsing → Reading [request] [] [request] middle →
      Holding [request] middle → ∃ trace next, Runs.Run Worker.step
        (Receives (requestStream [request])) middle trace next ∧ next.phase = .serving ∧
          Reading [request] [request] [request] next := by
    intro middle parsing reading holding
    have names : ((([] ++ [request]).flatMap
        (fun one : CompleteRequest => readHeaders one.headers)).map
          HeaderLine.name).toFinset.card ≤ 32 := by
      simpa using few
    obtain ⟨first, later, parses, peeking, read, filled⟩ :=
      Reading.advance_parsed reading parsing holding names
    obtain ⟨second, next, blocks, served⟩ := fromPeeking later peeking read filled
    exact ⟨_, next, parses.append blocks, served⟩
  cases place with
  | peeking parsed rest split phase reading filled =>
    rcases List.append_eq_singleton_iff.mp split.symm with ⟨rfl, rfl⟩ | ⟨rfl, rfl⟩
    · obtain ⟨first, middle, takes, parsing, removed, holding, _⟩ := reading.advance rfl phase inside
      obtain ⟨second, next, goes, served⟩ := fromParsing middle parsing removed holding
      exact ⟨_, next, takes.append goes, served⟩
    · exact fromPeeking worker phase reading (filled (by simp))
  | discarding parsed one rest split phase reading holding =>
    obtain ⟨rfl, rfl, rfl⟩ : parsed = [] ∧ request = one ∧ rest = [] := by
      cases parsed <;> simp_all
    obtain ⟨middle, discards, received, parsing, removed, held, _⟩ :=
      reading.discard_step rfl phase holding
    obtain ⟨second, next, goes, served⟩ := fromParsing middle parsing removed held
    exact ⟨_, next, (Runs.Run.start.next received discards).append goes, served⟩
  | parsing parsed one rest split phase reading holding =>
    obtain ⟨rfl, rfl, rfl⟩ : parsed = [] ∧ request = one ∧ rest = [] := by
      cases parsed <;> simp_all
    exact fromParsing worker phase reading holding
  | serving phase reading => exact ⟨[], worker, .start, phase, reading⟩
  | left phase _ _ =>
    rcases early with inLoop | serving
    · exact absurd inLoop phase.1
    · exact absurd serving phase.2

/-- A single request, from the first peek on. -/
theorem reaches_serving (request : CompleteRequest) (fits : request.bytes.length ≤ poolCapacity)
    (few : ((readHeaders request.headers).map HeaderLine.name).toFinset.card ≤ 32)
    (descriptor : Nat) (shared : Shared) :
    ∃ trace next, Runs.Run step (Delivers (requestStream [request])) (start descriptor shared) trace
        next ∧ next.phase = .serving ∧ Reading [request] [request] [request] next := by
  have place : At [request] (start descriptor shared) :=
    .peeking [] [request] rfl rfl (start_reading [request] descriptor shared) (by simp)
  obtain ⟨trace, next, run, serving, reading⟩ :=
    place.reaches_serving (Or.inl trivial) fits few
  exact ⟨trace, next, run.weaken (fun _ _ received => received.1), serving, reading⟩

end Streams

/-- A request for the root, without header lines. -/
def rootHead : CompleteRequest where
  method := .get
  name := ascii "GET"
  supported := get_tested
  url := ascii "/"
  urlClean := slash_clean
  headers := []

end Worker

end VHttp
