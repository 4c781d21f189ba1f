import VHttp.Foundations.Paths
import VHttp.Replies

/-!
# Where the opened path lies

The path that is opened is the root and whatever the decoded url says, without a look at its
components. Resolved by its components alone, it lies at the root or below it exactly if the
url, read as a path from the root, does not leave it, or comes back to it by name; and a url
that begins with anything but a slash makes another name of the last one.
-/

namespace VHttp.Worker

open VHttpRequest Paths

/-- The move that a component of a path makes. -/
def componentMove (component : Bytes) : Move Bytes :=
  if component = [] ∨ component = ascii "." then .stay
  else if component = ascii ".." then .up
  else .down component

/-- The moves of a path, component by component. -/
def moves (path : Bytes) : List (Move Bytes) := (path.splitOn 47).map componentMove

/-- Where a path from the root of the file system leads. -/
def location (path : Bytes) : List Bytes := resolve [] (moves path)

/-- A path leads to `AppRoot`, or below it. -/
def Inside (path : Bytes) : Prop := location appRoot <+: location path

instance : DecidablePred Inside :=
  fun path => inferInstanceAs (Decidable (location appRoot <+: location path))

/-- What stands behind the root in a path stays below it: up to the first slash it is empty,
and what follows does not leave the root, or it comes back through the names of the root. -/
def Stays (tail : Bytes) : Prop :=
  let first := tail.takeWhile (fun byte => decide (byte ≠ 47))
  let rest := relative (moves (tail.dropWhile (fun byte => decide (byte ≠ 47))))
  (rest.ups = 0 ∧ first = []) ∨ (rest.ups = 1 ∧ [ascii "victor"] <+: rest.names) ∨
    (2 ≤ rest.ups ∧ [ascii "home", ascii "victor"] <+: rest.names)

instance : DecidablePred Stays := fun tail =>
  inferInstanceAs (Decidable (((relative (moves (tail.dropWhile _))).ups = 0 ∧ _) ∨ _))

theorem moves_slash {first : Bytes} (clean : 47 ∉ first) (rest : Bytes) :
    moves (first ++ 47 :: rest) = componentMove first :: moves rest := by
  rw [moves, List.splitOn_append_cons_self_of_not_mem clean, List.map_cons, moves]

theorem moves_name {name : Bytes} (clean : 47 ∉ name) : moves name = [componentMove name] := by
  rw [moves, List.splitOn_eq_singleton clean, List.map_singleton]

/-- The last name of the root is a name, whatever is put behind it. -/
theorem rootName_down (first : Bytes) :
    componentMove (ascii "victor" ++ first) = .down (ascii "victor" ++ first) := by
  have opens : ascii "victor" ++ first = 118 :: (ascii "ictor" ++ first) := by
    rw [← List.cons_append]
    rfl
  have dot : ascii "." = [46] := by decide
  have dots : ascii ".." = [46, 46] := by decide
  rw [componentMove, opens, dot, dots]
  simp

/-- What stands behind the root leads from the directory that its first bytes name. -/
theorem location_tail (tail : Bytes) :
    location (appRoot ++ tail) =
      (relative (moves (tail.dropWhile (fun byte => decide (byte ≠ 47))))).leads
        [ascii "home", ascii "victor" ++ tail.takeWhile (fun byte => decide (byte ≠ 47))] := by
  have whole : tail.takeWhile (fun byte => decide (byte ≠ 47)) ++
      tail.dropWhile (fun byte => decide (byte ≠ 47)) = tail := List.takeWhile_append_dropWhile
  have front : 47 ∉ tail.takeWhile (fun byte => decide (byte ≠ 47)) := by
    intro member
    simpa using List.mem_takeWhile_imp member
  have rest : tail.dropWhile (fun byte => decide (byte ≠ 47)) = [] ∨
      ∃ more, tail.dropWhile (fun byte => decide (byte ≠ 47)) = 47 :: more := by
    cases behind : tail.dropWhile (fun byte => decide (byte ≠ 47)) with
    | nil => exact Or.inl rfl
    | cons byte more =>
      have stops := List.head?_dropWhile_not (fun byte => decide (byte ≠ 47)) tail
      rw [behind] at stops
      refine Or.inr ⟨more, ?_⟩
      have slash : byte = 47 := by simpa using stops
      rw [slash]
  generalize tail.takeWhile (fun byte => decide (byte ≠ 47)) = first at whole front ⊢
  generalize tail.dropWhile (fun byte => decide (byte ≠ 47)) = behind at whole rest ⊢
  have clean : 47 ∉ ascii "victor" ++ first := by
    rw [List.mem_append, not_or]
    exact ⟨by decide, front⟩
  have parts : appRoot ++ tail =
      [] ++ 47 :: (ascii "home" ++ 47 :: (ascii "victor" ++ first ++ behind)) := by
    have root : appRoot = [] ++ 47 :: (ascii "home" ++ 47 :: ascii "victor") := by decide
    rw [root, ← whole]
    simp
  have noName : componentMove [] = .stay := by decide
  have home : componentMove (ascii "home") = .down (ascii "home") := by decide
  rw [location, parts, moves_slash (by simp), moves_slash (by decide), noName, home]
  rcases rest with rfl | ⟨more, rfl⟩
  · rw [List.append_nil, moves_name clean, rootName_down]
    rfl
  · have stays : moves (47 :: more) = .stay :: moves more :=
      (moves_slash (List.not_mem_nil) more).trans (by rw [noName])
    rw [moves_slash clean, rootName_down, stays]
    exact resolve_relative [ascii "home", ascii "victor" ++ first] (moves more)

/-- A path below the root. -/
theorem inside_iff (tail : Bytes) : Inside (appRoot ++ tail) ↔ Stays tail := by
  have root : location appRoot = [ascii "home", ascii "victor"] := by decide
  rw [Inside, root, location_tail, Stays]
  generalize tail.takeWhile (fun byte => decide (byte ≠ 47)) = first
  obtain ⟨ups, names⟩ := relative (moves (tail.dropWhile (fun byte => decide (byte ≠ 47))))
  match ups with
  | 0 =>
    simp only [Relative.leads, List.length_cons, List.length_nil, List.take_succ_cons,
      List.take_zero, Nat.sub_zero, List.cons_append, List.nil_append, List.cons_prefix_cons,
      true_and, List.nil_prefix, and_true]
    simp
  | 1 =>
    simp [Relative.leads]
  | more + 2 =>
    simp [Relative.leads]

/-- The url of a request that is accepted is what the decoder makes of the second field. -/
theorem parse_decodes {fresh : Nat → UInt8} {stack : Nat → VStringView} {memory : Memory}
    {view : VStringView} {request : VHttpRequest} {result : Parsed}
    (parsed : VHttpRequest.parse fresh stack memory view request = some result)
    (accepted : result.accepted = true) :
    ∃ field, result.decoded = some field ∧
      decodeUrl fresh result.memory field request.url = some result.request.url := by
  simp only [VHttpRequest.parse, cutHead, Option.bind_eq_bind, Option.bind_eq_some_iff, Prod.exists,
    Option.pure_def, Option.some.injEq, Prod.mk.injEq] at parsed
  obtain ⟨_, _, ⟨_, _, _, _, rfl, rfl⟩, _, _, _, _, _, _, _, _, parsed⟩ := parsed
  split at parsed
  · simp only [parseRequestLine, Option.bind_eq_bind, Option.bind_eq_some_iff,
      Option.pure_def] at parsed
    obtain ⟨_, _, parsed⟩ := parsed
    split at parsed
    · obtain rfl := Option.some.inj parsed
      exact absurd accepted (by simp)
    · simp only [Option.bind_eq_some_iff] at parsed
      obtain ⟨_, _, parsed⟩ := parsed
      split at parsed
      · obtain rfl := Option.some.inj parsed
        exact absurd accepted (by simp)
      · simp only [Option.bind_eq_some_iff] at parsed
        obtain ⟨_, _, _, _, url, decoded, _, _, parsed⟩ := parsed
        obtain rfl := Option.some.inj parsed
        exact ⟨_, rfl, decoded⟩
  · obtain rfl := Option.some.inj parsed
    exact absurd accepted (by simp)

/-- The first call of an answer opens the path. -/
theorem serve_opens {worker after : Worker} {fresh : Nat → UInt8} {beyond : Bytes}
    {opening : Opening} {reading : Option Nat} (phase : worker.phase = .serving)
    (stepped : worker.step (.serve fresh beyond opening reading) = some after) :
    ∃ path more, filePath fresh worker.request.url = some path ∧
      after.calls = worker.calls ++ .opened (readPath path beyond) opening :: more := by
  unfold Worker.step at stepped
  rw [phase] at stepped
  obtain ⟨path, built, responseLen, made, _, _, sent⟩ := serve_cases stepped
  obtain ⟨later, same, _⟩ := (sendOn_quiet sent).calls
  refine ⟨path, .responded (built.responseMalloced.take responseLen) built.file :: later, made, ?_⟩
  rw [same]
  simp

/-- The results of the calls other than the parser. -/
def BetweenParses (_ : Worker) (answer : Answer) : Prop := ∀ result, answer ≠ .parse result

section SameRequest

variable {worker after : Worker}

/-- What a reply, a refusal and the loop's end leave alone is the request. -/
theorem refuse_request (refused : worker.refuse = some after) :
    after.request = worker.request := by
  simp only [refuse, Option.bind_eq_bind, Option.bind_eq_some_iff, Option.pure_def,
    Option.some.injEq] at refused
  obtain ⟨_, _, rfl⟩ := refused
  rfl

theorem receiveFailed_request {errno : Errno} (failed : worker.receiveFailed errno = some after) :
    after.request = worker.request := by
  cases errno with
  | again =>
    rcases leaveLoop_cases failed with ⟨_, rfl⟩ | ⟨_, _, _, rfl⟩
    · rfl
    · rfl
  | dead | other =>
    obtain rfl := Option.some.inj failed
    rfl

theorem search_request {behind : Bytes} (searched : worker.search behind = some after) :
    after.request = worker.request := by
  rcases search_cases searched with ⟨_, _, _, rfl⟩ | rfl | refused
  · rfl
  · rfl
  · have same := refuse_request refused
    exact same

theorem peek_request {result : Received} {behind : Bytes}
    (peeked : worker.peek result behind = some after) : after.request = worker.request := by
  match result with
  | .failed errno =>
    have same := receiveFailed_request peeked
    exact same
  | .data [] =>
    obtain rfl := Option.some.inj peeked
    rfl
  | .data (byte :: bytes) =>
    simp only [peek, Option.bind_eq_bind, Option.bind_eq_some_iff] at peeked
    obtain ⟨_, _, _, _, searched⟩ := peeked
    have same := search_request searched
    exact same

theorem discard_request {requestSize : Nat} {result : Received}
    (discarded : worker.discard requestSize result = some after) :
    after.request = worker.request := by
  cases result with
  | failed errno =>
    have same := receiveFailed_request discarded
    exact same
  | data bytes =>
    simp only [discard, Option.bind_eq_bind, Option.bind_eq_some_iff, Option.pure_def,
      Option.some.injEq] at discarded
    obtain ⟨_, _, rfl⟩ := discarded
    rfl

/-- The parser has returned to a worker that has called it. -/
theorem step_parse {result : Parsed} (stepped : worker.step (.parse result) = some after) :
    worker.phase = .parsing ∧ worker.parse result = some after := by
  unfold Worker.step at stepped
  cases inside : worker.phase with
  | parsing =>
    rw [inside] at stepped
    exact ⟨rfl, stepped⟩
  | _ =>
    rw [inside] at stepped
    cases stepped

/-- What the parser makes of the request is the request from then on. -/
theorem step_parse_request {result : Parsed} (stepped : worker.step (.parse result) = some after) :
    after.request = result.request := by
  have parses := (step_parse stepped).2
  simp only [Worker.parse, Option.bind_eq_bind, Option.bind_eq_some_iff] at parses
  obtain ⟨_, _, parses⟩ := parses
  split at parses
  · split at parses
    · obtain rfl := Option.some.inj parses
      rfl
    · obtain rfl := Option.some.inj parses
      rfl
  · have same := refuse_request parses
    exact same

/-- Only a call of the receive loop leads to another one, or to the answer. -/
theorem step_inLoop {answer : Answer} (stepped : worker.step answer = some after)
    (reaches : after.phase.InLoop ∨ after.phase = .serving) : worker.phase.InLoop := by
  by_contra outside
  obtain ⟨inLoop, serving⟩ := (answer_quiet outside stepped).beyond
  exact absurd reaches (not_or.mpr ⟨inLoop, serving⟩)

/-- A call of the receive loop other than the parser keeps the url, and so does every call
that leads to the answer.

Only the phases of the loop lead to the answer, and there is one call for each of them. -/
theorem step_url {answer : Answer} (between : BetweenParses worker answer)
    (stepped : worker.step answer = some after)
    (reaches : after.phase.InLoop ∨ after.phase = .serving) :
    after.request.url = worker.request.url := by
  cases inside : worker.phase with
  | peeking =>
    obtain ⟨result, behind, rfl, peeked⟩ := step_peeking inside stepped
    rw [peek_request peeked]
  | discarding size =>
    obtain ⟨result, rfl, discarded⟩ := step_discarding inside stepped
    rw [discard_request discarded]
  | parsing =>
    obtain ⟨result, rfl, _⟩ := step_parsing inside stepped
    exact absurd rfl (between result)
  | receivingBody =>
    unfold Worker.step at stepped
    rw [inside] at stepped
    cases answer with
    | body fresh result =>
      obtain rfl := Option.some.inj stepped
      rfl
    | _ => cases stepped
  | _ =>
    have inLoop := step_inLoop stepped reaches
    rw [inside] at inLoop
    exact absurd inLoop id

/-- The url of a call stays a valid string until it is served. -/
theorem step_url_valid {answer : Answer} (valid : worker.request.url.Valid)
    (parsed : ∀ result, answer = .parse result → result.request.url.Valid)
    (stepped : worker.step answer = some after)
    (reaches : after.phase.InLoop ∨ after.phase = .serving) : after.request.url.Valid := by
  by_cases parses : ∃ result, answer = .parse result
  · obtain ⟨result, rfl⟩ := parses
    rw [step_parse_request stepped]
    exact parsed result rfl
  · have between : BetweenParses worker answer := fun result same => parses ⟨result, same⟩
    rw [step_url between stepped reaches]
    exact valid

/-- Up to the next parse the url is the one of the last.

Induct on the run: a worker that has left for an answer is still outside the loop. -/
theorem run_url {trace : List Answer} (run : Runs.Run step BetweenParses worker trace after)
    (phase : after.phase = .serving) : after.request.url = worker.request.url := by
  have since : (after.phase.InLoop ∨ after.phase = .serving) →
      after.request.url = worker.request.url := by
    refine run.invariant (fun reached => (reached.phase.InLoop ∨ reached.phase = .serving) →
      reached.request.url = worker.request.url) (fun _ => rfl) ?_
    intro before answer reached earlier between stepped reaches
    have came := step_inLoop stepped reaches
    exact (step_url between stepped reaches).trans (earlier (Or.inl came))
  exact since (Or.inr phase)

end SameRequest

/-- For every request that the parser accepts in the string pool of a worker, whatever it was
parsed into: when the worker serves it, it opens the root followed by the decoded url, up to the
first NUL of these and of what lies behind them, and this path lies at the root or below it
exactly if what follows the root stays.

The components behind the root amount to some levels up and some names down, which is compared
with the two names of the root. -/
theorem opened_path_inside_iff {worker middle before after : Worker} {fresh : Nat → UInt8}
    {stack : Nat → VStringView} {result : Parsed}
    (parsed : VHttpRequest.parse fresh stack worker.stringPool.block
      ⟨0, worker.stringPool.length⟩ worker.request = some result)
    (accepted : result.accepted = true) (first : worker.step (.parse result) = some middle)
    {trace : List Answer} (run : Runs.Run step BetweenParses middle trace before)
    (phase : before.phase = .serving) {heap : Nat → UInt8} {beyond : Bytes} {opening : Opening}
    {reading : Option Nat} (stepped : before.step (.serve heap beyond opening reading) = some after) :
    ∃ field url path behind more, result.decoded = some field ∧
      decodeUrl fresh result.memory field worker.request.url = some url ∧
      after.calls = before.calls ++ .opened path opening :: more ∧
      path = appRoot ++ (CString.read (url.content ++ behind)).1 ∧
      (Inside path ↔ Stays (CString.read (url.content ++ behind)).1) := by
  obtain ⟨field, decoded, isUrl⟩ := parse_decodes parsed accepted
  obtain ⟨path, more, made, calls⟩ := serve_opens phase stepped
  obtain ⟨behind, _, read⟩ := readPath_content made beyond
  rw [run_url run phase, step_parse_request first] at read
  exact ⟨field, _, _, behind, more, decoded, isUrl, calls, read, read ▸ inside_iff _⟩

/-- A request on its own is parsed, and the next peek leads to the answer. -/
theorem parses_and_serves (request : CompleteRequest) (fits : request.bytes.length ≤ poolCapacity)
    (few : ((readHeaders request.headers).map HeaderLine.name).toFinset.card ≤ 32)
    (descriptor : Nat) (shared : Shared) :
    ∃ trace worker result middle before, ∃ more : List Answer,
      Runs.Run step (Delivers (requestStream [request])) (start descriptor shared) trace worker ∧
      VHttpRequest.parse (fun _ => 0) (fun _ => ⟨0, 0⟩) worker.stringPool.block
        ⟨0, worker.stringPool.length⟩ worker.request = some result ∧
      result.accepted = true ∧ worker.step (.parse result) = some middle ∧
      Runs.Run step BetweenParses middle more before ∧ before.phase = .serving ∧
      Runs.Run step (Delivers (requestStream [request])) (start descriptor shared)
        (trace ++ [.parse result] ++ more) before ∧
      Reading [request] [request] [request] before := by
  have inside : (requestStream [request]).length ≤ poolCapacity := by
    rwa [requestStream_cons, requestStream_nil, List.append_nil]
  have names : ((([] ++ [request]).flatMap
      (fun one : CompleteRequest => readHeaders one.headers)).map
        HeaderLine.name).toFinset.card ≤ 32 := by
    simpa using few
  obtain ⟨trace, worker, takes, phase, taken, holding, _⟩ :=
    (start_reading [request] descriptor shared).advance rfl rfl inside
  obtain ⟨table, inserted⟩ := taken.room names
  obtain ⟨result, middle, parsed, parses, peeking, reading, filled⟩ :=
    taken.parse holding inserted (fun _ => 0) (fun _ => ⟨0, 0⟩)
  obtain ⟨before, blocks, received, serving, served⟩ := reading.serve_next peeking filled
  have accepted : result.accepted = true := by
    by_contra refused
    simp only [Worker.parse, Option.bind_eq_bind, Option.bind_eq_some_iff] at parses
    obtain ⟨_, _, parses⟩ := parses
    rw [if_neg refused] at parses
    have refusing := (refuse_cases parses).1
    rw [peeking] at refusing
    cases refusing
  have stepped : worker.step (.parse result) = some middle := by
    unfold Worker.step
    rw [phase]
    exact parses
  have genuine : Delivers (requestStream [request]) worker (.parse result) := by
    simp only [Delivers, phase]
    exact ⟨_, _, parsed⟩
  have between : BetweenParses middle (.peek (.failed .again) []) := by
    intro result same
    cases same
  have reached := takes.weaken (fun _ _ received => received.1)
  exact ⟨trace, worker, result, middle, before, [.peek (.failed .again) []], reached, parsed,
    accepted, stepped, .next .start between blocks, serving,
    (reached.next genuine stepped).next received.1 blocks, served⟩

/-- The answer to a request whose url decodes to a short text without a NUL opens the root
followed by that text. -/
theorem opens_decoded {request : CompleteRequest} {before : Worker} (ready : Ready before)
    (serving : before.phase = .serving) (reading : Reading [request] [request] [request] before)
    (clean : 0 ∉ percentDecode request.url)
    (short : appRoot.length + (percentDecode request.url).length < VString.initTextSize) :
    ∃ after more, before.step (.serve (fun _ => 0) [] .failed none) = some after ∧
      after.calls = before.calls ++
        .opened (appRoot ++ percentDecode request.url) .failed :: more := by
  have url : before.request.url.content = percentDecode request.url := by
    rw [reading.url]
    simp
  have length : before.request.url.length = (percentDecode request.url).length := by
    rw [← reading.strings.url.content_length, url]
  have small : VString.initTextSize < 2 ^ 31 := by decide
  obtain ⟨after, _, served, _⟩ :=
    ready.serves_missing serving reading.strings.url (by rw [length]; omega)
  obtain ⟨path, more, made, calls⟩ := serve_opens serving served
  rw [readPath_short made (by decide) (url ▸ clean) (length ▸ short), url] at calls
  exact ⟨after, more, served, calls⟩

/-- A request for the root opens the root. -/
theorem opened_path_inside_iff_root : ∃ trace before after,
    Runs.Run step (Delivers (requestStream [rootHead])) (start 5 Shared.start) trace before ∧
      before.step (.serve (fun _ => 0) [] .failed none) = some after ∧
      .opened (ascii "/home/victor/") .failed ∈ after.calls ∧ Inside (ascii "/home/victor/") := by
  obtain ⟨_, _, _, _, before, _, _, parsed, accepted, first, run, serving, reached, reading⟩ :=
    parses_and_serves rootHead (by decide) (by decide) 5 Shared.start
  obtain ⟨after, more, served, calls⟩ := opens_decoded (run_ready Shared.start_sound reached)
    serving reading (by decide) (by decide)
  have root : percentDecode rootHead.url = ascii "/" := by decide
  have whole : appRoot ++ ascii "/" = ascii "/home/victor/" := by decide
  rw [root] at calls
  obtain ⟨_, _, path, behind, _, _, _, also, read, inside⟩ :=
    opened_path_inside_iff parsed accepted first run serving served
  have both := List.append_cancel_left (also.symm.trans calls)
  simp only [List.cons.injEq, Call.opened.injEq] at both
  have tail := List.append_cancel_left (read.symm.trans both.1.1)
  rw [both.1.1, tail, whole] at inside
  refine ⟨_, before, after, reached, served, ?_, inside.mpr (by decide +kernel)⟩
  rw [calls, whole]
  simp

/-- A request for a file two levels above the root. -/
def parentHead : CompleteRequest :=
  { rootHead with
    url := ascii "/../../etc/passwd"
    urlClean := by decide }

/-- Two parents lead from the root of the server to that of the file system. -/
theorem parent_is_opened : ∃ trace worker result middle before after, ∃ more : List Answer,
    Runs.Run step (Delivers (requestStream [parentHead])) (start 5 Shared.start) trace worker ∧
      VHttpRequest.parse (fun _ => 0) (fun _ => ⟨0, 0⟩) worker.stringPool.block
        ⟨0, worker.stringPool.length⟩ worker.request = some result ∧
      result.accepted = true ∧ worker.step (.parse result) = some middle ∧
      Runs.Run step BetweenParses middle more before ∧
      before.step (.serve (fun _ => 0) [] .failed none) = some after ∧
      .opened (ascii "/home/victor/../../etc/passwd") .failed ∈ after.calls ∧
      location (ascii "/home/victor/../../etc/passwd") = [ascii "etc", ascii "passwd"] ∧
      ¬ Inside (ascii "/home/victor/../../etc/passwd") := by
  obtain ⟨trace, worker, result, middle, before, more, took, parsed, accepted, first, run, serving,
    reached, reading⟩ := parses_and_serves parentHead (by decide) (by decide) 5 Shared.start
  obtain ⟨after, later, served, calls⟩ := opens_decoded (run_ready Shared.start_sound reached)
    serving reading (by decide +kernel) (by decide +kernel)
  have path : appRoot ++ percentDecode parentHead.url = ascii "/home/victor/../../etc/passwd" := by
    decide +kernel
  refine ⟨trace, worker, result, middle, before, after, more, took, parsed, accepted, first, run,
    served, ?_, by decide +kernel, by decide +kernel⟩
  rw [calls, path]
  simp

end VHttp.Worker
