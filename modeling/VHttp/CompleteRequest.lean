import VHttp.RequestBuffer

/-!
# Complete requests

A complete request is a request line of a tested method, a url and HTTP/1.1 with single
spaces between them, and any number of header lines. Parsing it into any request, whatever
follows it in the buffer, inserts the header lines that are read into the table there, and
accepts the request line behind them. The parser works in the buffer and keeps its size.
-/

namespace VHttp.VHttpRequest

open VHashTable

/-- A request of a supported method. -/
structure CompleteRequest where
  method : VHttpMethod
  name : Bytes
  supported : (name, method) ∈ methodTests
  url : Bytes
  urlClean : url ≠ [] ∧ 32 ∉ url ∧ 13 ∉ url ∧ 10 ∉ url ∧ 0 ∉ url
  headers : List HeaderLine

theorem get_tested : (ascii "GET", VHttpMethod.get) ∈ methodTests := by decide

theorem slash_clean : ascii "/" ≠ [] ∧ 32 ∉ ascii "/" ∧ 13 ∉ ascii "/" ∧ 10 ∉ ascii "/" ∧
    0 ∉ ascii "/" := by decide

theorem letters_clean (count : Nat) : (97 : UInt8) :: List.replicate count 97 ≠ [] ∧
    (32 : UInt8) ∉ 97 :: List.replicate count 97 ∧ (13 : UInt8) ∉ 97 :: List.replicate count 97 ∧
    (10 : UInt8) ∉ 97 :: List.replicate count 97 ∧ (0 : UInt8) ∉ 97 :: List.replicate count 97 := by
  simp

/-- What is known of a tested name. -/
theorem methodTests_known : ∀ test ∈ methodTests, methodOf test.1 = test.2 ∧ test.2 ≠ .error ∧
    httpMethodsStr test.2 = some test.1 ∧ test.1 ≠ [] ∧ 32 ∉ test.1 ∧ 13 ∉ test.1 ∧
    0 ∉ test.1 := by
  decide

/-- A header line keeps the size of the memory. -/
theorem parseHeader_size {memory after : Memory} {table others : VHashTable Bytes}
    {line : VStringView} (parsed : parseHeader memory table line = some (some (after, others))) :
    after.length = memory.length := by
  simp only [parseHeader, Option.bind_eq_bind, Option.bind_eq_some_iff] at parsed
  obtain ⟨index, _, parsed⟩ := parsed
  split at parsed
  · simp at parsed
  · simp only [Option.bind_eq_some_iff, Prod.exists, Option.pure_def, Option.some.injEq,
      Prod.mk.injEq] at parsed
    obtain ⟨_, _, moved, value, trimmed, _, written, _, _, _, _, rfl, _⟩ := parsed
    simp only [trim, Option.bind_eq_bind, Option.bind_eq_some_iff, Option.pure_def,
      Option.some.injEq, Prod.mk.injEq] at trimmed
    obtain ⟨_, _, _, _, _, _, _, isMoved, rfl, _⟩ := trimmed
    rw [writeRange_length written, move_length isMoved]

/-- So does the header loop. -/
theorem parseHeaders_size {lines : List VStringView} {memory after : Memory}
    {table others : VHashTable Bytes} {finished : Bool}
    (parsed : parseHeaders lines memory table = some (finished, after, others)) :
    after.length = memory.length := by
  induction lines generalizing memory table with
  | nil =>
    simp only [parseHeaders, Option.some.injEq, Prod.mk.injEq] at parsed
    rw [parsed.2.1]
  | cons line rest inductionHypothesis =>
    simp only [parseHeaders, Option.bind_eq_bind, Option.bind_eq_some_iff] at parsed
    obtain ⟨one, header, parsed⟩ := parsed
    cases one with
    | none =>
      simp only [Option.some.injEq, Prod.mk.injEq] at parsed
      rw [parsed.2.1]
    | some entry =>
      obtain ⟨moved, filled⟩ := entry
      rw [inductionHypothesis parsed, parseHeader_size header]

/-- The request line is only read. -/
theorem parseRequestLine_memory {fresh : Nat → UInt8} {stack : Nat → VStringView}
    {memory : Memory} {request : VHttpRequest} {line : VStringView} {result : Parsed}
    (parsed : parseRequestLine fresh stack memory request line = some result) :
    result.memory = memory := by
  simp only [parseRequestLine, Option.bind_eq_bind, Option.bind_eq_some_iff, Option.pure_def]
    at parsed
  obtain ⟨split, _, parsed⟩ := parsed
  split at parsed
  · exact (Option.some.inj parsed) ▸ rfl
  · simp only [Option.bind_eq_some_iff] at parsed
    obtain ⟨method, _, parsed⟩ := parsed
    split at parsed
    · exact (Option.some.inj parsed) ▸ rfl
    · simp only [Option.bind_eq_some_iff] at parsed
      obtain ⟨_, _, _, _, _, _, _, _, parsed⟩ := parsed
      exact (Option.some.inj parsed) ▸ rfl

/-- Parsing keeps the size of the memory. -/
theorem parse_size {fresh : Nat → UInt8} {stack : Nat → VStringView} {memory : Memory}
    {rawRequest : VStringView} {request : VHttpRequest} {result : Parsed}
    (parsed : parse fresh stack memory rawRequest request = some result) :
    result.memory.length = memory.length := by
  simp only [parse, Option.bind_eq_bind, Option.bind_eq_some_iff, Prod.exists,
    Option.pure_def] at parsed
  obtain ⟨_, _, _, _, _, _, _, _, _, _, looped, parsed⟩ := parsed
  split at parsed
  · rw [parseRequestLine_memory parsed, parseHeaders_size looped]
  · rw [← Option.some.inj parsed, parseHeaders_size looped]

/-- Parsing keeps the url a valid string, whether the request is accepted or not. -/
theorem parse_url_valid {fresh : Nat → UInt8} {stack : Nat → VStringView} {memory : Memory}
    {rawRequest : VStringView} {request : VHttpRequest} {result : Parsed}
    (valid : request.url.Valid)
    (parsed : parse fresh stack memory rawRequest request = some result) :
    result.request.url.Valid := by
  simp only [parse, Option.bind_eq_bind, Option.bind_eq_some_iff, Prod.exists,
    Option.pure_def] at parsed
  obtain ⟨_, cut, isCut, _, _, _, _, _, _, _, _, parsed⟩ := parsed
  have uncut : cut.url = request.url := by
    simp only [cutHead, Option.bind_eq_bind, Option.bind_eq_some_iff, Option.pure_def,
      Option.some.injEq, Prod.mk.injEq] at isCut
    obtain ⟨_, _, _, _, _, rfl⟩ := isCut
    rfl
  rw [← uncut] at valid
  split at parsed
  · simp only [parseRequestLine, Option.bind_eq_bind, Option.bind_eq_some_iff, Option.pure_def]
      at parsed
    obtain ⟨_, _, parsed⟩ := parsed
    split at parsed
    · obtain rfl := Option.some.inj parsed
      exact valid
    · simp only [Option.bind_eq_some_iff] at parsed
      obtain ⟨method, _, parsed⟩ := parsed
      split at parsed
      · obtain rfl := Option.some.inj parsed
        exact valid
      · simp only [Option.bind_eq_some_iff] at parsed
        obtain ⟨_, _, _, _, url, decoded, _, _, parsed⟩ := parsed
        obtain rfl := Option.some.inj parsed
        exact decodeLoop_valid valid (Nat.zero_le _) decoded
  · obtain rfl := Option.some.inj parsed
    exact valid

namespace CompleteRequest

/-- The request line. -/
def line (request : CompleteRequest) : Bytes :=
  request.name ++ [32] ++ request.url ++ [32] ++ ascii "HTTP/1.1"

/-- The request as it is sent. -/
def bytes (request : CompleteRequest) : Bytes := requestBuffer request.line request.headers

variable (message : CompleteRequest)

theorem line_clean : 13 ∉ message.line ∧ 0 ∉ message.line ∧ message.line ≠ [] := by
  obtain ⟨_, _, _, _, _, noReturn, noNul⟩ := methodTests_known _ message.supported
  obtain ⟨_, _, urlReturn, _, urlNul⟩ := message.urlClean
  have version : (13 : UInt8) ∉ ascii "HTTP/1.1" ∧ (0 : UInt8) ∉ ascii "HTTP/1.1" := by decide
  refine ⟨?_, ?_, by simp [line]⟩
  · simp [line, noReturn, urlReturn, version.1]
  · simp [line, noNul, urlNul, version.2]

theorem bytes_positive : 0 < message.bytes.length := by
  simp [bytes, requestBuffer_eq, headEnd]

/-- The worker finds the end of a complete request. -/
theorem search_ends (before behind after : Bytes) :
    findSubstring (before ++ (message.bytes ++ behind) ++ after)
        ⟨before.length, (message.bytes ++ behind).length⟩ (ascii "\r\n\r\n") =
      some message.bytes.length :=
  search_requestBuffer before behind after message.line message.headers message.line_clean.1

/-- Parsing a complete request is the insertions of its header lines, then its request line. -/
theorem parse_into (before behind after : Bytes) (request : VHttpRequest) :
    ∃ left : Bytes, ∀ fresh stack,
      parse fresh stack (before ++ (message.bytes ++ behind) ++ after)
        ⟨before.length, (message.bytes ++ behind).length⟩ request =
      (insertAll request.headers ((readHeaders message.headers).map HeaderLine.entry)).bind
        (fun table => parseRequestLine fresh stack (before ++ message.line ++ 13 :: left)
          { request with length := message.bytes.length, headers := table }
          ⟨before.length, message.line.length⟩) := by
  obtain ⟨noReturn, _, nonempty⟩ := message.line_clean
  exact parse_line before behind after message.line message.headers noReturn nonempty request

/-- Once the header lines are in the table, the request line is accepted. -/
theorem parse_accepts (before behind after : Bytes) (fresh : Nat → UInt8)
    (stack : Nat → VStringView) {request : VHttpRequest} (strings : ValidStrings request)
    {table : VHashTable Bytes}
    (inserted : insertAll request.headers ((readHeaders message.headers).map HeaderLine.entry) =
      some table) :
    ∃ result view, parse fresh stack (before ++ (message.bytes ++ behind) ++ after)
        ⟨before.length, (message.bytes ++ behind).length⟩ request = some result ∧
      result.accepted = true ∧
      result.request.strMethod.content = copiedOver request.strMethod.length message.name ∧
      result.request.url.content = percentDecode message.url ++ request.url.content ∧
      ValidStrings result.request ∧
      result.request = { request with
        method := message.method
        strMethod := result.request.strMethod
        url := result.request.url
        headers := table
        length := message.bytes.length } ∧
      result.memory.length = (before ++ (message.bytes ++ behind) ++ after).length ∧
      result.decoded = some view ∧ view.bytes result.memory = some message.url := by
  obtain ⟨sameMethod, known, named, nonempty, noSpace, _⟩ := methodTests_known _ message.supported
  obtain ⟨urlNonempty, urlSpace, _⟩ := message.urlClean
  have kept : keptFields 3 message.line = [message.name, message.url, ascii "HTTP/1.1"] :=
    keptFields_three message.name message.url (ascii "HTTP/1.1") 0 0 ⟨nonempty, noSpace⟩
      ⟨urlNonempty, urlSpace⟩ (by decide)
  obtain ⟨left, parsed⟩ := message.parse_into before behind after request
  have cut := parsed fresh stack
  rw [inserted, Option.bind_some] at cut
  obtain ⟨result, view, name, returned, accepted, itsName, strMethod, url, valid, same, _, decoded,
      shown⟩ :=
    parseRequestLine_reused fresh before message.line left
      { request with length := message.bytes.length, headers := table }
      ⟨strings.strMethod, strings.url⟩ message.line_clean.2.1 kept (by rw [sameMethod]; exact known)
  rw [sameMethod, named, Option.some.injEq] at itsName
  rw [sameMethod] at same
  have whole := cut.trans (returned stack)
  refine ⟨result, view, whole, ?_, ?_, url, valid, same, parse_size whole, decoded, shown⟩
  · rw [accepted]
    decide
  · rw [strMethod, ← itsName]

end CompleteRequest

end VHttp.VHttpRequest
