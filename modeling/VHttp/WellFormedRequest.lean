import VHttp.HashTableTermination
import VHttp.Parsing

/-!
# Well-formed requests

A well-formed request is a request line of a tested method, a url and HTTP/1.1 with
single spaces between them, and up to 63 header lines with up to 32 distinct names. The
parser accepts every such request of less than 2^31 bytes in a buffer of its own: it finds
the method and the length, decodes exactly the url, and leaves in the table, for every name,
the trimmed value of the last line with that name. A url of 2^31 bytes takes the int that
counts it over the end of the ints.
-/

namespace VHttp.VHttpRequest

open VHashTable

/-- A request of a supported method. -/
structure WellFormedRequest where
  method : VHttpMethod
  name : Bytes
  supported : (name, method) ∈ methodTests
  url : Bytes
  urlClean : url ≠ [] ∧ 32 ∉ url ∧ 13 ∉ url ∧ 10 ∉ url ∧ 0 ∉ url
  headers : List HeaderLine
  few : headers.length ≤ 63
  names : (headers.map HeaderLine.name).toFinset.card ≤ 32

namespace WellFormedRequest

/-- The request line. -/
def line (request : WellFormedRequest) : Bytes :=
  request.name ++ [32] ++ request.url ++ [32] ++ ascii "HTTP/1.1"

/-- The request as it is sent. -/
def bytes (request : WellFormedRequest) : Bytes := requestBuffer request.line request.headers

end WellFormedRequest

/-- A table that holds exactly the names of header lines, each once and with the trimmed
value, as a C string, of its last line. -/
structure HoldsHeaders (table : VHashTable Bytes) (headers : List HeaderLine) : Prop where
  found : ∀ earlier header later, headers = earlier ++ header :: later →
    header.name ∉ later.map HeaderLine.name →
    get table header.name = some (some (header.trimmed ++ [0]))
  stored : ∀ key value, Stored table.items key value ↔
    ∃ earlier header later, headers = earlier ++ header :: later ∧ header.name = key ∧
      key ∉ later.map HeaderLine.name ∧ value = header.trimmed ++ [0]
  once : ∀ index other key, Holds table.items index key → Holds table.items other key →
    index = other

/-- A name that occurs has a last line. -/
theorem last_line (headers : List HeaderLine) (key : CString)
    (present : key ∈ headers.map HeaderLine.name) :
    ∃ earlier header later, headers = earlier ++ header :: later ∧ header.name = key ∧
      key ∉ later.map HeaderLine.name := by
  induction headers with
  | nil => simp at present
  | cons header others inductionHypothesis =>
    by_cases again : key ∈ others.map HeaderLine.name
    · obtain ⟨earlier, last, later, rfl, named, absent⟩ := inductionHypothesis again
      exact ⟨header :: earlier, last, later, rfl, named, absent⟩
    · rcases List.mem_cons.mp present with same | later
      · exact ⟨[], header, others, rfl, same.symm, again⟩
      · exact absurd later again

/-- Inserting header lines one after another into a new table leaves exactly these. -/
theorem insertAll_holds (headers : List HeaderLine) (table : VHashTable Bytes)
    (returned : insertAll (VHashTable.init 0) (headers.map HeaderLine.entry) = some table) :
    HoldsHeaders table headers := by
  have represents := insertAll_represents _ (VHashTable.init_represents 0) returned
  have keys : ∀ lines : List HeaderLine,
      (lines.map HeaderLine.entry).map Prod.fst = lines.map HeaderLine.name := by
    intro lines
    rw [List.map_map]
    rfl
  have last : ∀ earlier header later, headers = earlier ++ header :: later →
      header.name ∉ later.map HeaderLine.name →
      assign (fun _ => none) (headers.map HeaderLine.entry) header.name =
        some (header.trimmed ++ [0]) := by
    rintro earlier header later rfl absent
    rw [List.map_append, List.map_cons]
    exact assign_last _ _ _ _ _ (by rwa [keys])
  refine ⟨?_, ?_, represents.1.unique⟩
  · intro earlier header later split absent
    exact get_present represents (last earlier header later split absent)
  · intro key value
    rw [represents.2 key value]
    constructor
    · intro assigned
      have present : key ∈ headers.map HeaderLine.name := by
        by_contra absent
        rw [assign_absent _ _ _ (by rwa [keys])] at assigned
        simp at assigned
      obtain ⟨earlier, header, later, split, named, absent⟩ := last_line headers key present
      subst named
      rw [last earlier header later split absent, Option.some.injEq] at assigned
      exact ⟨earlier, header, later, split, rfl, absent, assigned.symm⟩
    · rintro ⟨earlier, header, later, split, rfl, absent, rfl⟩
      exact last earlier header later split absent

/-- A well-formed request, without its bounds. -/
def WellFormedRequest.complete (request : WellFormedRequest) : CompleteRequest :=
  ⟨request.method, request.name, request.supported, request.url, request.urlClean, request.headers⟩

/-- All header lines of a well-formed request are read. -/
theorem WellFormedRequest.few_read (request : WellFormedRequest) :
    readHeaders request.headers = request.headers := by
  have few := request.few
  rw [readHeaders, if_pos (by omega), List.take_length]

/-- Counted in naturals, every well-formed request is accepted.

The header lines are inserted first and leave the request line as it is. It has three
fields, the first one a tested name and the last one the version. -/
theorem WellFormedRequest.parsed (request : WellFormedRequest) (before after : Bytes)
    (fresh : Nat → UInt8) (stack : Nat → VStringView) :
    ∃ result view, parse fresh stack (before ++ request.bytes ++ after)
        ⟨before.length, request.bytes.length⟩ VHttpRequest.init = some result ∧
      result.accepted = true ∧ result.request.method = request.method ∧
      result.request.strMethod.content = request.name ∧
      result.decoded = some view ∧ view.bytes result.memory = some request.url ∧
      result.request.length = request.bytes.length ∧
      HoldsHeaders result.request.headers request.headers := by
  obtain ⟨table, inserted⟩ := (insertAll_returns_iff (request.headers.map HeaderLine.entry)).mpr
    (by rw [List.map_map]; exact request.names)
  have read : insertAll VHttpRequest.init.headers
      ((readHeaders request.complete.headers).map HeaderLine.entry) = some table := by
    rw [show request.complete.headers = request.headers from rfl, request.few_read]
    exact inserted
  obtain ⟨result, view, returned, accepted, strMethod, _, _, same, _, decoded, shown⟩ :=
    request.complete.parse_accepts before [] after fresh stack init_fresh.valid read
  rw [List.append_nil] at returned
  refine ⟨result, view, returned, accepted, by rw [same]; rfl, ?_, decoded, shown,
    by rw [same]; rfl, ?_⟩
  · rw [strMethod, init_fresh.strMethod.2, copiedOver, List.replicate_zero, List.nil_append,
      List.take_length]
    rfl
  · rw [same]
    exact insertAll_holds request.headers table inserted

/-- The url is shorter than the request. -/
theorem WellFormedRequest.url_shorter (request : WellFormedRequest) :
    request.url.length + 2 ≤ request.bytes.length := by
  simp only [WellFormedRequest.bytes, requestBuffer, WellFormedRequest.line, List.length_append,
    List.length_singleton]
  omega

/-- Every well-formed request shorter than 2^31 bytes is accepted, in any memory around its
buffer: the method, the url, the length and the header lines are those of the request.

No counter comes to the end of its width, so that the parser does what it does counted in
naturals. -/
theorem well_formed_requests_are_parsed (request : WellFormedRequest)
    (short : request.bytes.length < 2 ^ 31) (before after : Bytes) (fresh : Nat → UInt8)
    (stack : Nat → VStringView) :
    ∃ result view, Parsing.parse fresh stack (before ++ request.bytes ++ after)
        ⟨before.length, request.bytes.length⟩ VHttpRequest.init = some result ∧
      result.accepted = true ∧ result.request.method = request.method ∧
      result.request.strMethod.content = request.name ∧
      result.decoded = some view ∧ view.bytes result.memory = some request.url ∧
      result.request.length = request.bytes.length ∧
      HoldsHeaders result.request.headers request.headers := by
  obtain ⟨result, view, parsed, accepted, method, strMethod, decoded, shown, length, headers⟩ :=
    request.parsed before after fresh stack
  refine ⟨result, view, Parsing.parse_ints ?_ short parsed ?_, accepted, method, strMethod, decoded,
    shown, length, headers⟩
  · simp only [List.length_append]
    omega
  · intro other handed
    rw [decoded, Option.some.injEq] at handed
    have size := VStringView.shows shown
    have bound := request.url_shorter
    rw [handed] at size
    omega

/-- A header line with white space around its value. -/
def hostLine : HeaderLine where
  key := ascii "Host"
  value := ascii " a "
  named := by decide
  keyClean := by decide
  valueClean := by decide
  printed := by decide

/-- A request with one header line. -/
def hostRequest : WellFormedRequest where
  method := .get
  name := ascii "GET"
  supported := by decide
  url := ascii "/"
  urlClean := by decide
  headers := [hostLine]
  few := by decide
  names := by decide

/-- The request with one header line, its terminated value in the table. -/
theorem well_formed_requests_are_parsed_host :
    ∃ result, Parsing.parse (fun _ => 0) (fun _ => ⟨0, 0⟩) hostRequest.bytes
        ⟨0, hostRequest.bytes.length⟩ VHttpRequest.init = some result ∧
      result.accepted = true ∧
      get result.request.headers hostLine.name = some (some (ascii "a\x00")) := by
  obtain ⟨result, view, parsed, accepted, _, _, _, _, _, headers⟩ :=
    well_formed_requests_are_parsed hostRequest (by decide) [] [] (fun _ => 0) (fun _ => ⟨0, 0⟩)
  rw [List.nil_append, List.append_nil] at parsed
  have found := headers.found [] hostLine [] rfl (by simp)
  have trimmed : hostLine.trimmed ++ [0] = ascii "a\x00" := by decide
  rw [trimmed] at found
  exact ⟨result, parsed, accepted, found⟩

/-- A request for a url of letters. -/
def lettersRequest (count : Nat) : WellFormedRequest where
  method := .get
  name := ascii "GET"
  supported := by decide
  url := 97 :: List.replicate count 97
  urlClean := letters_clean count
  headers := []
  few := by decide
  names := by decide

/-- With a url of more than 2^31 letters the decoder counts past the end of the ints. -/
theorem endless_url_is_not_parsed : ¬ ∀ (request : WellFormedRequest) (before after : Bytes)
    (fresh : Nat → UInt8) (stack : Nat → VStringView),
    ∃ result view, Parsing.parse fresh stack (before ++ request.bytes ++ after)
        ⟨before.length, request.bytes.length⟩ VHttpRequest.init = some result ∧
      result.accepted = true ∧ result.request.method = request.method ∧
      result.request.strMethod.content = request.name ∧
      result.decoded = some view ∧ view.bytes result.memory = some request.url ∧
      result.request.length = request.bytes.length ∧
      HoldsHeaders result.request.headers request.headers := by
  intro always
  obtain ⟨result, view, parsed, _, _, _, decoded, shown, _⟩ :=
    always (lettersRequest (2 ^ 31)) [] [] (fun _ => 0) (fun _ => ⟨0, 0⟩)
  have int := Parsing.parse_url_short parsed decoded
  have size := VStringView.shows shown
  have letters : (lettersRequest (2 ^ 31)).url.length = 2 ^ 31 + 1 := by
    rw [lettersRequest, List.length_cons, List.length_replicate]
  omega

end VHttp.VHttpRequest
