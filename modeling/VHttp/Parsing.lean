import VHttp.CompleteRequest
import VHttp.DecoderIndex
import VHttp.SplitBounds
import VHttp.Trimming

/-!
# The parser at its widths

`VHttpRequest_Parse` with every variable at its width: a split, a trim and the decoder are those
whose counters are u32, s32 and int, `Idx` is an int that is compared with a u64, and lengths are
64 bits wide. An int that overflows has no result. The comparisons of the method and the version
have no counters of their own.

The parser that counts in naturals does the same for a request shorter than 2^31 bytes. Only a
url that the split has not filled can be longer than the request; the decoder then comes to
the end of the ints where the one that counts in naturals goes on.
-/

namespace VHttp.Parsing

open VHttpRequest

/-- `VString_SplitBySubstring` on a string in memory: the entries stored, as many as the count
returned. The separator is looked for in the whole string. -/
def splitBySubstring (memory : Memory) (string : VStringView) (substring : Bytes) (size : UInt32) :
    Option (List VStringView) := do
  let content ← string.bytes memory
  pure ((Splitting.splitBySubstring content substring size).2.map
    (fun store => string.fromRange store.offset store.length))

/-- The loop of `VString_FindFirstCharOccurence`, over the bytes left to read. -/
def findFirstLoop (memory : Memory) (string : VStringView) (char : UInt8) : Nat → Nat → Option Int
  | 0, index => do
    guard (index < 2 ^ 31)
    some (-1)
  | remaining + 1, index => do
    guard (index < 2 ^ 31)
    let byte ← memory[string.data + index]?
    if byte = char then some index else findFirstLoop memory string char remaining (index + 1)

/-- `VString_FindFirstCharOccurence`: an index, or -1. -/
def findFirstCharOccurence (memory : Memory) (string : VStringView) (char : UInt8) : Option Int :=
  findFirstLoop memory string char string.length 0

/-- The first lines of `VHttpRequest_Parse`. -/
def cutHead (memory : Memory) (rawRequest : VStringView) (request : VHttpRequest) :
    Option (VStringView × VHttpRequest) := do
  let split ← splitBySubstring memory rawRequest (ascii "\r\n\r\n") 2
  let requestHead ← split[0]?
  pure (requestHead, { request with length := (requestHead.length + 4) % 2 ^ 64 })

/-- One round of the header loop; the inner result is missing where the parser returns false. -/
def parseHeader (memory : Memory) (headers : VHashTable Bytes) (line : VStringView) :
    Option (Option (Memory × VHashTable Bytes)) := do
  let index ← findFirstCharOccurence memory line 58
  guard (index + 1 < 2 ^ 31)
  let key := line.fromRange 0 (indexToU64 index)
  let value := line.fromRange (index + 1).toNat ((line.length - index) % 2 ^ 64).toNat
  if key.length = 0 ∨ value.length = 0 then pure none
  else
    let cKey ← key.bytes memory
    let (memory, value) ← Trimming.trim memory value
    let memory ← memory.writeRange (value.data + value.length) [0]
    let bytes ← memory.readRange value.data (value.length + 1)
    let headers ← headers.insert (CString.read (cKey ++ [0])) bytes
    pure (some (memory, headers))

/-- The header loop of `VHttpRequest_Parse`, with whether it runs to its end. -/
def parseHeaders : List VStringView → Memory → VHashTable Bytes →
    Option (Bool × Memory × VHashTable Bytes)
  | [], memory, headers => some (true, memory, headers)
  | line :: rest, memory, headers => do
    match ← parseHeader memory headers line with
    | none => some (false, memory, headers)
    | some (memory, headers) => parseHeaders rest memory headers

/-- The part of `VHttpRequest_Parse` behind the header loop. -/
def parseRequestLine (fresh : Nat → UInt8) (stack : Nat → VStringView) (memory : Memory)
    (request : VHttpRequest) (line : VStringView) : Option Parsed := do
  let split ← splitBySubstring memory line (ascii " ") 3
  if split.length > 3 then pure ⟨false, request, memory, none⟩
  else
    let entry (index : Nat) := split[index]?.getD (stack index)
    let method ← getMethodFromString memory (entry 0)
    let request := { request with method := method }
    if method = .error then pure ⟨false, request, memory, none⟩
    else
      let name ← httpMethodsStr method
      let strMethod ← request.strMethod.copyCString fresh name
      let url ← Decoding.decodeUrl fresh memory (entry 1) request.url
      let same ← strncmpEqual memory (entry 2).data (ascii "HTTP/1.1") (entry 2).length
      pure ⟨same, { request with strMethod := strMethod, url := url }, memory, some (entry 1)⟩

/-- `VHttpRequest_Parse`. A split always stores at least one line. -/
def parse (fresh : Nat → UInt8) (stack : Nat → VStringView) (memory : Memory)
    (rawRequest : VStringView) (request : VHttpRequest) : Option Parsed := do
  let (requestHead, request) ← cutHead memory rawRequest request
  let requestLines ← splitBySubstring memory requestHead (ascii "\r\n") 64
  let line ← requestLines[0]?
  let (finished, memory, headers) ← parseHeaders requestLines.tail memory request.headers
  let request := { request with headers := headers }
  if finished then parseRequestLine fresh stack memory request line
  else pure ⟨false, request, memory, none⟩

section Agreement

variable {memory : Memory}

/-- Of a string shorter than 2^32 bytes the split stores the entries that the split which
counts in naturals does. -/
theorem splitBySubstring_eq {string : VStringView} {substring : Bytes}
    (inside : string.data + string.length ≤ memory.length) (short : string.length < 2 ^ 32)
    (nonempty : substring ≠ []) (size : UInt32) :
    splitBySubstring memory string substring size =
      VHttp.splitBySubstring memory string substring size.toNat := by
  obtain ⟨before, content, after, rfl, rfl⟩ := VStringView.parts inside
  rw [Splitting.splitBySubstring_views before content after substring size nonempty short,
    splitBySubstring, VStringView.bytes, readRange_behind]
  rfl

theorem findFirstLoop_eq (string : VStringView) (char : UInt8) {remaining index : Nat}
    (short : index + remaining < 2 ^ 31) :
    findFirstLoop memory string char remaining index =
      VHttp.findFirstLoop memory string char remaining index := by
  have int : index < 2 ^ 31 := by omega
  induction remaining generalizing index with
  | zero =>
    simp only [findFirstLoop, VHttp.findFirstLoop, guard, int, ↓reduceIte, Option.pure_def,
      Option.bind_eq_bind, Option.bind_some]
  | succ remaining inductionHypothesis =>
    have next : index + 1 + remaining < 2 ^ 31 := by omega
    simp only [findFirstLoop, VHttp.findFirstLoop, guard, int, ↓reduceIte, Option.pure_def,
      Option.bind_eq_bind, Option.bind_some, inductionHypothesis next (by omega)]

/-- The index of a byte found, or -1. -/
theorem findFirstLoop_index {string : VStringView} {char : UInt8} {remaining index : Nat}
    {found : Int} (result : VHttp.findFirstLoop memory string char remaining index = some found) :
    -1 ≤ found ∧ found < index + remaining := by
  induction remaining generalizing index with
  | zero =>
    obtain rfl := Option.some.inj result
    omega
  | succ remaining inductionHypothesis =>
    simp only [VHttp.findFirstLoop, Option.bind_eq_bind, Option.bind_eq_some_iff] at result
    obtain ⟨byte, _, result⟩ := result
    split at result
    · obtain rfl := Option.some.inj result
      omega
    · have bounds := inductionHypothesis result
      omega

/-- On a line that ints can count, one round of the header loop is the same. -/
theorem parseHeader_eq (headers : VHashTable Bytes) {line : VStringView}
    (short : line.length + 1 < 2 ^ 31) :
    parseHeader memory headers line = VHttpRequest.parseHeader memory headers line := by
  have found : findFirstCharOccurence memory line 58 =
      VHttp.findFirstCharOccurence memory line 58 := findFirstLoop_eq line 58 (by omega)
  rw [parseHeader, VHttpRequest.parseHeader, found]
  cases result : VHttp.findFirstCharOccurence memory line 58 with
  | none => rfl
  | some index =>
    have bounds := findFirstLoop_index result
    have int : index + 1 < 2 ^ 31 := by omega
    have width : (line.length - index) % 2 ^ 64 = line.length - index :=
      Int.emod_eq_of_lt (by omega) (by omega)
    have value : (line.fromRange (index + 1).toNat (line.length - index).toNat).length <
        2 ^ 31 := by
      show (line.length - index).toNat < 2 ^ 31
      omega
    simp only [guard, int, ↓reduceIte, Option.pure_def, Option.bind_eq_bind, Option.bind_some,
      width, Trimming.trim_eq value]

/-- So is the loop, over lines that it can count. -/
theorem parseHeaders_eq {lines : List VStringView} (headers : VHashTable Bytes)
    (short : ∀ line ∈ lines, line.length + 1 < 2 ^ 31) :
    parseHeaders lines memory headers = VHttpRequest.parseHeaders lines memory headers := by
  induction lines generalizing memory headers with
  | nil => rfl
  | cons line rest inductionHypothesis =>
    have tail := fun memory headers => @inductionHypothesis memory headers
      (fun other member => short other (List.mem_cons_of_mem _ member))
    rw [parseHeaders, VHttpRequest.parseHeaders, parseHeader_eq headers (short line List.mem_cons_self)]
    cases VHttpRequest.parseHeader memory headers line with
    | none => rfl
    | some one =>
      cases one with
      | none => rfl
      | some entry => exact tail entry.1 entry.2

/-- A head that is cut out of a request shorter than 2^31 bytes. -/
theorem cutHead_eq {rawRequest : VStringView} (request : VHttpRequest)
    (inside : rawRequest.data + rawRequest.length ≤ memory.length)
    (short : rawRequest.length < 2 ^ 31) :
    cutHead memory rawRequest request = VHttpRequest.cutHead memory rawRequest request := by
  have split := splitBySubstring_eq inside (Nat.lt_trans short (by decide))
    (by decide : ascii "\r\n\r\n" ≠ []) 2
  rw [cutHead, VHttpRequest.cutHead, split, show (2 : UInt32).toNat = 2 from rfl]
  cases stored : VHttp.splitBySubstring memory rawRequest (ascii "\r\n\r\n") 2 with
  | none => rfl
  | some views =>
    simp only [Option.bind_eq_bind, Option.bind_some]
    cases first : views[0]? with
    | none => rfl
    | some requestHead =>
      have bound := ((splitBySubstring_inside (by decide) inside stored).1 requestHead
        (List.mem_of_getElem? first)).1
      have width : (requestHead.length + 4) % 2 ^ 64 = requestHead.length + 4 :=
        Nat.mod_eq_of_lt (by omega)
      rw [Option.bind_some, Option.bind_some, width]

section RequestLine

variable {fresh : Nat → UInt8} {stack : Nat → VStringView} {request : VHttpRequest}
  {line : VStringView} {result : Parsed}

/-- The url handed to the decoder is an entry of the split, which leaves room for a method and
a space, or what the stack holds. -/
theorem parseRequestLine_decoded (inside : line.data + line.length ≤ memory.length)
    (parsed : VHttpRequest.parseRequestLine fresh stack memory request line = some result)
    {view : VStringView} (decoded : result.decoded = some view) :
    view.length + 1 < line.length ∨ view = stack 1 := by
  simp only [VHttpRequest.parseRequestLine, Option.bind_eq_bind, Option.bind_eq_some_iff,
    Option.pure_def] at parsed
  obtain ⟨split, stored, parsed⟩ := parsed
  split at parsed
  · rw [← Option.some.inj parsed] at decoded
    cases decoded
  · obtain ⟨method, _, parsed⟩ := Option.bind_eq_some_iff.mp parsed
    split at parsed
    · rw [← Option.some.inj parsed] at decoded
      cases decoded
    · simp only [Option.bind_eq_some_iff] at parsed
      obtain ⟨_, _, _, _, _, _, _, _, parsed⟩ := parsed
      rw [← Option.some.inj parsed, Option.some.injEq] at decoded
      cases entry : split[1]? with
      | none =>
        rw [entry, Option.getD_none] at decoded
        exact Or.inr decoded.symm
      | some url =>
        rw [entry, Option.getD_some] at decoded
        subst decoded
        have later : url ∈ split.tail := List.mem_of_getElem? (i := 0) (by rw [List.getElem?_tail, entry])
        exact Or.inl ((splitBySubstring_inside (by decide) inside stored).2 url later)

/-- A request line that the ints can count is read in naturals the same way. -/
theorem parseRequestLine_naturals (inside : line.data + line.length ≤ memory.length)
    (short : line.length < 2 ^ 31)
    (parsed : parseRequestLine fresh stack memory request line = some result) :
    VHttpRequest.parseRequestLine fresh stack memory request line = some result := by
  have split := splitBySubstring_eq inside (Nat.lt_trans short (by decide))
    (by decide : ascii " " ≠ []) 3
  rw [parseRequestLine, split] at parsed
  simp only [VHttpRequest.parseRequestLine, Option.bind_eq_bind, Option.bind_eq_some_iff,
    Option.pure_def] at parsed ⊢
  obtain ⟨split, stored, parsed⟩ := parsed
  refine ⟨split, stored, ?_⟩
  split at parsed
  · rename_i many
    rw [if_pos many]
    exact parsed
  · rename_i few
    rw [if_neg few]
    obtain ⟨method, tested, parsed⟩ := Option.bind_eq_some_iff.mp parsed
    refine Option.bind_eq_some_iff.mpr ⟨method, tested, ?_⟩
    split at parsed
    · rename_i unknown
      rw [if_pos unknown]
      exact parsed
    · rename_i known
      rw [if_neg known]
      simp only [Option.bind_eq_some_iff] at parsed ⊢
      obtain ⟨name, named, strMethod, copied, url, decoded, parsed⟩ := parsed
      exact ⟨name, named, strMethod, copied, url, Decoding.decodeLoop_naturals decoded, parsed⟩

/-- And the other way round, if the url leaves room for an escape. -/
theorem parseRequestLine_ints (inside : line.data + line.length ≤ memory.length)
    (short : line.length < 2 ^ 31)
    (parsed : VHttpRequest.parseRequestLine fresh stack memory request line = some result)
    (room : ∀ view, result.decoded = some view → view.length + 2 < 2 ^ 31) :
    parseRequestLine fresh stack memory request line = some result := by
  have split := splitBySubstring_eq inside (Nat.lt_trans short (by decide))
    (by decide : ascii " " ≠ []) 3
  rw [parseRequestLine, split]
  simp only [VHttpRequest.parseRequestLine, Option.bind_eq_bind, Option.bind_eq_some_iff,
    Option.pure_def] at parsed ⊢
  obtain ⟨split, stored, parsed⟩ := parsed
  refine ⟨split, stored, ?_⟩
  split at parsed
  · rename_i many
    rw [if_pos many]
    exact parsed
  · rename_i few
    rw [if_neg few]
    obtain ⟨method, tested, parsed⟩ := Option.bind_eq_some_iff.mp parsed
    refine Option.bind_eq_some_iff.mpr ⟨method, tested, ?_⟩
    split at parsed
    · rename_i unknown
      rw [if_pos unknown]
      exact parsed
    · rename_i known
      rw [if_neg known]
      simp only [Option.bind_eq_some_iff] at parsed ⊢
      obtain ⟨name, named, strMethod, copied, url, decoded, same, compared, parsed⟩ := parsed
      have handed := room _ (by rw [← Option.some.inj parsed])
      exact ⟨name, named, strMethod, copied, url,
        (Decoding.decodeUrl_eq fresh memory handed _).trans decoded, same, compared, parsed⟩

end RequestLine

section Request

variable {rawRequest : VStringView} {request : VHttpRequest}

/-- The head lies inside the request. -/
theorem cutHead_inside {requestHead : VStringView} {cut : VHttpRequest}
    (inside : rawRequest.data + rawRequest.length ≤ memory.length)
    (isCut : VHttpRequest.cutHead memory rawRequest request = some (requestHead, cut)) :
    requestHead.length ≤ rawRequest.length ∧
      requestHead.data + requestHead.length ≤ memory.length := by
  simp only [VHttpRequest.cutHead, Option.bind_eq_bind, Option.bind_eq_some_iff, Option.pure_def,
    Option.some.injEq, Prod.mk.injEq] at isCut
  obtain ⟨views, split, first, stored, rfl, _⟩ := isCut
  obtain ⟨shorter, within⟩ := (splitBySubstring_inside (by decide) inside split).1 first
    (List.mem_of_getElem? stored)
  exact ⟨shorter, Nat.le_trans within inside⟩

/-- Up to the request line the two parsers go the same way, whatever the two arrays hold. They
end there, without a url, or come to one request line inside the memory. -/
theorem parse_stages (request : VHttpRequest)
    (inside : rawRequest.data + rawRequest.length ≤ memory.length)
    (short : rawRequest.length < 2 ^ 31) :
    (∃ outcome : Option Parsed, (∀ result, outcome = some result → result.decoded = none) ∧
      ∀ fresh stack, parse fresh stack memory rawRequest request = outcome ∧
        VHttpRequest.parse fresh stack memory rawRequest request = outcome) ∨
      ∃ after cut line, line.data + line.length ≤ after.length ∧
        line.length ≤ rawRequest.length ∧
        ∀ fresh stack, parse fresh stack memory rawRequest request =
            parseRequestLine fresh stack after cut line ∧
          VHttpRequest.parse fresh stack memory rawRequest request =
            VHttpRequest.parseRequestLine fresh stack after cut line := by
  have head := cutHead_eq request inside short
  cases cut : VHttpRequest.cutHead memory rawRequest request with
  | none => exact Or.inl ⟨none, by simp, by simp [parse, VHttpRequest.parse, head, cut]⟩
  | some first =>
    obtain ⟨requestHead, kept⟩ := first
    obtain ⟨shorter, placed⟩ := cutHead_inside inside cut
    have narrow := Nat.lt_of_le_of_lt shorter short
    have split := splitBySubstring_eq placed (Nat.lt_trans narrow (by decide))
      (by decide : ascii "\r\n" ≠ []) 64
    rw [show (64 : UInt32).toNat = 64 from rfl] at split
    cases lines : VHttp.splitBySubstring memory requestHead (ascii "\r\n") 64 with
    | none => exact Or.inl ⟨none, by simp, by simp [parse, VHttpRequest.parse, head, cut, split, lines]⟩
    | some requestLines =>
      obtain ⟨inner, later⟩ := splitBySubstring_inside (by decide) placed lines
      cases opened : requestLines[0]? with
      | none =>
        exact Or.inl ⟨none, by simp,
          by simp [parse, VHttpRequest.parse, head, cut, split, lines, opened]⟩
      | some line =>
        obtain ⟨lineShorter, lineWithin⟩ := inner line (List.mem_of_getElem? opened)
        have loop : parseHeaders requestLines.tail memory kept.headers =
            VHttpRequest.parseHeaders requestLines.tail memory kept.headers :=
          parseHeaders_eq kept.headers
            (fun other member => by have behind := later other member; omega)
        cases looped : VHttpRequest.parseHeaders requestLines.tail memory kept.headers with
        | none =>
          exact Or.inl ⟨none, by simp,
            by simp [parse, VHttpRequest.parse, head, cut, split, lines, opened, loop, looped]⟩
        | some verdict =>
          obtain ⟨finished, after, headers⟩ := verdict
          have size := parseHeaders_size looped
          cases finished with
          | false =>
            refine Or.inl ⟨some ⟨false, { kept with headers := headers }, after, none⟩, ?_, ?_⟩
            · intro result same
              rw [← Option.some.inj same]
            · simp [parse, VHttpRequest.parse, head, cut, split, lines, opened, loop, looped]
          | true =>
            refine Or.inr ⟨after, { kept with headers := headers }, line, by omega, by omega, ?_⟩
            simp [parse, VHttpRequest.parse, head, cut, split, lines, opened, loop, looped]

variable {fresh : Nat → UInt8} {stack : Nat → VStringView} {result : Parsed}

/-- A url that is handed to the decoder is shorter than the request, or what the stack holds. -/
theorem parse_decoded (inside : rawRequest.data + rawRequest.length ≤ memory.length)
    (short : rawRequest.length < 2 ^ 31)
    (parsed : VHttpRequest.parse fresh stack memory rawRequest request = some result)
    {view : VStringView} (decoded : result.decoded = some view) :
    view.length + 1 < rawRequest.length ∨ view = stack 1 := by
  rcases parse_stages request inside short with
    ⟨outcome, without, ends⟩ | ⟨after, cut, line, within, shorter, goes⟩
  · rw [(ends fresh stack).2] at parsed
    rw [without result parsed] at decoded
    cases decoded
  · rw [(goes fresh stack).2] at parsed
    rcases parseRequestLine_decoded within parsed decoded with stored | left
    · exact Or.inl (by omega)
    · exact Or.inr left

/-- What the parser makes of a request shorter than 2^31 bytes, the one that counts in naturals
makes of it. -/
theorem parse_naturals (short : rawRequest.length < 2 ^ 31)
    (parsed : parse fresh stack memory rawRequest request = some result) :
    VHttpRequest.parse fresh stack memory rawRequest request = some result := by
  have inside : rawRequest.data + rawRequest.length ≤ memory.length := by
    simp only [parse, cutHead, splitBySubstring, Option.bind_eq_bind, Option.bind_eq_some_iff]
      at parsed
    obtain ⟨_, ⟨_, ⟨content, shown, _⟩, _⟩, _⟩ := parsed
    exact VStringView.inside shown
  rcases parse_stages request inside short with
    ⟨outcome, _, ends⟩ | ⟨after, cut, line, within, shorter, goes⟩
  · rw [(ends fresh stack).2, ← (ends fresh stack).1, parsed]
  · rw [(goes fresh stack).1] at parsed
    rw [(goes fresh stack).2]
    exact parseRequestLine_naturals within (Nat.lt_of_le_of_lt shorter short) parsed

/-- And the other way round, if the url leaves room for an escape. -/
theorem parse_ints (inside : rawRequest.data + rawRequest.length ≤ memory.length)
    (short : rawRequest.length < 2 ^ 31)
    (parsed : VHttpRequest.parse fresh stack memory rawRequest request = some result)
    (room : ∀ view, result.decoded = some view → view.length + 2 < 2 ^ 31) :
    parse fresh stack memory rawRequest request = some result := by
  rcases parse_stages request inside short with
    ⟨outcome, _, ends⟩ | ⟨after, cut, line, within, shorter, goes⟩
  · rw [(ends fresh stack).1, ← (ends fresh stack).2, parsed]
  · rw [(goes fresh stack).2] at parsed
    rw [(goes fresh stack).1]
    exact parseRequestLine_ints within (Nat.lt_of_le_of_lt shorter short) parsed room

/-- On a request shorter than 2^31 bytes, with a stack that holds no longer view, the parser is
the one that counts in naturals. -/
theorem parse_agrees (request : VHttpRequest) (fresh : Nat → UInt8)
    (inside : rawRequest.data + rawRequest.length ≤ memory.length)
    (short : rawRequest.length < 2 ^ 31) (left : (stack 1).length + 2 < 2 ^ 31) :
    parse fresh stack memory rawRequest request =
      VHttpRequest.parse fresh stack memory rawRequest request := by
  ext result
  refine ⟨parse_naturals short, fun parsed => parse_ints inside short parsed ?_⟩
  intro view decoded
  rcases parse_decoded inside short parsed decoded with shorter | rfl
  · omega
  · exact left

/-- A url that has been decoded is one that an int can count. -/
theorem parse_url_short (parsed : parse fresh stack memory rawRequest request = some result)
    {view : VStringView} (decoded : result.decoded = some view) : view.length < 2 ^ 31 := by
  simp only [parse, Option.bind_eq_bind, Option.bind_eq_some_iff, Prod.exists,
    Option.pure_def] at parsed
  obtain ⟨_, _, _, _, _, _, _, _, _, _, _, parsed⟩ := parsed
  split at parsed
  · simp only [parseRequestLine, Option.bind_eq_bind, Option.bind_eq_some_iff,
      Option.pure_def] at parsed
    obtain ⟨split, _, parsed⟩ := parsed
    split at parsed
    · rw [← Option.some.inj parsed] at decoded
      cases decoded
    · simp only [Option.bind_eq_some_iff] at parsed
      obtain ⟨method, _, parsed⟩ := parsed
      split at parsed
      · rw [← Option.some.inj parsed] at decoded
        cases decoded
      · simp only [Option.bind_eq_some_iff] at parsed
        obtain ⟨_, _, _, _, _, url, _, _, parsed⟩ := parsed
        rw [← Option.some.inj parsed, Option.some.injEq] at decoded
        rw [← decoded]
        exact Decoding.decodeLoop_short url
  · rw [← Option.some.inj parsed] at decoded
    cases decoded

end Request

end Agreement

end VHttp.Parsing
