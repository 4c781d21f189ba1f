import VHttp.RequestLine

/-!
# A request parsed into twice

The worker parses every message of its receive loop into one request. What a second parse
does up to the name of the method does not depend on what the request held: the head, the
lines and the verdict on the header lines are read from memory, and so is the method. The
copy of its name is where an earlier request shows. It clears the old name and appends
behind it, so that a request which holds a name already holds zeros in front afterwards.
-/

namespace VHttp.VHttpRequest

open VHashTable

/-- Two requests that read the same. -/
structure ReadsAlike (first second : VHttpRequest) : Prop where
  method : first.method = second.method
  strMethod : first.strMethod.content = second.strMethod.content
  url : first.url.content = second.url.content
  headers : ∀ key, get first.headers key = get second.headers key

/-- A split into an array that has room stores something. -/
theorem splitLoop_nonempty {memory : Memory} {string : VStringView} {substring : Bytes}
    {size remaining index check start : Nat} {stored pieces : List VStringView}
    (room : 0 < size)
    (returned : splitLoop memory string substring size remaining index check start stored =
      some pieces) : pieces ≠ [] := by
  induction remaining generalizing index check start stored with
  | zero =>
    have same := Option.some.inj returned
    simp [← same]
  | succ remaining inductionHypothesis =>
    simp only [splitLoop, Option.bind_eq_bind, Option.bind_eq_some_iff] at returned
    obtain ⟨byte, _, expected, _, returned⟩ := returned
    split at returned
    · split at returned
      · split at returned
        · exact inductionHypothesis returned
        · rename_i full
          obtain rfl := Option.some.inj returned
          exact List.length_pos_iff.mp (by omega)
      · exact inductionHypothesis returned
    · exact inductionHypothesis returned

theorem splitBySubstring_nonempty {memory : Memory} {string : VStringView} {substring : Bytes}
    {size : Nat} {pieces : List VStringView} (some_text : substring ≠ []) (room : 0 < size)
    (returned : splitBySubstring memory string substring size = some pieces) : pieces ≠ [] := by
  have positive : substring.length ≠ 0 := List.length_eq_zero_iff.not.mpr some_text
  rw [splitBySubstring, if_neg positive] at returned
  exact splitLoop_nonempty room returned

/-- One header line makes the same of the memory, whatever the table. -/
theorem parseHeader_memory {memory : Memory} {line : VStringView} {first second : VHashTable Bytes}
    {one two : Option (Memory × VHashTable Bytes)}
    (parsed : parseHeader memory first line = some one)
    (again : parseHeader memory second line = some two) :
    one.map Prod.fst = two.map Prod.fst := by
  simp only [parseHeader, Option.bind_eq_bind, Option.bind_eq_some_iff] at parsed again
  obtain ⟨index, found, parsed⟩ := parsed
  obtain ⟨_, foundAgain, again⟩ := again
  obtain rfl := Option.some.inj (found.symm.trans foundAgain)
  split at parsed
  · rename_i empty
    rw [if_pos empty] at again
    obtain rfl := Option.some.inj parsed
    obtain rfl := Option.some.inj again
    rfl
  · rename_i filled
    rw [if_neg filled] at again
    simp only [Option.bind_eq_some_iff, Prod.exists, Option.pure_def, Option.some.injEq]
      at parsed again
    obtain ⟨key, isKey, moved, value, trimmed, left, written, bytes, stored, table, _, rfl⟩ := parsed
    obtain ⟨_, _, _, _, trimmedAgain, _, writtenAgain, _, _, other, _, rfl⟩ := again
    obtain ⟨rfl, rfl⟩ := Prod.mk.inj (Option.some.inj (trimmed.symm.trans trimmedAgain))
    obtain rfl := Option.some.inj (written.symm.trans writtenAgain)
    rfl

/-- The header loop makes the same of the memory, and gives the same verdict. -/
theorem parseHeaders_memory {lines : List VStringView} {memory left again : Memory}
    {first second table other : VHashTable Bytes} {finished repeated : Bool}
    (parsed : parseHeaders lines memory first = some (finished, left, table))
    (reparsed : parseHeaders lines memory second = some (repeated, again, other)) :
    finished = repeated ∧ left = again := by
  induction lines generalizing memory first second with
  | nil =>
    simp only [parseHeaders, Option.some.injEq, Prod.mk.injEq] at parsed reparsed
    exact ⟨parsed.1.symm.trans reparsed.1, parsed.2.1.symm.trans reparsed.2.1⟩
  | cons line rest inductionHypothesis =>
    simp only [parseHeaders, Option.bind_eq_bind, Option.bind_eq_some_iff] at parsed reparsed
    obtain ⟨one, header, parsed⟩ := parsed
    obtain ⟨two, headerAgain, reparsed⟩ := reparsed
    have same := parseHeader_memory header headerAgain
    match one, two, same with
    | none, none, _ =>
      simp only [Option.some.injEq, Prod.mk.injEq] at parsed reparsed
      exact ⟨parsed.1.symm.trans reparsed.1, parsed.2.1.symm.trans reparsed.2.1⟩
    | some (moved, _), some (movedAgain, _), same =>
      obtain rfl := Option.some.inj same
      exact inductionHypothesis parsed reparsed

/-- The head does not depend on the request. -/
theorem cutHead_request {memory : Memory} {rawRequest one two : VStringView}
    {first second cut other : VHttpRequest}
    (isCut : cutHead memory rawRequest first = some (one, cut))
    (again : cutHead memory rawRequest second = some (two, other)) :
    one = two ∧ other = { second with length := two.length + 4 } := by
  simp only [cutHead, Option.bind_eq_bind, Option.bind_eq_some_iff, Option.pure_def,
    Option.some.injEq, Prod.mk.injEq] at isCut again
  obtain ⟨pieces, split, head, first, rfl, _⟩ := isCut
  obtain ⟨_, splitAgain, _, firstAgain, rfl, rfl⟩ := again
  obtain rfl := Option.some.inj (split.symm.trans splitAgain)
  obtain rfl := Option.some.inj (first.symm.trans firstAgain)
  exact ⟨rfl, rfl⟩

/-- If a request line is accepted once, then wherever else it is parsed the same method is
found, and its name is copied into the request's string. -/
theorem parseRequestLine_names {memory : Memory} {line : VStringView}
    {fresh otherFresh : Nat → UInt8} {stack otherStack : Nat → VStringView}
    {request other : VHttpRequest} {result again : Parsed}
    (parsed : parseRequestLine fresh stack memory request line = some result)
    (accepted : result.accepted = true)
    (reparsed : parseRequestLine otherFresh otherStack memory other line = some again) :
    ∃ name, httpMethodsStr result.request.method = some name ∧
      again.request.method = result.request.method ∧
      other.strMethod.copyCString otherFresh name = some again.request.strMethod := by
  simp only [parseRequestLine, Option.bind_eq_bind, Option.bind_eq_some_iff, Option.pure_def]
    at parsed reparsed
  obtain ⟨pieces, split, parsed⟩ := parsed
  obtain ⟨_, splitAgain, reparsed⟩ := reparsed
  obtain rfl := Option.some.inj (split.symm.trans splitAgain)
  obtain ⟨first, rest, rfl⟩ := List.exists_cons_of_ne_nil
    (splitBySubstring_nonempty (by decide) (by decide) split)
  split at parsed
  · obtain rfl := Option.some.inj parsed
    simp at accepted
  · rename_i few
    rw [if_neg few] at reparsed
    simp only [List.getElem?_cons_zero, Option.getD_some, Option.bind_eq_some_iff]
      at parsed reparsed
    obtain ⟨method, found, parsed⟩ := parsed
    obtain ⟨_, foundAgain, reparsed⟩ := reparsed
    obtain rfl := Option.some.inj (found.symm.trans foundAgain)
    split at parsed
    · obtain rfl := Option.some.inj parsed
      simp at accepted
    · rename_i known
      rw [if_neg known] at reparsed
      simp only [Option.bind_eq_some_iff, Option.some.injEq] at parsed reparsed
      obtain ⟨name, named, _, _, _, _, _, _, rfl⟩ := parsed
      obtain ⟨_, namedAgain, strMethod, copied, _, _, _, _, rfl⟩ := reparsed
      obtain rfl := Option.some.inj (named.symm.trans namedAgain)
      exact ⟨name, named, rfl, copied⟩

/-- If a buffer is accepted once, then wherever else it is parsed the same method is found,
and its name is copied into the request's string. -/
theorem parse_names {memory : Memory} {rawRequest : VStringView}
    {fresh otherFresh : Nat → UInt8} {stack otherStack : Nat → VStringView}
    {request other : VHttpRequest} {result again : Parsed}
    (parsed : parse fresh stack memory rawRequest request = some result)
    (accepted : result.accepted = true)
    (reparsed : parse otherFresh otherStack memory rawRequest other = some again) :
    ∃ name, httpMethodsStr result.request.method = some name ∧
      again.request.method = result.request.method ∧
      other.strMethod.copyCString otherFresh name = some again.request.strMethod := by
  simp only [parse, Option.bind_eq_bind, Option.bind_eq_some_iff, Prod.exists, Option.pure_def]
    at parsed reparsed
  obtain ⟨head, cut, isCut, lines, split, line, isLine, finished, left, table, looped, parsed⟩ :=
    parsed
  obtain ⟨_, otherCut, isCutAgain, _, splitAgain, _, isLineAgain, repeated, _, otherTable, loopedAgain,
    reparsed⟩ := reparsed
  obtain ⟨rfl, rfl⟩ := cutHead_request isCut isCutAgain
  obtain rfl := Option.some.inj (split.symm.trans splitAgain)
  obtain rfl := Option.some.inj (isLine.symm.trans isLineAgain)
  obtain ⟨rfl, rfl⟩ := parseHeaders_memory looped loopedAgain
  split at parsed
  · rename_i ended
    rw [if_pos ended] at reparsed
    have names := parseRequestLine_names parsed accepted reparsed
    exact names
  · obtain rfl := Option.some.inj parsed
    simp at accepted

theorem httpMethodsStr_clean (method : VHttpMethod) (name : Bytes)
    (named : httpMethodsStr method = some name) : 0 ∉ name ∧ name ≠ [] := by
  cases method <;> simp only [httpMethodsStr, Option.some.injEq, reduceCtorEq] at named <;>
    exact named ▸ by decide

/-- A name copied over another one begins with a zero. -/
theorem copiedOver_used {length : Nat} (used : 0 < length) {name : Bytes} (clean : 0 ∉ name)
    (nonempty : name ≠ []) : copiedOver length name ≠ name := by
  intro same
  obtain ⟨size, rfl⟩ : ∃ size, length = size + 1 := ⟨length - 1, by omega⟩
  obtain ⟨first, rest, rfl⟩ := List.exists_cons_of_ne_nil nonempty
  rw [copiedOver, List.replicate_succ, List.cons_append, List.length_cons, List.take_succ_cons,
    List.cons.injEq] at same
  exact clean (same.1 ▸ List.mem_cons_self)

/-- An accepted fresh request holds the name of its method. -/
theorem parse_fresh_name {memory : Memory} {rawRequest : VStringView} {fresh : Nat → UInt8}
    {stack : Nat → VStringView} {result : Parsed}
    (parsed : parse fresh stack memory rawRequest init = some result)
    (accepted : result.accepted = true) :
    ∃ name, httpMethodsStr result.request.method = some name ∧ result.request.strMethod.Valid ∧
      result.request.strMethod.content = name := by
  obtain ⟨name, named, _, copied⟩ := parse_names parsed accepted parsed
  obtain ⟨after, same, valid, contents⟩ := init_fresh.strMethod.1.copyCString fresh rfl name
  obtain rfl := Option.some.inj (copied.symm.trans same)
  exact ⟨name, named, valid, contents⟩

/-- For every two buffers that are accepted on a fresh request, parsing the second one into
the request that the first one was parsed into never reads as parsing it into a fresh one.

The first parse leaves a name in the request, and the name of the second method is then
copied over it: where it was, there is a zero. -/
theorem reused_request_differs {memory otherMemory : Memory} {rawRequest otherRaw : VStringView}
    {fresh otherFresh : Nat → UInt8} {stack otherStack : Nat → VStringView} {first second : Parsed}
    (parsed : parse fresh stack memory rawRequest init = some first)
    (accepted : first.accepted = true)
    (otherParsed : parse otherFresh otherStack otherMemory otherRaw init = some second)
    (otherAccepted : second.accepted = true) (laterFresh : Nat → UInt8)
    (laterStack : Nat → VStringView) :
    ¬ ∃ again, parse laterFresh laterStack otherMemory otherRaw first.request = some again ∧
      ReadsAlike again.request second.request := by
  rintro ⟨again, reparsed, alike⟩
  obtain ⟨earlier, isEarlier, valid, earlierName⟩ := parse_fresh_name parsed accepted
  obtain ⟨name, named, _, secondName⟩ := parse_fresh_name otherParsed otherAccepted
  obtain ⟨_, namedAgain, _, copied⟩ := parse_names otherParsed otherAccepted reparsed
  obtain rfl := Option.some.inj (named.symm.trans namedAgain)
  obtain ⟨after, same, _, contents⟩ := valid.copyCString_exact laterFresh name
  obtain rfl := Option.some.inj (copied.symm.trans same)
  have used : 0 < first.request.strMethod.length := by
    rw [← valid.content_length, earlierName]
    exact List.length_pos_iff.mpr (httpMethodsStr_clean _ _ isEarlier).2
  obtain ⟨clean, nonempty⟩ := httpMethodsStr_clean _ _ named
  refine copiedOver_used used clean nonempty ?_
  exact contents.symm.trans (alike.strMethod.trans secondName)

/-- A request for the root. -/
def rootRequest : Bytes := ascii "GET / HTTP/1.1\r\n\r\n"

/-- The root requested twice, through one request: the method's name is three zeros. -/
theorem second_request_differs :
    ∃ first, parse (fun _ => 0) (fun _ => ⟨0, 0⟩) rootRequest ⟨0, 18⟩ init = some first ∧
      first.accepted = true ∧
      ¬ ∃ again, parse (fun _ => 0) (fun _ => ⟨0, 0⟩) rootRequest ⟨0, 18⟩ first.request = some again ∧
        ReadsAlike again.request first.request := by
  have runs : ((parse (fun _ => 0) (fun _ => ⟨0, 0⟩) rootRequest ⟨0, 18⟩ init).bind fun first =>
      (parse (fun _ => 0) (fun _ => ⟨0, 0⟩) rootRequest ⟨0, 18⟩ first.request).map fun again =>
        (first.accepted, first.request.strMethod.content, again.request.strMethod.content)) =
      some (true, ascii "GET", [0, 0, 0]) := by decide +kernel
  simp only [Option.bind_eq_some_iff, Option.map_eq_some_iff, Prod.mk.injEq] at runs
  obtain ⟨first, parsed, again, reparsed, accepted, name, zeros⟩ := runs
  refine ⟨first, parsed, accepted, ?_⟩
  rintro ⟨other, isOther, alike⟩
  obtain rfl := Option.some.inj (reparsed.symm.trans isOther)
  have same := zeros.symm.trans (alike.strMethod.trans name)
  exact absurd same (by decide)

/-- The two parses of the root into fresh requests, and the first request used again. -/
theorem reused_request_differs_root :
    ∃ first, parse (fun _ => 0) (fun _ => ⟨0, 0⟩) rootRequest ⟨0, 18⟩ init = some first ∧
      ¬ ∃ again, parse (fun _ => 7) (fun _ => ⟨0, 0⟩) rootRequest ⟨0, 18⟩ first.request = some again ∧
        ReadsAlike again.request first.request := by
  have runs : (parse (fun _ => 0) (fun _ => ⟨0, 0⟩) rootRequest ⟨0, 18⟩ init).map
      Parsed.accepted = some true := by decide +kernel
  obtain ⟨first, parsed, accepted⟩ := Option.map_eq_some_iff.mp runs
  exact ⟨first, parsed, reused_request_differs parsed accepted parsed accepted (fun _ => 7) _⟩

end VHttp.VHttpRequest
