import VHttp.Foundations.Pieces
import VHttp.UrlDecoding

/-!
# What the parser makes of a request line

The line is split at single spaces, with room for three fields. Each field stands in
memory in front of a space or of the line's CR, so that a comparison which reads on past
a field, and a look ahead for a percent escape, stop there. What becomes of the line is
decided by the fields kept alone: by their number, by the method that the first one
begins with, and by whether the third one is a beginning of "HTTP/1.1". With fewer than
three fields and an accepted method, it is decided by what the stack held before. The
strings of the request need only be valid; what they held before shows in what they hold
afterwards.
-/

namespace VHttp.VHttpRequest

open Delimiters

/-- The method that `VHttpRequest_GetMethodFromString` finds in a field. -/
def methodOf (field : Bytes) : VHttpMethod :=
  if field.length > 7 then .error
  else ((methodTests.find? (fun test => decide (test.1 <+: field))).map Prod.snd).getD .error

theorem testMethods_field (before field rest : Bytes) (stop : UInt8)
    (tests : List (Bytes × VHttpMethod)) (absent : ∀ test ∈ tests, stop ∉ test.1) :
    testMethods (before ++ field ++ stop :: rest) before.length tests =
      some (((tests.find? (fun test => decide (test.1 <+: field))).map Prod.snd).getD .error) := by
  induction tests with
  | nil => rfl
  | cons test tests inductionHypothesis =>
    have compared := memcmpEqual_field before field rest test.1 stop (absent test (by simp))
    have tail := inductionHypothesis (fun other member => absent other (by simp [member]))
    simp only [testMethods, compared, Option.bind_eq_bind, Option.bind_some, List.find?_cons]
    by_cases found : test.1 <+: field
    · simp [found]
    · simpa [found] using tail

/-- A byte behind a field of a request line. -/
def EndsField (stop : UInt8) : Prop := stop = 32 ∨ stop = 13

theorem EndsField.absent {stop : UInt8} (ends : EndsField stop) :
    ∀ test ∈ methodTests, stop ∉ test.1 := by
  rcases ends with rfl | rfl <;> decide

theorem EndsField.plain {stop : UInt8} (ends : EndsField stop) : isXDigit stop = false := by
  rcases ends with rfl | rfl <;> decide

theorem getMethodFromString_field (before field rest : Bytes) {stop : UInt8}
    (ends : EndsField stop) :
    getMethodFromString (before ++ field ++ stop :: rest) ⟨before.length, field.length⟩ =
      some (methodOf field) := by
  unfold getMethodFromString methodOf
  split
  · rfl
  · exact testMethods_field before field rest stop methodTests ends.absent

/-- The fields that a split of a line at its spaces keeps. -/
def keptFields (room : Nat) (line : Bytes) : List Bytes :=
  match line.splitOn 32 with
  | [] => []
  | piece :: rest => bounded room piece rest

/-- Leading spaces do not matter. -/
theorem keptFields_spaces (room count : Nat) (line : Bytes) :
    keptFields (room + 1) (List.replicate count 32 ++ line) = keptFields (room + 1) line := by
  induction count with
  | zero => rfl
  | succ count inductionHypothesis =>
    rw [← inductionHypothesis]
    have opened := List.splitOn_append_cons_self_of_not_mem (List.not_mem_nil (a := (32 : UInt8)))
      (List.replicate count 32 ++ line)
    obtain ⟨piece, rest, pieces, _⟩ := splitOn_joined 32 (List.replicate count 32 ++ line)
    rw [List.nil_append] at opened
    simp only [keptFields, List.replicate_succ, List.cons_append, opened, pieces, bounded, ne_eq,
      not_true_eq_false, ↓reduceIte]

/-- A field in front of a space is kept. -/
theorem keptFields_field (room : Nat) (field line : Bytes) (nonempty : field ≠ [])
    (clean : 32 ∉ field) :
    keptFields (room + 1) (field ++ 32 :: line) = field :: keptFields room line := by
  have opened := List.splitOn_append_cons_self_of_not_mem clean line
  obtain ⟨piece, rest, pieces, _⟩ := splitOn_joined 32 line
  simp only [keptFields, opened, pieces, bounded, ne_eq, nonempty, not_false_eq_true, ↓reduceIte]

/-- What contains no space is kept as it is. -/
theorem keptFields_last (room : Nat) (field : Bytes) (clean : 32 ∉ field) :
    keptFields room field = [field] := by
  rw [keptFields, List.splitOn_eq_singleton clean]
  cases room <;> rfl

/-- Three fields with any number of spaces between them. -/
theorem keptFields_three (method url version : Bytes) (first second : Nat)
    (method_field : method ≠ [] ∧ 32 ∉ method) (url_field : url ≠ [] ∧ 32 ∉ url)
    (version_clean : 32 ∉ version) :
    keptFields 3 (method ++ List.replicate (first + 1) 32 ++ url ++
      List.replicate (second + 1) 32 ++ version) = [method, url, version] := by
  have shape : method ++ List.replicate (first + 1) 32 ++ url ++ List.replicate (second + 1) 32 ++
      version = method ++ 32 :: (List.replicate first 32 ++
        (url ++ 32 :: (List.replicate second 32 ++ version))) := by
    simp [List.replicate_succ]
  rw [shape, keptFields_field 2 _ _ method_field.1 method_field.2, keptFields_spaces,
    keptFields_field 1 _ _ url_field.1 url_field.2, keptFields_spaces,
    keptFields_last _ _ version_clean]

/-- The entries that a split of a line in memory has stored: one for each field kept,
which ends in front of a space or of the CR behind the line. -/
structure SplitOf (memory : Memory) (line : Bytes) (split : List VStringView) : Prop where
  count : split.length = (keptFields 3 line).length
  placed : ∀ (index : Nat) (field : Bytes), (keptFields 3 line)[index]? = some field →
    ∃ (front behind : Bytes) (stop : UInt8), EndsField stop ∧ field ⊆ line ∧
      memory = front ++ field ++ stop :: behind ∧
      split[index]? = some ⟨front.length, field.length⟩

/-- What the split of a line in memory stores. -/
theorem split_line (before line rest : Bytes) :
    ∃ split, splitBySubstring (before ++ line ++ 13 :: rest) ⟨before.length, line.length⟩
        (ascii " ") 3 = some split ∧ SplitOf (before ++ line ++ 13 :: rest) line split := by
  obtain ⟨piece, others, pieces, whole, absent⟩ := splitOn_joined 32 line
  have kept : keptFields 3 line = bounded 3 piece others := by rw [keptFields, pieces]
  have contents : (collect 1 3 0 piece others []).map Prod.snd = keptFields 3 line := by
    rw [kept]
    exact collect_contents 1 0 3 piece others [] rfl
  have scanned : scan [32] 3 line 0 0 0 [] =
      (collect 1 3 0 piece others []).map (fun entry => (entry.1, entry.2.length)) := by
    rw [whole]
    exact scan_joined 32 [] piece others 0 [] absent
  have space : ascii " " = [32] := by decide
  refine ⟨(collect 1 3 0 piece others []).map
    (fun entry => ⟨before.length + entry.1, entry.2.length⟩), ?_, ?_, ?_⟩
  · rw [space, splitBySubstring_eq_scan _ _ _ _ _ (by decide), scanned, List.map_map]
    rfl
  · rw [List.length_map, ← contents, List.length_map]
  · intro index field stored
    rw [← contents, List.getElem?_map, Option.map_eq_some_iff] at stored
    obtain ⟨entry, found, rfl⟩ := stored
    obtain ⟨front, behind, split, offset, ends⟩ := collect_located [32] line [] piece
      others [] whole (by simp) entry (List.mem_of_getElem? found)
    have address : before.length + entry.1 = (before ++ front).length := by simp [offset]
    have inside : entry.2 ⊆ line := by
      rw [split]
      simp
    rw [List.getElem?_map, found, Option.map_some, address]
    rcases ends with rfl | ⟨later, rfl⟩
    · refine ⟨before ++ front, rest, 13, Or.inr rfl, inside, ?_, rfl⟩
      rw [split]
      simp
    · refine ⟨before ++ front, later ++ 13 :: rest, 32, Or.inl rfl, inside, ?_, rfl⟩
      rw [split]
      simp

section Entries

variable {memory : Memory} {line field : Bytes} {split : List VStringView}

/-- The method found in the first entry. -/
theorem SplitOf.method (stored : SplitOf memory line split)
    (kept : (keptFields 3 line)[0]? = some field) :
    ∃ view, split[0]? = some view ∧ getMethodFromString memory view = some (methodOf field) := by
  obtain ⟨front, behind, stop, ends, _, rfl, here⟩ := stored.placed 0 field kept
  exact ⟨_, here, getMethodFromString_field front field behind ends⟩

/-- The second entry shows its field and is decoded in front of what the string held. -/
theorem SplitOf.url (stored : SplitOf memory line split) (fresh : Nat → UInt8)
    {string : VString} (valid : string.Valid) (kept : (keptFields 3 line)[1]? = some field) :
    ∃ view after, split[1]? = some view ∧ view.bytes memory = some field ∧
      decodeUrl fresh memory view string = some after ∧ after.Valid ∧
      after.content = percentDecode field ++ string.content := by
  obtain ⟨front, behind, stop, ends, _, rfl, here⟩ := stored.placed 1 field kept
  obtain ⟨after, decoded, result⟩ := decodeUrl_exact fresh front field behind ends.plain string valid
  exact ⟨_, after, here, readRange_behind front field (stop :: behind), decoded, result⟩

/-- The third entry is compared with a literal. -/
theorem SplitOf.version (stored : SplitOf memory line split) (clean : 0 ∉ line) (literal : Bytes)
    (kept : (keptFields 3 line)[2]? = some field) :
    ∃ view, split[2]? = some view ∧
      strncmpEqual memory view.data literal view.length = some (decide (field <+: literal)) := by
  obtain ⟨front, behind, stop, _, inside, rfl, here⟩ := stored.placed 2 field kept
  exact ⟨_, here, strncmpEqual_field front field (stop :: behind) literal
    (fun nul => clean (inside nul))⟩

end Entries

/-- A request whose strings are in a valid state, used before or not. -/
structure ValidStrings (request : VHttpRequest) : Prop where
  strMethod : request.strMethod.Valid
  url : request.url.Valid

/-- A request whose strings are as `VHttpRequest_Init` made them. -/
structure FreshStrings (request : VHttpRequest) : Prop where
  strMethod : request.strMethod.Valid ∧ request.strMethod.length = 0
  url : request.url.Valid ∧ request.url.length = 0

theorem init_fresh : FreshStrings init where
  strMethod := ⟨VString.init_valid, rfl⟩
  url := ⟨VString.init_valid, rfl⟩

theorem FreshStrings.valid {request : VHttpRequest} (fresh : FreshStrings request) :
    ValidStrings request := ⟨fresh.strMethod.1, fresh.url.1⟩

/-- What the copy of a method's name leaves in a string of some length. -/
def copiedOver (length : Nat) (name : Bytes) : Bytes :=
  (List.replicate length 0 ++ name).take name.length

theorem httpMethodsStr_known (method : VHttpMethod) (known : method ≠ .error) :
    ∃ name, httpMethodsStr method = some name := by
  cases method <;> simp_all [httpMethodsStr]

section Outcome

variable (fresh : Nat → UInt8) (before line rest : Bytes) (request : VHttpRequest)

/-- With three fields and an accepted method the version decides. The name of the method
is copied over the old one, and the second field is decoded in front of the old url. -/
theorem parseRequestLine_reused (strings : ValidStrings request) (clean : 0 ∉ line)
    {method url version : Bytes} (kept : keptFields 3 line = [method, url, version])
    (known : methodOf method ≠ .error) :
    ∃ result view name, (∀ stack, parseRequestLine fresh stack (before ++ line ++ 13 :: rest)
        request ⟨before.length, line.length⟩ = some result) ∧
      result.accepted = decide (version <+: ascii "HTTP/1.1") ∧
      httpMethodsStr (methodOf method) = some name ∧
      result.request.strMethod.content = copiedOver request.strMethod.length name ∧
      result.request.url.content = percentDecode url ++ request.url.content ∧
      ValidStrings result.request ∧
      result.request = { request with
        method := methodOf method
        strMethod := result.request.strMethod
        url := result.request.url } ∧
      result.memory = before ++ line ++ 13 :: rest ∧
      result.decoded = some view ∧ view.bytes result.memory = some url := by
  obtain ⟨split, isSplit, stored⟩ := split_line before line rest
  have few : ¬ 3 < split.length := by simp [stored.count, kept]
  obtain ⟨methodView, methodHere, found⟩ :=
    stored.method (by simp [kept] : (keptFields 3 line)[0]? = some method)
  obtain ⟨urlView, decodedUrl, urlHere, shown, decoded, validUrl, contentsUrl⟩ :=
    stored.url fresh strings.url (by simp [kept] : (keptFields 3 line)[1]? = some url)
  obtain ⟨versionView, versionHere, compared⟩ := stored.version clean
    (ascii "HTTP/1.1") (by simp [kept] : (keptFields 3 line)[2]? = some version)
  obtain ⟨name, named⟩ := httpMethodsStr_known _ known
  obtain ⟨strMethod, copied, validMethod, contents⟩ :=
    strings.strMethod.copyCString_exact fresh name
  refine ⟨⟨decide (version <+: ascii "HTTP/1.1"), { request with
    method := methodOf method, strMethod := strMethod, url := decodedUrl },
    before ++ line ++ 13 :: rest, some urlView⟩, urlView, name, fun stack => ?_, rfl, named,
    contents, contentsUrl, ⟨validMethod, validUrl⟩, rfl, rfl, rfl, shown⟩
  simp only [parseRequestLine, isSplit, Option.bind_eq_bind, Option.bind_some, gt_iff_lt, few,
    ↓reduceIte, methodHere, urlHere, versionHere, Option.getD_some, found, known, named, copied,
    decoded, compared, Option.pure_def]

end Outcome

end VHttp.VHttpRequest
