import VHttp.HttpRequest
import VHttp.StringViews
import VHttp.Trimming

/-!
# Key and value of a header line

What a round of the header loop takes from its line. The search for ':' returns an int; the
key is as long as the u64 that it becomes, and the value begins behind it and is one byte too
long, so that it is never empty. `CKey` has as many bytes as the key, and the terminator is
stored behind them.

A line that begins with ':' is rejected. Every other one with a ':' has its terminator stored
outside `CKey`, and a line without one has a key of 2^64 - 1 bytes.
-/

namespace VHttp.VHttpRequest

/-- What a round takes from its line: the key in `CKey`, the trimmed value, the memory and the
bytes to be inserted with the terminator in place, and the size of `CKey` with the indices that
are stored in it. -/
structure TakenHeader where
  key : Bytes
  value : VStringView
  memory : Memory
  stored : Bytes
  room : Nat
  stores : List Nat
  deriving DecidableEq

/-- A round up to the insertion; memcpy stores the key in `CKey`, and the terminator follows. -/
def takeHeader (memory : Memory) (line : VStringView) : Option (Option TakenHeader) := do
  let index ← findFirstCharOccurence memory line 58
  let key := line.fromRange 0 (indexToU64 index)
  let value := line.fromRange (index + 1).toNat (line.length - index).toNat
  if key.length = 0 ∨ value.length = 0 then pure none
  else
    let cKey ← key.bytes memory
    let (memory, value) ← trim memory value
    let memory ← memory.writeRange (value.data + value.length) [0]
    let stored ← memory.readRange value.data (value.length + 1)
    pure (some ⟨cKey, value, memory, stored, key.length, List.range (key.length + 1)⟩)

/-- The round is this and the insertion. -/
theorem parseHeader_eq (memory : Memory) (headers : VHashTable Bytes) (line : VStringView) :
    parseHeader memory headers line = (takeHeader memory line).bind fun
      | none => some none
      | some taken => (headers.insert (CString.read (taken.key ++ [0])) taken.stored).map
          (fun table => some (taken.memory, table)) := by
  simp only [parseHeader, takeHeader, Option.bind_eq_bind, Option.pure_def]
  cases findFirstCharOccurence memory line 58 with
  | none => rfl
  | some index =>
    simp only [Option.bind_some]
    split
    · rfl
    · simp only [Option.bind_assoc, Option.bind_some]
      congr 1
      funext cKey
      congr 1
      funext trimmed
      congr 1
      funext terminated
      congr 1
      funext stored
      cases headers.insert (CString.read (cKey ++ [0])) stored <;> rfl

/-- The rounds that the header loop comes to: a line, and the memory in front of its round. -/
def headerRounds : List VStringView → Memory → VHashTable Bytes → List (VStringView × Memory)
  | [], _, _ => []
  | line :: rest, memory, headers =>
    (line, memory) :: match parseHeader memory headers line with
      | some (some (memory, headers)) => headerRounds rest memory headers
      | _ => []

/-- The key is what stands in front of the first ':' of the line, and is not empty. The value is
bytes from behind it. -/
def Takes (memory : Memory) (line : VStringView) (taken : TakenHeader) : Prop :=
  ∃ key rest value, line.bytes memory = some (key ++ 58 :: rest) ∧ key ≠ [] ∧ 58 ∉ key ∧
    taken.key = key ∧ taken.stored = value ++ [0] ∧ value <:+: rest

/-- The parser returns false. -/
def Rejects (result : Option Parsed) : Prop := ∃ parsed, result = some parsed ∧ parsed.accepted = false

/-- What a line owes: the parser returns false, or takes a key and a value from it; it does
return false if the line has no ':'. And `CKey` has room for what is stored in it. -/
structure ParsesHeader (result : Option Parsed) (memory : Memory) (line : VStringView) : Prop where
  taken : Rejects result ∨
    ∃ taken, takeHeader memory line = some (some taken) ∧ Takes memory line taken
  colonless : (∀ bytes, line.bytes memory = some bytes → 58 ∉ bytes) → Rejects result
  room : ∀ taken, takeHeader memory line = some (some taken) →
    ∀ index ∈ taken.stores, index < taken.room

section Round

variable {memory : Memory} {line : VStringView}

/-- An index that is found is inside the view, and the char is there. -/
theorem findFirstLoop_found {char : UInt8} {remaining index : Nat} {found : Int}
    (searched : findFirstLoop memory line char remaining index = some found) :
    found = -1 ∨ ∃ place : Nat, found = place ∧ index ≤ place ∧ place < index + remaining ∧
      memory[line.data + place]? = some char := by
  induction remaining generalizing index with
  | zero => exact Or.inl (Option.some.inj searched).symm
  | succ remaining inductionHypothesis =>
    simp only [findFirstLoop, Option.bind_eq_bind, Option.bind_eq_some_iff] at searched
    obtain ⟨byte, read, further⟩ := searched
    split at further
    · rename_i same
      exact Or.inr ⟨index, (Option.some.inj further).symm, Nat.le_refl _, by omega, same ▸ read⟩
    · rcases inductionHypothesis further with nothing | ⟨place, same, above, below, here⟩
      · exact Or.inl nothing
      · exact Or.inr ⟨place, same, by omega, by omega, here⟩

/-- In a view without the char, nothing is found. -/
theorem findFirstLoop_absent {char : UInt8} {remaining index : Nat}
    (absent : ∀ place, index ≤ place → place < index + remaining →
      ∃ byte, memory[line.data + place]? = some byte ∧ byte ≠ char) :
    findFirstLoop memory line char remaining index = some (-1) := by
  induction remaining generalizing index with
  | zero => rfl
  | succ remaining inductionHypothesis =>
    obtain ⟨byte, read, other⟩ := absent index (Nat.le_refl _) (by omega)
    simp only [findFirstLoop, read, Option.bind_eq_bind, Option.bind_some, other, ↓reduceIte]
    exact inductionHypothesis (fun place above below => absent place (by omega) (by omega))

/-- A line without ':' is not rejected: its key is longer than any memory. -/
theorem takeHeader_colonless (small : memory.length < 2 ^ 64 - 1) {bytes : Bytes}
    (shown : line.bytes memory = some bytes) (absent : 58 ∉ bytes) :
    takeHeader memory line = none := by
  rw [VStringView.bytes, Memory.readRange, Option.ite_none_right_eq_some, Option.some.injEq] at shown
  obtain ⟨inside, rfl⟩ := shown
  have nothing : findFirstCharOccurence memory line 58 = some (-1) := by
    refine findFirstLoop_absent fun place _ below => ?_
    have read : line.data + place < memory.length := by omega
    refine ⟨memory[line.data + place], List.getElem?_eq_getElem read, fun colon => absent ?_⟩
    rw [List.mem_take_iff_getElem]
    refine ⟨place, by rw [List.length_drop]; omega, ?_⟩
    rw [List.getElem_drop]
    exact colon
  have huge : indexToU64 (-1) = 2 ^ 64 - 1 := rfl
  rw [Option.eq_none_iff_forall_ne_some]
  intro result taken
  simp only [takeHeader, Option.bind_eq_bind, Option.bind_eq_some_iff, Option.pure_def] at taken
  obtain ⟨index, found, further⟩ := taken
  obtain rfl := Option.some.inj (nothing.symm.trans found)
  split at further
  · rename_i empty
    simp only [VStringView.fromRange, huge] at empty
    omega
  · simp only [Option.bind_eq_some_iff] at further
    obtain ⟨cKey, isKey, _⟩ := further
    rw [VStringView.bytes, Memory.readRange, Option.ite_none_right_eq_some] at isKey
    have within := isKey.1
    simp only [VStringView.fromRange, huge] at within
    omega

/-- A line is rejected exactly if it begins with ':'. -/
theorem takeHeader_rejects_iff : takeHeader memory line = some none ↔
    0 < line.length ∧ memory[line.data]? = some 58 := by
  constructor
  · intro rejected
    simp only [takeHeader, Option.bind_eq_bind, Option.bind_eq_some_iff, Option.pure_def]
      at rejected
    obtain ⟨index, found, further⟩ := rejected
    split at further
    · rename_i empty
      rcases findFirstLoop_found found with rfl | ⟨place, rfl, _, below, read⟩
      · have huge : indexToU64 (-1) = 2 ^ 64 - 1 := rfl
        simp only [VStringView.fromRange, huge] at empty
        omega
      · have same : indexToU64 place = place := rfl
        have zero : place = 0 := by
          simp only [VStringView.fromRange, same] at empty
          omega
        subst zero
        exact ⟨by omega, read⟩
    · simp [Option.bind_eq_some_iff] at further
  · rintro ⟨positive, colon⟩
    obtain ⟨remaining, length⟩ := Nat.exists_eq_succ_of_ne_zero (Nat.ne_of_gt positive)
    have found : findFirstCharOccurence memory line 58 = some 0 := by
      rw [findFirstCharOccurence, length, findFirstLoop, Nat.add_zero, colon]
      rfl
    simp only [takeHeader, found, Option.bind_eq_bind, Option.bind_some]
    rfl

/-- Of every line that is taken, the terminator is stored behind `CKey`. -/
theorem takeHeader_overruns {taken : TakenHeader}
    (isTaken : takeHeader memory line = some (some taken)) :
    ¬ ∀ index ∈ taken.stores, index < taken.room := by
  simp only [takeHeader, Option.bind_eq_bind, Option.bind_eq_some_iff, Option.pure_def] at isTaken
  obtain ⟨index, _, further⟩ := isTaken
  split at further
  · cases further
  · simp only [Option.bind_eq_some_iff, Option.some.injEq] at further
    obtain ⟨_, _, _, _, _, _, _, _, rfl⟩ := further
    intro inside
    exact absurd (inside _ (List.mem_range.mpr (Nat.lt_succ_self _))) (Nat.lt_irrefl _)

/-- A line with a key in front of its first ':', and a value that is not blank with white space
behind it, has exactly this key taken and the value without the white space around it. -/
theorem takeHeader_line (before key value rest : Bytes) (behind : UInt8) (named : key ≠ [])
    (colon : 58 ∉ key) (printed : ∃ byte ∈ value, isSpace byte = false)
    (blank : isSpace behind = true) :
    ∃ left, (core value).length + left.length = value.length ∧
      takeHeader (before ++ (key ++ 58 :: value) ++ behind :: rest)
          ⟨before.length, (key ++ 58 :: value).length⟩ =
        some (some ⟨key, ⟨before.length + (key.length + 1), (core value).length⟩,
          before ++ key ++ [58] ++ (core value ++ 0 :: left) ++ rest, core value ++ [0],
          key.length, List.range (key.length + 1)⟩) := by
  obtain ⟨isCore, lead, trail, split, leadBlank, trailBlank⟩ := core_split printed
  generalize core value = inner at isCore split ⊢
  subst split
  obtain ⟨erased, left, remains⟩ : ∃ erased left,
      (lead ++ inner ++ (trail ++ [behind])).drop inner.length = erased :: left := by
    refine List.exists_cons_of_length_pos ?_
    simp only [List.length_drop, List.length_append, List.length_singleton]
    omega
  have total := congrArg List.length remains
  simp only [List.length_drop, List.length_append, List.length_cons, List.length_nil] at total
  have shape : before ++ (key ++ 58 :: (lead ++ inner ++ trail)) ++ behind :: rest =
      (before ++ key ++ [58]) ++ (lead ++ inner ++ (trail ++ [behind])) ++ rest := by simp
  have address : (before ++ key ++ [58]).length = before.length + (key.length + 1) := by simp
  have size : (key ++ 58 :: (lead ++ inner ++ trail)).length - key.length =
      (lead ++ inner ++ (trail ++ [behind])).length := by
    simp only [List.length_append, List.length_cons, List.length_nil]
    omega
  have trailing : ∀ byte ∈ trail ++ [behind], isSpace byte = true := by
    intro byte member
    rcases List.mem_append.mp member with inside | last
    · exact trailBlank byte inside
    · rw [List.mem_singleton.mp last]
      exact blank
  have trimmed := trim_core (before ++ key ++ [58]) lead inner (trail ++ [behind]) rest isCore
    leadBlank trailing
  rw [remains, ← shape, address, ← size] at trimmed
  have index : findFirstCharOccurence
      (before ++ (key ++ 58 :: (lead ++ inner ++ trail)) ++ behind :: rest)
      ⟨before.length, (key ++ 58 :: (lead ++ inner ++ trail)).length⟩ 58 =
        some (key.length : Int) := by
    have found := findFirstCharOccurence_found before key
      ((lead ++ inner ++ trail) ++ behind :: rest) 58
      (key ++ 58 :: (lead ++ inner ++ trail)).length colon (by simp)
    simpa using found
  have shown : VStringView.bytes ⟨before.length, key.length⟩
      (before ++ (key ++ 58 :: (lead ++ inner ++ trail)) ++ behind :: rest) = some key := by
    have range := readRange_behind before key (58 :: (lead ++ inner ++ trail) ++ behind :: rest)
    simpa [VStringView.bytes] using range
  have terminated : Memory.writeRange (before ++ key ++ [58] ++ inner ++ erased :: left ++ rest)
      (before.length + (key.length + 1) + inner.length) [0] =
      some (before ++ key ++ [58] ++ (inner ++ 0 :: left) ++ rest) := by
    have range := writeRange_behind (before ++ key ++ [58] ++ inner) [erased] (left ++ rest) [0] rfl
    rw [List.length_append, address] at range
    simpa using range
  have stored : Memory.readRange (before ++ key ++ [58] ++ (inner ++ 0 :: left) ++ rest)
      (before.length + (key.length + 1)) (inner.length + 1) = some (inner ++ [0]) := by
    have range := readRange_behind (before ++ key ++ [58]) (inner ++ [0]) (left ++ rest)
    rw [address] at range
    simpa using range
  have lengths : ¬ (key.length = 0 ∨
      (key ++ 58 :: (lead ++ inner ++ trail)).length - key.length = 0) := by
    have positive : 0 < key.length := List.length_pos_iff.mpr named
    rw [size]
    simp only [List.length_append, List.length_singleton]
    omega
  have start : ((key.length : Int) + 1).toNat = key.length + 1 := by omega
  have length : (((key ++ 58 :: (lead ++ inner ++ trail)).length : Int) - key.length).toNat =
      (key ++ 58 :: (lead ++ inner ++ trail)).length - key.length := by omega
  refine ⟨left, ?_, ?_⟩
  · simp only [List.length_append]
    omega
  · simp only [takeHeader, index, Option.bind_eq_bind, Option.bind_some, VStringView.fromRange,
      indexToU64, start, length, lengths, ↓reduceIte, Nat.add_zero, shown, trimmed, terminated,
      stored, Option.pure_def]

/-- Such a line is taken as it should be. -/
theorem takes_line (before key value rest : Bytes) (behind : UInt8) (named : key ≠ [])
    (colon : 58 ∉ key) (printed : ∃ byte ∈ value, isSpace byte = false)
    (blank : isSpace behind = true) :
    ∃ taken, takeHeader (before ++ (key ++ 58 :: value) ++ behind :: rest)
        ⟨before.length, (key ++ 58 :: value).length⟩ = some (some taken) ∧
      Takes (before ++ (key ++ 58 :: value) ++ behind :: rest)
        ⟨before.length, (key ++ 58 :: value).length⟩ taken := by
  obtain ⟨left, _, isTaken⟩ := takeHeader_line before key value rest behind named colon printed blank
  obtain ⟨_, lead, trail, split, _, _⟩ := core_split printed
  exact ⟨_, isTaken, key, value, core value, readRange_behind _ _ _, named, colon, rfl, rfl,
    lead, trail, split.symm⟩

end Round

section Parse

variable {fresh : Nat → UInt8} {stack : Nat → VStringView} {memory : Memory}
variable {rawRequest requestHead : VStringView} {request headed : VHttpRequest}
variable {lines : List VStringView}

/-- A parser that has a result has one for the round of its second line. -/
theorem takeHeader_of_rejects {first second : VStringView} {others : List VStringView}
    (cut : cutHead memory rawRequest request = some (requestHead, headed))
    (split : splitBySubstring memory requestHead (ascii "\r\n") 64 =
      some (first :: second :: others))
    (rejects : Rejects (parse fresh stack memory rawRequest request)) :
    takeHeader memory second ≠ none := by
  intro nothing
  obtain ⟨parsed, isParsed, _⟩ := rejects
  simp [parse, cut, split, parseHeaders, parseHeader_eq, nothing] at isParsed

/-- A second line that is rejected makes the parser return false. -/
theorem rejects_of_takeHeader {first second : VStringView} {others : List VStringView}
    (cut : cutHead memory rawRequest request = some (requestHead, headed))
    (split : splitBySubstring memory requestHead (ascii "\r\n") 64 =
      some (first :: second :: others))
    (rejected : takeHeader memory second = some none) :
    Rejects (parse fresh stack memory rawRequest request) := by
  simp [Rejects, parse, cut, split, parseHeaders, parseHeader_eq, rejected]

/-- For every request, the lines behind the first one that the parser comes to are rejected or
taken as they should be, with room in `CKey`, exactly if there is no second line or it begins
with ':'. -/
theorem parses_headers_iff (fresh : Nat → UInt8) (stack : Nat → VStringView)
    (cut : cutHead memory rawRequest request = some (requestHead, headed))
    (split : splitBySubstring memory requestHead (ascii "\r\n") 64 = some lines) :
    (∀ round ∈ headerRounds lines.tail memory headed.headers,
        ParsesHeader (parse fresh stack memory rawRequest request) round.2 round.1) ↔
      ∀ line, lines[1]? = some line → 0 < line.length ∧ memory[line.data]? = some 58 := by
  match lines, split with
  | [], _ => exact iff_of_true (fun _ member => nomatch member) (fun _ same => nomatch same)
  | [first], _ => exact iff_of_true (fun _ member => nomatch member) (fun _ same => nomatch same)
  | first :: second :: others, split =>
    constructor
    · rintro parses line ⟨⟩
      have contract := parses (second, memory) List.mem_cons_self
      refine takeHeader_rejects_iff.mp ?_
      cases isTaken : takeHeader memory second with
      | none =>
        rcases contract.taken with rejects | ⟨taken, other, _⟩
        · exact absurd isTaken (takeHeader_of_rejects cut split rejects)
        · rw [isTaken] at other
          cases other
      | some result =>
        cases result with
        | none => rfl
        | some taken =>
          exact absurd (contract.room taken isTaken) (takeHeader_overruns isTaken)
    · intro begins
      have rejected := takeHeader_rejects_iff.mpr (begins second rfl)
      have rejects : Rejects (parse fresh stack memory rawRequest request) :=
        rejects_of_takeHeader cut split rejected
      intro round member
      have stops : headerRounds (first :: second :: others).tail memory headed.headers =
          [(second, memory)] := by
        rw [List.tail_cons, headerRounds, parseHeader_eq, rejected]
        rfl
      rw [stops, List.mem_singleton] at member
      subst member
      refine ⟨Or.inl rejects, fun _ => rejects, fun taken isTaken => ?_⟩
      rw [rejected] at isTaken
      cases isTaken

end Parse

/-- "GET / HTTP/1.1" with a second line that has no key. -/
theorem parses_headers_iff_keyless : ParsesHeader (parse (fun _ => 0) (fun _ => ⟨0, 0⟩)
    (ascii "GET / HTTP/1.1\r\n:b\r\n\r\n") ⟨0, 22⟩ init)
      (ascii "GET / HTTP/1.1\r\n:b\r\n\r\n") ⟨16, 2⟩ :=
  (parses_headers_iff (fun _ => 0) (fun _ => ⟨0, 0⟩)
    (by rfl : cutHead (ascii "GET / HTTP/1.1\r\n:b\r\n\r\n") ⟨0, 22⟩ init =
      some (⟨0, 18⟩, { init with length := 22 }))
    (by decide : splitBySubstring (ascii "GET / HTTP/1.1\r\n:b\r\n\r\n") ⟨0, 18⟩ (ascii "\r\n") 64 =
      some [⟨0, 14⟩, ⟨16, 2⟩])).mpr
    (by rintro line ⟨⟩; decide)
    (⟨16, 2⟩, ascii "GET / HTTP/1.1\r\n:b\r\n\r\n") List.mem_cons_self

/-- The second line "A:b": its key fills `CKey`, and the terminator is stored behind it. -/
theorem key_buffer_overruns : ¬ ∀ (fresh : Nat → UInt8) (stack : Nat → VStringView)
    (memory : Memory) (rawRequest requestHead : VStringView) (request headed : VHttpRequest)
    (lines : List VStringView), cutHead memory rawRequest request = some (requestHead, headed) →
    splitBySubstring memory requestHead (ascii "\r\n") 64 = some lines →
    ∀ round ∈ headerRounds lines.tail memory headed.headers,
      ParsesHeader (parse fresh stack memory rawRequest request) round.2 round.1 := by
  intro always
  have contract := always (fun _ => 0) (fun _ => ⟨0, 0⟩)
    (ascii "GET / HTTP/1.1\r\nA:b\r\n\r\n") ⟨0, 23⟩ ⟨0, 19⟩ init { init with length := 23 }
    [⟨0, 14⟩, ⟨16, 3⟩] rfl (by decide) (⟨16, 3⟩, ascii "GET / HTTP/1.1\r\nA:b\r\n\r\n")
    List.mem_cons_self
  obtain ⟨taken, isTaken⟩ : ∃ taken, takeHeader (ascii "GET / HTTP/1.1\r\nA:b\r\n\r\n") ⟨16, 3⟩ =
      some (some taken) := ⟨_, rfl⟩
  exact takeHeader_overruns isTaken (contract.room taken isTaken)

end VHttp.VHttpRequest
