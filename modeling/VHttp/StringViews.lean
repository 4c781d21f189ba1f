import VHttp.Foundations.Delimiters
import VHttp.VString

/-!
# Searches and comparisons over bytes that lie in memory

Each function of vstring.c that only reads is described by what it computes from the
bytes in memory: a comparison tells whether one byte string is a prefix of another, a
split is the one-pass scan of the view's bytes, and a search finds the first occurrence.
-/

namespace VHttp

open Delimiters

/-- memcmp decides whether the expected bytes begin what lies at the address. Where the
memory ends first, without a difference, there is no result. -/
theorem memcmpEqual_exact (memory : Memory) (address : Nat) (expected : Bytes) :
    memcmpEqual memory address expected =
      if expected <+: memory.drop address then some true
      else if memory.drop address <+: expected then none
      else some false := by
  induction expected generalizing address with
  | nil => simp [memcmpEqual]
  | cons byte rest inductionHypothesis =>
    cases read : memory[address]? with
    | none =>
      have ended : memory.drop address = [] :=
        List.drop_eq_nil_of_le (List.getElem?_eq_none_iff.mp read)
      simp [memcmpEqual, read, ended]
    | some found =>
      obtain ⟨inside, same⟩ := List.getElem?_eq_some_iff.mp read
      have opened : memory.drop address = found :: memory.drop (address + 1) := by
        rw [List.drop_eq_getElem_cons inside, same]
      simp only [memcmpEqual, read, Option.bind_eq_bind, Option.bind_some, opened,
        List.cons_prefix_cons]
      by_cases equal : found = byte
      · simp only [equal, ↓reduceIte, true_and, inductionHypothesis]
      · simp [equal, Ne.symm equal]

/-- In front of a byte that a name does not contain, memcmp compares it with the bytes
before that byte. -/
theorem memcmpEqual_field (before field rest name : Bytes) (stop : UInt8)
    (absent : stop ∉ name) :
    memcmpEqual (before ++ field ++ stop :: rest) before.length name =
      some (decide (name <+: field)) := by
  have dropped : (before ++ field ++ stop :: rest).drop before.length = field ++ stop :: rest := by
    simp
  have within : name <+: field ++ stop :: rest ↔ name <+: field := by
    refine ⟨fun found => ?_, fun found => found.trans (List.prefix_append _ _)⟩
    rcases List.prefix_or_prefix_of_prefix found (List.prefix_append _ _) with inside | longer
    · exact inside
    · obtain ⟨tail, same⟩ := longer
      rw [← same, List.prefix_append_right_inj] at found
      cases tail with
      | nil => simp [← same]
      | cons byte others =>
        have equal : byte = stop := (List.cons_prefix_cons.mp found).1
        exact absurd (by simp [← same, equal]) absent
  have unended : ¬ field ++ stop :: rest <+: name := by
    intro found
    exact absent (found.subset (by simp))
  rw [memcmpEqual_exact, dropped]
  by_cases found : name <+: field <;> simp [within, found, unended]

/-- strncmp over the bytes of a view compares them with the beginning of a literal. -/
theorem strncmpEqual_field (before field rest literal : Bytes) (clean : 0 ∉ field) :
    strncmpEqual (before ++ field ++ rest) before.length literal field.length =
      some (decide (field <+: literal)) := by
  induction field generalizing before literal with
  | nil => cases literal <;> simp [strncmpEqual]
  | cons byte others inductionHypothesis =>
    simp only [List.mem_cons, not_or] at clean
    have read : (before ++ byte :: others ++ rest)[before.length]? = some byte := by simp
    cases literal with
    | nil =>
      have visible : byte ≠ 0 := Ne.symm clean.1
      simp [strncmpEqual, visible]
    | cons expected literal =>
      simp only [List.length_cons, strncmpEqual, read, Option.bind_eq_bind, Option.bind_some,
        List.cons_prefix_cons]
      by_cases equal : byte = expected
      · have tail := inductionHypothesis (before ++ [byte]) literal clean.2
        simp only [List.append_assoc, List.singleton_append, List.length_append,
          List.length_singleton] at tail
        simp only [equal, ↓reduceIte, true_and] at tail ⊢
        simpa using tail
      · simp [equal]

/-- The loop of a split is the scan of the bytes left to read. -/
theorem splitLoop_eq_scan (string : VStringView) (substring : Bytes) (size : Nat)
    (before rest after : Bytes) (index check start : Nat) (kept : List (Nat × Nat))
    (located : before.length = string.data + index) (matched : check < substring.length)
    (whole : index + rest.length = string.length) :
    splitLoop (before ++ rest ++ after) string substring size rest.length index check start
        (kept.map (fun entry => string.fromRange entry.1 entry.2)) =
      some ((scan substring size rest index check start kept).map
        (fun entry => string.fromRange entry.1 entry.2)) := by
  have positive : 0 < substring.length := Nat.zero_lt_of_lt matched
  induction rest generalizing before index check start kept with
  | nil =>
    rw [List.length_nil, Nat.add_zero] at whole
    simp [splitLoop, scan, whole]
  | cons byte rest inductionHypothesis =>
    rw [List.length_cons] at whole
    have read : (before ++ byte :: rest ++ after)[string.data + index]? = some byte := by
      rw [← located]
      simp
    have expected : substring[check]? = some substring[check] := List.getElem?_eq_getElem matched
    have onward : ∀ check start kept, check < substring.length →
        splitLoop (before ++ byte :: rest ++ after) string substring size rest.length (index + 1)
            check start (kept.map (fun entry => string.fromRange entry.1 entry.2)) =
          some ((scan substring size rest (index + 1) check start kept).map
            (fun entry => string.fromRange entry.1 entry.2)) := by
      intro check start kept matched
      have tail := inductionHypothesis (before ++ [byte]) (index + 1) check start kept
        (by simp [located, Nat.add_assoc]) matched (by omega)
      simpa using tail
    simp only [List.length_cons, splitLoop, read, expected, Option.bind_eq_bind, Option.bind_some,
      scan, Option.some.injEq, List.length_map]
    by_cases equal : substring[check] = byte
    · rw [if_pos equal.symm, if_pos equal]
      by_cases complete : check + 1 = substring.length
      · rw [if_pos complete, if_pos complete]
        by_cases room : kept.length < size
        · rw [if_pos room, if_pos room, ← onward _ _ _ positive]
          congr 1
          by_cases empty : index + 1 - substring.length - start = 0 <;>
            simp [VStringView.fromRange, empty]
        · rw [if_neg room, if_neg room]
      · rw [if_neg complete, if_neg complete]
        exact onward _ _ _ (by omega)
    · rw [if_neg (Ne.symm equal), if_neg equal]
      exact onward _ _ _ positive

/-- `VString_SplitBySubstring` on a view of bytes in memory. -/
theorem splitBySubstring_eq_scan (substring : Bytes) (size : Nat) (before content after : Bytes)
    (positive : 0 < substring.length) :
    splitBySubstring (before ++ content ++ after) ⟨before.length, content.length⟩ substring size =
      some ((scan substring size content 0 0 0 []).map
        (fun entry => ⟨before.length + entry.1, entry.2⟩)) := by
  rw [splitBySubstring, if_neg (Nat.ne_of_gt positive)]
  exact splitLoop_eq_scan ⟨before.length, content.length⟩ substring size before content after
    0 0 0 [] rfl positive (by simp)

/-- Of a view inside a memory the bytes are one of its parts. -/
theorem VStringView.parts {memory : Memory} {string : VStringView}
    (inside : string.data + string.length ≤ memory.length) :
    ∃ before content after, memory = before ++ content ++ after ∧
      string = ⟨before.length, content.length⟩ := by
  refine ⟨memory.take string.data, (memory.drop string.data).take string.length,
    (memory.drop string.data).drop string.length, ?_, ?_⟩
  · rw [List.append_assoc, List.take_append_drop, List.take_append_drop]
  · rw [List.length_take_of_le (by omega), List.length_take_of_le (by rw [List.length_drop]; omega)]

/-- A view that shows bytes lies inside the memory. -/
theorem VStringView.inside {memory : Memory} {string : VStringView} {content : Bytes}
    (shown : string.bytes memory = some content) :
    string.data + string.length ≤ memory.length := by
  rw [VStringView.bytes, Memory.readRange, Option.ite_none_right_eq_some] at shown
  exact shown.1

/-- It shows as many as it is long. -/
theorem VStringView.shows {memory : Memory} {string : VStringView} {content : Bytes}
    (shown : string.bytes memory = some content) : content.length = string.length := by
  have inside := VStringView.inside shown
  rw [VStringView.bytes, Memory.readRange, if_pos inside, Option.some.injEq] at shown
  rw [← shown, List.length_take_of_le (by rw [List.length_drop]; omega)]

/-- The entries of a split lie inside the string, and all but the first one behind a byte and
the separator. -/
theorem splitBySubstring_inside {memory : Memory} {string : VStringView} {substring : Bytes}
    {size : Nat} {views : List VStringView} (positive : 0 < substring.length)
    (inside : string.data + string.length ≤ memory.length)
    (split : splitBySubstring memory string substring size = some views) :
    (∀ view ∈ views, view.length ≤ string.length ∧
      view.data + view.length ≤ string.data + string.length) ∧
      ∀ view ∈ views.tail, view.length + substring.length < string.length := by
  obtain ⟨before, content, after, rfl, rfl⟩ := VStringView.parts inside
  rw [splitBySubstring_eq_scan substring size before content after positive,
    Option.some.injEq] at split
  have inner : ∀ piece ∈ scan substring size content 0 0 0 [], piece.1 + piece.2 ≤
      0 + content.length := scan_inside content 0 0 0 [] (Nat.le_refl _) (by simp)
  have later : ∀ piece ∈ (scan substring size content 0 0 0 []).tail,
      substring.length < piece.1 :=
    scan_later content 0 0 0 [] (Nat.le_refl _) (by simp) (by simp)
  rw [← split, ← List.map_tail]
  constructor
  · intro view member
    obtain ⟨piece, kept, rfl⟩ := List.mem_map.mp member
    have bound := inner piece kept
    simp only
    omega
  · intro view member
    obtain ⟨piece, kept, rfl⟩ := List.mem_map.mp member
    have bound := inner piece (List.mem_of_mem_tail kept)
    have far := later piece kept
    simp only
    omega

/-- The loop of `VString_FindSubstring` that finds something has found the first
occurrence from its index on. -/
theorem findSubstringLoop_found {memory : Memory} {string : VStringView} {substring : Bytes}
    {remaining index behind : Nat} (positive : 0 < behind)
    (found : findSubstringLoop memory string substring remaining index = some behind) :
    ∃ first, index ≤ first ∧ first < index + remaining ∧ behind = first + substring.length ∧
      substring <+: memory.drop (string.data + first) ∧
      ∀ earlier, index ≤ earlier → earlier < first →
        ¬ substring <+: memory.drop (string.data + earlier) := by
  induction remaining generalizing index with
  | zero =>
    have same : 0 = behind := Option.some.inj found
    omega
  | succ remaining inductionHypothesis =>
    simp only [findSubstringLoop, memcmpEqual_exact, Option.bind_eq_bind,
      Option.bind_eq_some_iff] at found
    obtain ⟨same, compared, result⟩ := found
    by_cases here : substring <+: memory.drop (string.data + index)
    · rw [if_pos here, Option.some.injEq] at compared
      subst same
      have ended : index + substring.length = behind := Option.some.inj result
      refine ⟨index, Nat.le_refl _, by omega, ended.symm, here, ?_⟩
      intro earlier later sooner
      omega
    · rw [if_neg here] at compared
      split at compared
      · simp at compared
      · rw [Option.some.injEq] at compared
        subst same
        obtain ⟨first, later, inside, ended, occurs, absent⟩ := inductionHypothesis result
        refine ⟨first, by omega, by omega, ended, occurs, ?_⟩
        intro earlier bound sooner
        by_cases equal : earlier = index
        · exact equal ▸ here
        · exact absent earlier (by omega) sooner

/-- `VString_FindSubstring` finds the first occurrence that begins inside the string. -/
theorem findSubstring_found {memory : Memory} {string : VStringView} {substring : Bytes}
    {behind : Nat} (positive : 0 < behind)
    (found : findSubstring memory string substring = some behind) :
    ∃ first, first < string.length ∧ behind = first + substring.length ∧
      substring <+: memory.drop (string.data + first) ∧
      ∀ earlier, earlier < first → ¬ substring <+: memory.drop (string.data + earlier) := by
  unfold findSubstring at found
  split at found
  · have same : 0 = behind := Option.some.inj found
    omega
  · obtain ⟨first, _, inside, ended, occurs, absent⟩ := findSubstringLoop_found positive found
    exact ⟨first, by omega, ended, occurs, fun earlier => absent earlier (Nat.zero_le _)⟩

/-- memcmp has a result when all its bytes can be read. -/
theorem memcmpEqual_total {memory : Memory} {address : Nat} {expected : Bytes}
    (readable : address + expected.length ≤ memory.length) :
    ∃ same, memcmpEqual memory address expected = some same := by
  rw [memcmpEqual_exact]
  split
  · exact ⟨_, rfl⟩
  · rename_i absent
    rw [if_neg]
    · exact ⟨_, rfl⟩
    · intro short
      have few := short.length_le
      rw [List.length_drop] at few
      have all : memory.drop address = expected :=
        short.eq_of_length (by rw [List.length_drop]; omega)
      exact absent (all ▸ List.prefix_rfl)

/-- A search has a result when the bytes can be read that it compares at its last index. -/
theorem findSubstringLoop_total {memory : Memory} {string : VStringView} {substring : Bytes}
    {remaining index : Nat}
    (readable : string.data + index + remaining + substring.length ≤ memory.length + 1) :
    ∃ behind, findSubstringLoop memory string substring remaining index = some behind := by
  induction remaining generalizing index with
  | zero => exact ⟨0, rfl⟩
  | succ remaining inductionHypothesis =>
    have here : string.data + index + substring.length ≤ memory.length := by omega
    obtain ⟨same, compared⟩ := memcmpEqual_total here
    simp only [findSubstringLoop, compared, Option.bind_eq_bind, Option.bind_some]
    split
    · exact ⟨_, rfl⟩
    · exact inductionHypothesis (by omega)

theorem findSubstring_total {memory : Memory} {string : VStringView} {substring : Bytes}
    (readable : string.data + string.length + substring.length ≤ memory.length + 1) :
    ∃ behind, findSubstring memory string substring = some behind := by
  unfold findSubstring
  split
  · exact ⟨0, rfl⟩
  · exact findSubstringLoop_total readable

/-- `VString_FindSubstring` finds a substring that begins inside the string and is the first
one in memory from there on. -/
theorem findSubstring_first (before front substring rest : Bytes) (length : Nat)
    (nonempty : substring ≠ []) (inside : front.length < length)
    (first : ∀ earlier later, front ++ substring ++ rest = earlier ++ substring ++ later →
      front.length ≤ earlier.length) :
    findSubstring (before ++ (front ++ substring ++ rest)) ⟨before.length, length⟩ substring =
      some (front.length + substring.length) := by
  have loop : ∀ (later earlier : Bytes) (remaining : Nat), earlier ++ later = front →
      later.length < remaining →
      findSubstringLoop (before ++ (front ++ substring ++ rest)) ⟨before.length, length⟩ substring
        remaining earlier.length = some (front.length + substring.length) := by
    intro later
    induction later with
    | nil =>
      intro earlier remaining split room
      obtain ⟨left, rfl⟩ : ∃ left, remaining = left + 1 := ⟨remaining - 1, by simp at room; omega⟩
      have same : earlier = front := by simpa using split
      simp [findSubstringLoop, memcmpEqual_exact, same]
    | cons byte others inductionHypothesis =>
      intro earlier remaining split room
      rw [List.length_cons] at room
      obtain ⟨left, rfl⟩ : ∃ left, remaining = left + 1 := ⟨remaining - 1, by omega⟩
      have dropped : (before ++ (front ++ substring ++ rest)).drop
          (before.length + earlier.length) = byte :: others ++ substring ++ rest := by
        simp [← split]
      have absent : ¬ substring <+: byte :: others ++ substring ++ rest := by
        rintro ⟨behind, same⟩
        have sooner := first earlier behind (by rw [List.append_assoc earlier, same, ← split]; simp)
        have size := congrArg List.length split
        simp only [List.length_append, List.length_cons] at size
        omega
      have long : ¬ byte :: others ++ substring ++ rest <+: substring := by
        intro shorter
        have size := shorter.length_le
        simp at size
        omega
      have tail := inductionHypothesis (earlier ++ [byte]) left (by simpa using split) (by omega)
      rw [List.length_append, List.length_singleton] at tail
      simp only [findSubstringLoop, memcmpEqual_exact, dropped, absent, long, ↓reduceIte,
        Option.bind_eq_bind, Option.bind_some, Bool.false_eq_true, tail]
  rw [findSubstring, if_neg (List.length_eq_zero_iff.not.mpr nonempty)]
  exact loop front [] length rfl inside

/-- `VString_FindFirstCharOccurence` finds a char behind bytes that do not contain it. -/
theorem findFirstCharOccurence_found (before bytes rest : Bytes) (char : UInt8) (length : Nat)
    (absent : char ∉ bytes) (inside : bytes.length < length) :
    findFirstCharOccurence (before ++ bytes ++ char :: rest) ⟨before.length, length⟩ char =
      some bytes.length := by
  have loop : ∀ (later earlier : Bytes) (remaining : Nat), earlier ++ later = bytes →
      later.length < remaining →
      findFirstLoop (before ++ bytes ++ char :: rest) ⟨before.length, length⟩ char remaining
        earlier.length = some bytes.length := by
    intro later
    induction later with
    | nil =>
      intro earlier remaining split room
      obtain ⟨left, rfl⟩ : ∃ left, remaining = left + 1 := ⟨remaining - 1, by simp at room; omega⟩
      have same : earlier = bytes := by simpa using split
      simp [findFirstLoop, same]
    | cons byte others inductionHypothesis =>
      intro earlier remaining split room
      rw [List.length_cons] at room
      obtain ⟨left, rfl⟩ : ∃ left, remaining = left + 1 := ⟨remaining - 1, by omega⟩
      have read : (before ++ bytes ++ char :: rest)[before.length + earlier.length]? =
          some byte := by
        rw [← split, ← List.length_append]
        have shape : before ++ (earlier ++ byte :: others) ++ char :: rest =
            (before ++ earlier) ++ byte :: (others ++ char :: rest) := by simp
        rw [shape]
        exact read_behind _ _ _
      have different : byte ≠ char := by
        rintro rfl
        exact absent (by simp [← split])
      have tail := inductionHypothesis (earlier ++ [byte]) left (by simpa using split) (by omega)
      simp only [findFirstLoop, read, Option.bind_eq_bind, Option.bind_some, different,
        ↓reduceIte]
      simpa using tail
  exact loop bytes [] length rfl inside

end VHttp
