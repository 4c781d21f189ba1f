import VHttp.Foundations.Cutting
import VHttp.StringViews
import VHttp.WorkerSteps

/-!
# The search for a substring

`VString_FindSubstring` with its variables at their widths: `SubstringLen` and `Idx` are ints,
and memcmp takes the length as a size_t, which may lead it behind the terminator of the
substring. An int that overflows has no result.

The search compares at every index of the string, also where the substring does not fit in
front of its end. It then sees what an earlier message left in the block, or comes to the end
of the block.
-/

namespace VHttp.Searching

open Delimiters

/-- memcmp of what lies at an address with as many of these bytes as are counted. -/
def memcmpFor (memory : Memory) : Nat → Bytes → Nat → Option Bool
  | _, _, 0 => some true
  | _, [], _ + 1 => none
  | address, expected :: rest, count + 1 => do
    let byte ← memory[address]?
    if byte = expected then memcmpFor memory (address + 1) rest count else some false

/-- `SubstringLen`: the result of strlen as an s32. -/
def substringLen (substring : CString) : Int := Int.bmod substring.1.length (2 ^ 32)

/-- It as a size_t. -/
def compareLen (substring : CString) : Nat := (substringLen substring % 2 ^ 64).toNat

/-- The loop of `VString_FindSubstring`, over the indices left to try: the result is an int
that is returned as a u64. -/
def findSubstringLoop (memory : Memory) (string : VStringView) (substring : CString) :
    Nat → Nat → Option Nat
  | 0, index => do
    guard (index < 2 ^ 31)
    some 0
  | remaining + 1, index => do
    guard (index < 2 ^ 31)
    let same ← memcmpFor memory (string.data + index) (substring.1 ++ [0]) (compareLen substring)
    if same then
      let behind := index + substringLen substring
      guard (behind < 2 ^ 31)
      some (behind % 2 ^ 64).toNat
    else findSubstringLoop memory string substring remaining (index + 1)

/-- `VString_FindSubstring`. -/
def findSubstring (memory : Memory) (string : VStringView) (substring : CString) : Option Nat :=
  if substringLen substring = 0 then some 0
  else findSubstringLoop memory string substring string.length 0

/-- What a search owes: the offset behind the first occurrence, or 0. -/
def endOfFirst (content substring : Bytes) : Nat :=
  match firstOccurrence substring content with
  | some index => index + substring.length
  | none => 0

/-- The search keeps to the string, whatever lies behind it in the block. -/
structure FindsFirst (content stale : Bytes) (substring : CString) : Prop where
  found : findSubstring (content ++ stale) ⟨0, content.length⟩ substring =
    some (endOfFirst content substring.1)
  inside : endOfFirst content substring.1 ≤ content.length

/-- Two byte strings differ at a place that both have. -/
def Differ (first second : Bytes) : Prop := ¬ first <+: second ∧ ¬ second <+: first

instance (first second : Bytes) : Decidable (Differ first second) :=
  inferInstanceAs (Decidable (_ ∧ _))

/-- The bytes that a search compares with: the substring, if it is shorter than 2^31. -/
def compared (substring : CString) : Bytes := (substring.1 ++ [0]).take (compareLen substring)

/-- There is an occurrence that an int can tell the end of. Or there is none, and at no index
of the string do the bytes from there on, stale ones included, begin the substring or go on
with it up to the end of the block. -/
def Searchable (content stale : Bytes) (substring : CString) : Prop :=
  match firstOccurrence substring.1 content with
  | some index => index + substring.1.length < 2 ^ 31
  | none => substringLen substring = 0 ∨ content.length < 2 ^ 31 ∧
      ∀ index < content.length, Differ (compared substring) ((content ++ stale).drop index)

section Compare

variable {substring : CString}

/-- memcmp for a count: it reads behind the bytes it is given if these are too few. -/
theorem memcmpFor_exact (memory : Memory) (address : Nat) (bytes : Bytes) (count : Nat) :
    memcmpFor memory address bytes count =
      if bytes.take count <+: memory.drop address then
        if count ≤ bytes.length then some true else none
      else if memory.drop address <+: bytes.take count then none
      else some false := by
  induction bytes generalizing address count with
  | nil => cases count <;> simp [memcmpFor]
  | cons expected rest inductionHypothesis =>
    cases count with
    | zero => simp [memcmpFor]
    | succ count =>
      cases read : memory[address]? with
      | none =>
        have ended : memory.drop address = [] :=
          List.drop_eq_nil_of_le (List.getElem?_eq_none_iff.mp read)
        simp [memcmpFor, read, ended]
      | some found =>
        obtain ⟨inside, same⟩ := List.getElem?_eq_some_iff.mp read
        have opened : memory.drop address = found :: memory.drop (address + 1) := by
          rw [List.drop_eq_getElem_cons inside, same]
        simp only [memcmpFor, read, Option.bind_eq_bind, Option.bind_some, opened,
          List.take_succ_cons, List.cons_prefix_cons, List.length_cons, Nat.add_le_add_iff_right]
        by_cases equal : found = expected
        · simp only [equal, ↓reduceIte, true_and, inductionHypothesis]
        · simp [equal, Ne.symm equal]

/-- It finds a difference exactly if there is one to find. -/
theorem memcmpFor_differs (memory : Memory) (address : Nat) (bytes : Bytes) (count : Nat) :
    memcmpFor memory address bytes count = some false ↔
      Differ (bytes.take count) (memory.drop address) := by
  rw [memcmpFor_exact, Differ]
  split
  · split <;> simp_all
  · split <;> simp_all

theorem substringLen_bounds (substring : CString) :
    -2 ^ 31 ≤ substringLen substring ∧ substringLen substring < 2 ^ 31 := by
  have above := @Int.le_bmod substring.1.length (2 ^ 32) (Nat.two_pow_pos 32)
  have below := @Int.bmod_lt substring.1.length (2 ^ 32) (Nat.two_pow_pos 32)
  have same : substringLen substring = Int.bmod substring.1.length (2 ^ 32) := rfl
  omega

/-- The length of a substring that is shorter than 2^31. -/
theorem substringLen_short (short : substring.1.length < 2 ^ 31) :
    substringLen substring = substring.1.length := by
  have width : ((2 ^ 32 : Nat) : Int) = 4294967296 := by norm_cast
  refine Int.bmod_eq_of_le ?_ ?_
  · rw [width]
    omega
  · rw [width]
    omega

theorem compareLen_short (short : substring.1.length < 2 ^ 31) :
    compareLen substring = substring.1.length := by
  rw [compareLen, substringLen_short short]
  omega

/-- With a substring shorter than 2^31, memcmp compares its bytes. -/
theorem memcmpFor_short (short : substring.1.length < 2 ^ 31) (memory : Memory) (address : Nat) :
    memcmpFor memory address (substring.1 ++ [0]) (compareLen substring) =
      memcmpEqual memory address substring.1 := by
  have counted : substring.1.length ≤ (substring.1 ++ [0]).length := by
    rw [List.length_append]
    exact Nat.le_add_right _ _
  rw [memcmpFor_exact, memcmpEqual_exact, compareLen_short short, List.take_left, if_pos counted]

/-- A length that has become negative counts behind the substring, so that a match has a
positive one. -/
theorem memcmpFor_positive {memory : Memory} {address : Nat}
    (addressable : substring.1.length < 2 ^ 63) (nonzero : substringLen substring ≠ 0)
    (same : memcmpFor memory address (substring.1 ++ [0]) (compareLen substring) = some true) :
    0 < substringLen substring := by
  have counted : compareLen substring ≤ substring.1.length + 1 := by
    rw [memcmpFor_exact, List.length_append, List.length_singleton] at same
    by_contra more
    simp only [more, ↓reduceIte] at same
    split at same
    · cases same
    · split at same <;> cases same
  have bounds := substringLen_bounds substring
  rw [compareLen] at counted
  omega

end Compare

section Loop

variable {memory : Memory} {string : VStringView} {substring : CString}

/-- The result is an int. -/
theorem findSubstringLoop_int (addressable : substring.1.length < 2 ^ 63)
    (nonzero : substringLen substring ≠ 0) {remaining index behind : Nat}
    (found : findSubstringLoop memory string substring remaining index = some behind) :
    behind < 2 ^ 31 := by
  induction remaining generalizing index with
  | zero =>
    simp only [findSubstringLoop, Option.bind_eq_bind, Option.bind_eq_some_iff,
      Option.some.injEq] at found
    omega
  | succ remaining inductionHypothesis =>
    simp only [findSubstringLoop, Option.bind_eq_bind, Option.bind_eq_some_iff] at found
    obtain ⟨_, _, same, isSame, result⟩ := found
    cases same with
    | true =>
      have positive := memcmpFor_positive addressable nonzero isSame
      simp only [↓reduceIte, Option.bind_eq_some_iff, Option.guard_eq_some', Option.some.injEq]
        at result
      omega
    | false => exact inductionHypothesis result

/-- Nothing is found exactly if the index stays an int and there is a difference at each. -/
theorem findSubstringLoop_zero_iff (memory : Memory) (string : VStringView)
    (addressable : substring.1.length < 2 ^ 63) (nonzero : substringLen substring ≠ 0)
    (remaining index : Nat) :
    findSubstringLoop memory string substring remaining index = some 0 ↔
      index + remaining < 2 ^ 31 ∧ ∀ place, index ≤ place → place < index + remaining →
        Differ (compared substring) (memory.drop (string.data + place)) := by
  induction remaining generalizing index with
  | zero =>
    simp only [findSubstringLoop, Option.bind_eq_bind, Option.bind_eq_some_iff,
      Option.guard_eq_some', and_true, exists_const, Nat.add_zero]
    exact ⟨fun int => ⟨int, fun place _ _ => by omega⟩, fun found => found.1⟩
  | succ remaining inductionHypothesis =>
    have next : index + 1 + remaining = index + (remaining + 1) := by omega
    have here := memcmpFor_differs memory (string.data + index) (substring.1 ++ [0])
      (compareLen substring)
    rw [← compared] at here
    simp only [findSubstringLoop, Option.bind_eq_bind, Option.bind_eq_some_iff]
    constructor
    · rintro ⟨_, _, same, isSame, result⟩
      cases same with
      | true =>
        have positive := memcmpFor_positive addressable nonzero isSame
        simp only [↓reduceIte, Option.bind_eq_some_iff, Option.guard_eq_some', Option.some.injEq]
          at result
        omega
      | false =>
        obtain ⟨int, later⟩ := (inductionHypothesis (index + 1)).mp result
        refine ⟨by omega, fun place above below => ?_⟩
        by_cases first : place = index
        · rw [first]
          exact here.mp isSame
        · exact later place (by omega) (by omega)
    · rintro ⟨int, differ⟩
      have inside : index < 2 ^ 31 := by omega
      refine ⟨(), (Option.guard_eq_some' _).mpr inside, false,
        here.mpr (differ index (Nat.le_refl _) (by omega)), ?_⟩
      exact (inductionHypothesis (index + 1)).mpr
        ⟨by omega, fun place above below => differ place (by omega) (by omega)⟩

/-- What the search that counts in naturals finds below 2^31, this one finds. -/
theorem findSubstringLoop_agrees (short : substring.1.length < 2 ^ 31)
    {remaining index behind : Nat} (positive : 0 < behind) (int : behind < 2 ^ 31)
    (found : VHttp.findSubstringLoop memory string substring.1 remaining index = some behind) :
    findSubstringLoop memory string substring remaining index = some behind := by
  induction remaining generalizing index with
  | zero =>
    obtain rfl : 0 = behind := Option.some.inj found
    omega
  | succ remaining inductionHypothesis =>
    obtain ⟨first, later, _, ended, _⟩ := findSubstringLoop_found positive found
    have inside : index < 2 ^ 31 := by omega
    simp only [VHttp.findSubstringLoop, Option.bind_eq_bind, Option.bind_eq_some_iff] at found
    obtain ⟨same, isSame, result⟩ := found
    simp only [findSubstringLoop, guard, inside, ↓reduceIte, Option.bind_eq_bind, Option.pure_def,
      Option.bind_some, memcmpFor_short short, isSame]
    cases same with
    | true =>
      have isEnd : index + substring.1.length = behind := Option.some.inj result
      have ends : (index : Int) + substring.1.length < 2 ^ 31 := by omega
      simp only [↓reduceIte, substringLen_short short, ends, Option.bind_some, Option.some.injEq]
      omega
    | false => exact inductionHypothesis result

/-- What this search finds, the one that counts in naturals finds. -/
theorem findSubstringLoop_naturals (short : substring.1.length < 2 ^ 31)
    {remaining index behind : Nat} (positive : 0 < behind)
    (found : findSubstringLoop memory string substring remaining index = some behind) :
    VHttp.findSubstringLoop memory string substring.1 remaining index = some behind := by
  induction remaining generalizing index with
  | zero =>
    simp only [findSubstringLoop, Option.bind_eq_bind, Option.bind_eq_some_iff,
      Option.some.injEq] at found
    omega
  | succ remaining inductionHypothesis =>
    simp only [findSubstringLoop, memcmpFor_short short, substringLen_short short,
      Option.bind_eq_bind, Option.bind_eq_some_iff] at found
    obtain ⟨_, _, same, isSame, result⟩ := found
    refine Option.bind_eq_some_iff.mpr ⟨same, isSame, ?_⟩
    cases same with
    | true =>
      simp only [↓reduceIte, Option.bind_eq_some_iff, Option.guard_eq_some', Option.some.injEq]
        at result
      simp only [↓reduceIte, Option.some.injEq]
      omega
    | false => exact inductionHypothesis result

/-- Where every offset that can be returned is an int, the two searches are the same. -/
theorem findSubstringLoop_eq (memory : Memory) (string : VStringView) {substring : CString}
    {remaining index : Nat} (short : index + remaining + substring.1.length < 2 ^ 31) :
    findSubstringLoop memory string substring remaining index =
      VHttp.findSubstringLoop memory string substring.1 remaining index := by
  have int : index < 2 ^ 31 := by omega
  have few : substring.1.length < 2 ^ 31 := by omega
  induction remaining generalizing index with
  | zero =>
    simp only [findSubstringLoop, VHttp.findSubstringLoop, guard, int, ↓reduceIte,
      Option.pure_def, Option.bind_eq_bind, Option.bind_some]
  | succ remaining inductionHypothesis =>
    have ends : (index : Int) + substring.1.length < 2 ^ 31 := by omega
    have width : (((index : Int) + substring.1.length) % 2 ^ 64).toNat =
        index + substring.1.length := by omega
    have later := inductionHypothesis
      (by omega : index + 1 + remaining + substring.1.length < 2 ^ 31) (by omega)
    simp only [findSubstringLoop, VHttp.findSubstringLoop, guard, int, ↓reduceIte, ends, width,
      Option.pure_def, Option.bind_eq_bind, Option.bind_some, memcmpFor_short few,
      substringLen_short few, later]

theorem findSubstring_eq (memory : Memory) {string : VStringView} {substring : CString}
    (short : string.length + substring.1.length < 2 ^ 31) :
    findSubstring memory string substring = VHttp.findSubstring memory string substring.1 := by
  have few : substring.1.length < 2 ^ 31 := by omega
  rw [findSubstring, VHttp.findSubstring, substringLen_short few,
    findSubstringLoop_eq memory string (by omega)]
  simp only [Int.natCast_eq_zero]

end Loop

/-- "\r\n\r\n" as a C string. -/
def headEndString : CString := ⟨ascii "\r\n\r\n", by decide⟩

section Worker

/-- What a search finds in a block it finds in any longer memory. -/
theorem memcmpFor_longer {memory : Memory} (more : Memory) {address : Nat} {bytes : Bytes}
    {count : Nat} {same : Bool} (compared : memcmpFor memory address bytes count = some same) :
    memcmpFor (memory ++ more) address bytes count = some same := by
  induction bytes generalizing address count with
  | nil =>
    cases count with
    | zero => exact compared
    | succ count => cases compared
  | cons expected rest inductionHypothesis =>
    cases count with
    | zero => exact compared
    | succ count =>
      simp only [memcmpFor, Option.bind_eq_bind, Option.bind_eq_some_iff] at compared ⊢
      obtain ⟨byte, read, further⟩ := compared
      refine ⟨byte, ?_, ?_⟩
      · rw [List.getElem?_append_left (List.getElem?_eq_some_iff.mp read).1]
        exact read
      · by_cases equal : byte = expected
        · rw [if_pos equal] at further ⊢
          exact inductionHypothesis further
        · rw [if_neg equal] at further ⊢
          exact further

theorem findSubstringLoop_longer {memory : Memory} (more : Memory) {string : VStringView}
    {substring : CString} {remaining index behind : Nat}
    (found : findSubstringLoop memory string substring remaining index = some behind) :
    findSubstringLoop (memory ++ more) string substring remaining index = some behind := by
  induction remaining generalizing index with
  | zero => exact found
  | succ remaining inductionHypothesis =>
    rw [findSubstringLoop, Option.bind_eq_bind, Option.bind_eq_some_iff] at found ⊢
    obtain ⟨int, isInt, found⟩ := found
    rw [Option.bind_eq_bind, Option.bind_eq_some_iff] at found ⊢
    obtain ⟨same, isSame, result⟩ := found
    refine ⟨int, isInt, same, memcmpFor_longer more isSame, ?_⟩
    cases same with
    | true =>
      rw [if_pos rfl] at result ⊢
      exact result
    | false =>
      rw [if_neg Bool.false_ne_true] at result ⊢
      exact inductionHypothesis result

/-- A worker whose search keeps to what it has peeked asks to discard no more than that. -/
theorem peek_discards_inside {worker after : Worker} {bytes behind : Bytes} {requestSize : Nat}
    (peeking : worker.phase = .peeking) (peeked : worker.peek (.data bytes) behind = some after)
    (discarding : after.phase = .discarding requestSize)
    (finds : FindsFirst bytes (worker.stringPool.block.drop bytes.length) headEndString) :
    requestSize ≤ bytes.length := by
  cases bytes with
  | nil =>
    obtain rfl := Option.some.inj peeked
    cases discarding
  | cons byte rest =>
    simp only [Worker.peek, Option.bind_eq_bind, Option.bind_eq_some_iff, Option.guard_eq_some']
      at peeked
    obtain ⟨_, few, block, stored, searched⟩ := peeked
    rcases Worker.search_cases searched with ⟨size, positive, found, rfl⟩ | rfl | refused
    · obtain rfl : size = requestSize := by cases discarding; rfl
      rw [Memory.writeRange, Option.ite_none_right_eq_some, Option.some.injEq] at stored
      obtain ⟨_, rfl⟩ := stored
      simp only [List.take_zero, List.nil_append, Nat.zero_add] at found
      have nonzero : substringLen headEndString ≠ 0 := by decide
      have four : (ascii "\r\n\r\n").length = 4 := by decide
      have exact := finds.found
      rw [findSubstring, if_neg nonzero] at exact
      obtain ⟨first, inside, ended, _⟩ := findSubstring_found positive found
      rw [VHttp.findSubstring, if_neg (by decide)] at found
      have int : size < 2 ^ 31 := by
        have room : Worker.poolCapacity < 2 ^ 30 := by decide
        change first < (byte :: rest).length at inside
        omega
      have also := @findSubstringLoop_agrees _ _ headEndString (by decide) _ _ _ positive int
        found
      have same := (findSubstringLoop_longer behind exact).symm.trans also
      rw [← Option.some.inj same]
      exact finds.inside
    · have other : worker.phase = .discarding requestSize := discarding
      rw [peeking] at other
      cases other
    · obtain ⟨refusing, _⟩ := Worker.refuse_cases refused
      rw [refusing] at discarding
      cases discarding

end Worker

/-- For every string, whatever lies behind it in its block, and every substring that is not
empty and fits the address space, the search returns the end of the first occurrence in the
string, or 0 if there is none, exactly if the occurrence ends below 2^31, or the string is
shorter than 2^31 and differs from the substring at every index of the string, together with
what lies behind it in the block. -/
theorem finds_first_iff (content stale : Bytes) (substring : CString) (nonempty : substring.1 ≠ [])
    (addressable : substring.1.length < 2 ^ 63) :
    FindsFirst content stale substring ↔ Searchable content stale substring := by
  have positive : 0 < substring.1.length := List.length_pos_iff.mpr nonempty
  rcases first_cases substring.1 positive content with absent | ⟨front, rest, rfl, first⟩
  · have none := firstOccurrence_absent absent
    have nothing : endOfFirst content substring.1 = 0 := by rw [endOfFirst, none]
    have searched : FindsFirst content stale substring ↔
        findSubstring (content ++ stale) ⟨0, content.length⟩ substring = some 0 := by
      refine ⟨fun finds => ?_, fun found => ⟨?_, ?_⟩⟩
      · have found := finds.found
        rwa [nothing] at found
      · rw [nothing]
        exact found
      · rw [nothing]
        exact Nat.zero_le _
    rw [searched, Searchable, none, findSubstring]
    by_cases zero : substringLen substring = 0
    · simp only [zero, ↓reduceIte, true_or]
    · have loop := findSubstringLoop_zero_iff (content ++ stale) ⟨0, content.length⟩ addressable
        zero content.length 0
      simpa only [zero, ↓reduceIte, false_or, Nat.zero_add, Nat.zero_le, true_implies] using loop
  · have isFirst := firstOccurrence_first positive first rest
    have ends : endOfFirst (front ++ substring.1 ++ rest) substring.1 =
        front.length + substring.1.length := by rw [endOfFirst, isFirst]
    rw [Searchable, isFirst]
    constructor
    · intro finds
      have found := finds.found
      rw [ends, findSubstring] at found
      by_cases zero : substringLen substring = 0
      · rw [if_pos zero, Option.some.injEq] at found
        omega
      · rw [if_neg zero] at found
        exact findSubstringLoop_int addressable zero found
    · intro int
      have short : substring.1.length < 2 ^ 31 := by omega
      have nonzero : substringLen substring ≠ 0 := by
        rw [substringLen_short short]
        omega
      have found := findSubstring_first [] front substring.1 (rest ++ stale)
        (front ++ substring.1 ++ rest).length nonempty
        (by simp only [List.length_append]; omega) (fun _ _ same => first.leftmost positive same)
      rw [List.nil_append, ← List.append_assoc _ rest, List.length_nil, VHttp.findSubstring,
        if_neg (Nat.ne_of_gt positive)] at found
      refine ⟨?_, ?_⟩
      · rw [ends, findSubstring, if_neg nonzero]
        exact findSubstringLoop_agrees short (by omega) int found
      · rw [ends]
        simp only [List.length_append]
        omega

/-- A head of which the last byte is missing, in a block where an x follows. -/
theorem finds_first_iff_incomplete : FindsFirst (ascii "a\r\n\r") (ascii "x") headEndString :=
  (finds_first_iff (ascii "a\r\n\r") (ascii "x") headEndString (by decide) (by decide)).mpr (by
    rw [Searchable, show firstOccurrence headEndString.1 (ascii "a\r\n\r") = none by decide]
    exact Or.inr (by decide))

/-- In a block where a line feed follows, the search goes beyond the string. -/
theorem stale_byte_is_found : ¬ ∀ (content stale : Bytes) (substring : CString),
    substring.1 ≠ [] → substring.1.length < 2 ^ 63 → FindsFirst content stale substring := by
  intro always
  have finds := always (ascii "\r\n\r") (ascii "\n") headEndString (by decide) (by decide)
  exact absurd finds.found (by decide)

end VHttp.Searching
