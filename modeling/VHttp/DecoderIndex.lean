import VHttp.UrlDecoding

/-!
# The index of the url decoder

`VHttpRequest_DecodeUrl` with its index at its width: `Idx` is an int, compared with a length
that is a u64, and an int that overflows has no result. Where a '%' is looked behind only as
far as the url goes, this is the decoder that counts in naturals, as long as the url is shorter
than 2^31; a longer url takes the index over the end of the ints.
-/

namespace VHttp.Decoding

open VHttpRequest

/-- The look behind a '%', at `Idx + 1` and `Idx + 2`. -/
def escapeAt (memory : Memory) (url : VStringView) (index : Nat) :
    Option (Option (UInt8 × UInt8)) := do
  guard (index + 1 < 2 ^ 31)
  let first ← memory[url.data + index + 1]?
  if isXDigit first then
    guard (index + 2 < 2 ^ 31)
    let second ← memory[url.data + index + 2]?
    pure (if isXDigit second then some (first, second) else none)
  else pure none

/-- The loop of `VHttpRequest_DecodeUrl`; every round passes at least one byte of the url. -/
def decodeLoop (fresh : Nat → UInt8) (memory : Memory) (url : VStringView) :
    Nat → Nat → Nat → VString → Option VString
  | 0, _, _, _ => none
  | fuel + 1, index, count, string => do
    guard (index < 2 ^ 31)
    if index < url.length then
      let byte ← memory[url.data + index]?
      if byte = 37 then
        match ← escapeAt memory url index with
        | some (first, second) =>
          let string ← string.insert fresh count (strtolHex first second)
          decodeLoop fresh memory url fuel (index + 3) (count + 1) string
        | none =>
          let string ← string.insert fresh count byte
          decodeLoop fresh memory url fuel (index + 1) (count + 1) string
      else if byte = 43 then
        let string ← string.insert fresh count 32
        let string ← string.insert fresh (count + 1) byte
        decodeLoop fresh memory url fuel (index + 1) (count + 2) string
      else
        let string ← string.insert fresh count byte
        decodeLoop fresh memory url fuel (index + 1) (count + 1) string
    else some string

/-- `VHttpRequest_DecodeUrl`, into the string of the request. -/
def decodeUrl (fresh : Nat → UInt8) (memory : Memory) (url : VStringView) (string : VString) :
    Option VString :=
  decodeLoop fresh memory url (url.length + 1) 0 0 string

/-- Every '%' of the url has two bytes behind it there, or is seen to begin no escape. -/
def LooksInside (memory : Memory) (url : VStringView) : Prop :=
  ∀ index < url.length, memory[url.data + index]? = some 37 →
    index + 3 ≤ url.length ∨ escapeAt memory url index = some none

section Loop

variable {fresh : Nat → UInt8} {memory : Memory} {url : VStringView}

/-- A decoder that returns has counted over the url. -/
theorem decodeLoop_short {fuel index count : Nat} {string after : VString}
    (decoded : decodeLoop fresh memory url fuel index count string = some after) :
    url.length < 2 ^ 31 := by
  induction fuel generalizing index count string with
  | zero => cases decoded
  | succ fuel inductionHypothesis =>
    simp only [decodeLoop, Option.bind_eq_bind, Option.bind_eq_some_iff, Option.guard_eq_some']
      at decoded
    obtain ⟨_, int, decoded⟩ := decoded
    split at decoded
    · obtain ⟨byte, _, decoded⟩ := Option.bind_eq_some_iff.mp decoded
      split at decoded
      · obtain ⟨digits, _, decoded⟩ := Option.bind_eq_some_iff.mp decoded
        split at decoded
        · obtain ⟨_, _, decoded⟩ := Option.bind_eq_some_iff.mp decoded
          exact inductionHypothesis decoded
        · obtain ⟨_, _, decoded⟩ := Option.bind_eq_some_iff.mp decoded
          exact inductionHypothesis decoded
      · split at decoded
        · obtain ⟨_, _, decoded⟩ := Option.bind_eq_some_iff.mp decoded
          obtain ⟨_, _, decoded⟩ := Option.bind_eq_some_iff.mp decoded
          exact inductionHypothesis decoded
        · obtain ⟨_, _, decoded⟩ := Option.bind_eq_some_iff.mp decoded
          exact inductionHypothesis decoded
    · rename_i passed
      exact Nat.lt_of_le_of_lt (Nat.le_of_not_lt passed) int

/-- What the ints see behind a '%' is there. -/
theorem escapeAt_agrees {index : Nat} {seen : Option (UInt8 × UInt8)}
    (looked : escapeAt memory url index = some seen) :
    VHttpRequest.escapeAt memory (url.data + index + 1) = some seen := by
  simp only [escapeAt, Option.bind_eq_bind, Option.bind_eq_some_iff] at looked
  obtain ⟨_, _, first, read, looked⟩ := looked
  split at looked
  · rename_i digit
    simp only [Option.bind_eq_some_iff] at looked
    obtain ⟨_, _, second, next, looked⟩ := looked
    simp only [VHttpRequest.escapeAt, read, digit, next, looked, ↓reduceIte, Option.bind_eq_bind,
      Option.bind_some]
  · rename_i plain
    simp only [VHttpRequest.escapeAt, read, plain, looked, Bool.false_eq_true, ↓reduceIte,
      Option.bind_eq_bind, Option.bind_some]

/-- In front of the last two ints they see the same. -/
theorem escapeAt_eq {index : Nat} (int : index + 2 < 2 ^ 31) :
    escapeAt memory url index = VHttpRequest.escapeAt memory (url.data + index + 1) := by
  have near : index + 1 < 2 ^ 31 := by omega
  simp only [escapeAt, VHttpRequest.escapeAt, guard, near, int, ↓reduceIte, Option.bind_eq_bind,
    Option.pure_def, Option.bind_some, Nat.add_assoc]

/-- A byte that is no digit ends the look. -/
theorem escapeAt_first {index : Nat} {first : UInt8} (int : index + 1 < 2 ^ 31)
    (read : memory[url.data + index + 1]? = some first) (plain : isXDigit first = false) :
    escapeAt memory url index = some none := by
  simp only [escapeAt, guard, int, ↓reduceIte, read, plain, Bool.false_eq_true,
    Option.bind_eq_bind, Option.pure_def, Option.bind_some]

/-- So does one behind a digit. -/
theorem escapeAt_second {index : Nat} {first second : UInt8} (int : index + 2 < 2 ^ 31)
    (read : memory[url.data + index + 1]? = some first)
    (next : memory[url.data + index + 2]? = some second) (plain : isXDigit second = false) :
    escapeAt memory url index = some none := by
  have near : index + 1 < 2 ^ 31 := by omega
  by_cases digit : isXDigit first = true
  · simp only [escapeAt, guard, near, int, ↓reduceIte, read, next, digit, plain,
      Bool.false_eq_true, Option.bind_eq_bind, Option.pure_def, Option.bind_some]
  · exact escapeAt_first near read (Bool.eq_false_iff.mpr digit)

/-- As long as no escape takes the index behind a bound that is an int, the loop that counts
ints is the one that counts naturals. -/
theorem decodeLoop_agrees {bound : Nat} (short : bound < 2 ^ 31) (covers : url.length ≤ bound)
    (looks : ∀ index < url.length, memory[url.data + index]? = some 37 →
      index + 3 ≤ bound ∨ escapeAt memory url index = some none)
    {fuel index : Nat} (inside : index ≤ bound) (count : Nat) (string : VString) :
    decodeLoop fresh memory url fuel index count string =
      VHttpRequest.decodeLoop fresh memory url fuel index count string := by
  induction fuel generalizing index count string with
  | zero => rfl
  | succ fuel inductionHypothesis =>
    have int : index < 2 ^ 31 := Nat.lt_of_le_of_lt inside short
    simp only [decodeLoop, VHttpRequest.decodeLoop, guard, int, ↓reduceIte, Option.pure_def,
      Option.bind_eq_bind, Option.bind_some]
    by_cases more : index < url.length
    · have next := fun count string =>
        @inductionHypothesis (index + 1) (Nat.le_trans more covers) count string
      cases read : memory[url.data + index]? with
      | none => rfl
      | some byte =>
        simp only [more, ↓reduceIte, Option.bind_some, next]
        by_cases percent : byte = 37
        · subst percent
          simp only [↓reduceIte]
          rcases looks index more read with far | plain
          · have jump := fun count string => @inductionHypothesis (index + 3) far count string
            rw [escapeAt_eq (by omega)]
            cases VHttpRequest.escapeAt memory (url.data + index + 1) with
            | none => rfl
            | some digits =>
              cases digits with
              | none => rfl
              | some pair => simp only [Option.bind_some, jump]
          · rw [plain, escapeAt_agrees plain]
            rfl
        · simp only [percent, ↓reduceIte]
    · simp only [more, ↓reduceIte]

/-- What the decoder that counts ints makes of a url, the one that counts naturals makes. -/
theorem decodeLoop_naturals {fuel index count : Nat} {string after : VString}
    (decoded : decodeLoop fresh memory url fuel index count string = some after) :
    VHttpRequest.decodeLoop fresh memory url fuel index count string = some after := by
  induction fuel generalizing index count string with
  | zero => cases decoded
  | succ fuel inductionHypothesis =>
    simp only [decodeLoop, Option.bind_eq_bind, Option.bind_eq_some_iff] at decoded
    obtain ⟨_, _, decoded⟩ := decoded
    simp only [VHttpRequest.decodeLoop, Option.bind_eq_bind]
    split at decoded
    · rename_i more
      obtain ⟨byte, read, decoded⟩ := Option.bind_eq_some_iff.mp decoded
      rw [if_pos more, read, Option.bind_some]
      split at decoded
      · rename_i percent
        obtain ⟨digits, looked, decoded⟩ := Option.bind_eq_some_iff.mp decoded
        rw [if_pos percent, escapeAt_agrees looked, Option.bind_some]
        cases digits with
        | some pair =>
          obtain ⟨longer, inserted, decoded⟩ := Option.bind_eq_some_iff.mp decoded
          exact Option.bind_eq_some_iff.mpr ⟨longer, inserted, inductionHypothesis decoded⟩
        | none =>
          obtain ⟨longer, inserted, decoded⟩ := Option.bind_eq_some_iff.mp decoded
          exact Option.bind_eq_some_iff.mpr ⟨longer, inserted, inductionHypothesis decoded⟩
      · rename_i noPercent
        rw [if_neg noPercent]
        split at decoded
        · rename_i plus
          obtain ⟨longer, inserted, decoded⟩ := Option.bind_eq_some_iff.mp decoded
          obtain ⟨longest, again, decoded⟩ := Option.bind_eq_some_iff.mp decoded
          rw [if_pos plus]
          exact Option.bind_eq_some_iff.mpr ⟨longer, inserted,
            Option.bind_eq_some_iff.mpr ⟨longest, again, inductionHypothesis decoded⟩⟩
        · rename_i noPlus
          obtain ⟨longer, inserted, decoded⟩ := Option.bind_eq_some_iff.mp decoded
          rw [if_neg noPlus]
          exact Option.bind_eq_some_iff.mpr ⟨longer, inserted, inductionHypothesis decoded⟩
    · rename_i ended
      rw [if_neg ended]
      exact decoded

end Loop

/-- The two decoders agree on a url shorter than 2^31 whose escapes end inside it. -/
theorem decodeUrl_agrees (fresh : Nat → UInt8) {memory : Memory} {url : VStringView}
    (short : url.length < 2 ^ 31) (looks : LooksInside memory url) (string : VString) :
    decodeUrl fresh memory url string = VHttpRequest.decodeUrl fresh memory url string :=
  decodeLoop_agrees short (Nat.le_refl _) looks (Nat.zero_le _) 0 string

/-- They agree on every url that leaves room for an escape that reaches over its end. -/
theorem decodeUrl_eq (fresh : Nat → UInt8) (memory : Memory) {url : VStringView}
    (short : url.length + 2 < 2 ^ 31) (string : VString) :
    decodeUrl fresh memory url string = VHttpRequest.decodeUrl fresh memory url string :=
  decodeLoop_agrees short (Nat.le_add_right _ _) (fun _ inside _ => Or.inl (by omega))
    (Nat.zero_le _) 0 string

end VHttp.Decoding
