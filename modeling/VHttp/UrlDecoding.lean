import VHttp.HttpRequest
import VHttp.StringBuilding

/-!
# What the decoder makes of a url

The decoder inserts at a counter that starts at zero, so its output goes in front of what
the string held before. In front of a byte that is no hexadecimal digit it sees no escape
that reaches over the end of the url, and what it inserts is a function of the url's bytes:
each escape becomes its byte, a '+' becomes a blank and a '+', and every other byte is
copied.
-/

namespace VHttp.VHttpRequest

/-- The bytes that the decoder inserts for a url. -/
def percentDecode : Bytes → Bytes
  | [] => []
  | byte :: rest =>
    if byte = 37 then
      match rest with
      | first :: second :: others =>
        if isXDigit first && isXDigit second then
          strtolHex first second :: percentDecode others
        else byte :: percentDecode (first :: second :: others)
      | [first] => byte :: percentDecode [first]
      | [] => [byte]
    else if byte = 43 then 32 :: byte :: percentDecode rest
    else byte :: percentDecode rest

/-- Decoding at most doubles a url: the '+' is kept behind its blank. -/
theorem percentDecode_length (url : Bytes) : (percentDecode url).length ≤ 2 * url.length := by
  fun_induction percentDecode url <;> simp only [List.length_cons, List.length_nil] at * <;> omega

/-- The escape that a url's bytes behind a '%' make. -/
def escapeIn : Bytes → Option (UInt8 × UInt8)
  | first :: second :: _ => if isXDigit first && isXDigit second then some (first, second) else none
  | _ => none

/-- An escape has two digits. -/
theorem escapeIn_some {bytes : Bytes} {first second : UInt8}
    (escaped : escapeIn bytes = some (first, second)) :
    ∃ others, bytes = first :: second :: others := by
  rcases bytes with _ | ⟨one, _ | ⟨two, others⟩⟩
  · cases escaped
  · cases escaped
  · simp only [escapeIn, Option.ite_none_right_eq_some, Option.some.injEq,
      Prod.mk.injEq] at escaped
    exact ⟨others, by rw [escaped.2.1, escaped.2.2]⟩

/-- A '%' stands for its escape, or for itself. -/
theorem percentDecode_percent (rest : Bytes) :
    percentDecode (37 :: rest) =
      match escapeIn rest with
      | some (first, second) => strtolHex first second :: percentDecode (rest.drop 2)
      | none => 37 :: percentDecode rest := by
  match rest with
  | [] => simp [percentDecode, escapeIn]
  | [first] => simp [percentDecode, escapeIn]
  | first :: second :: others =>
    by_cases digits : (isXDigit first && isXDigit second) = true
    · simp only [percentDecode, escapeIn, digits, ↓reduceIte, List.drop_succ_cons, List.drop_zero]
    · rw [percentDecode]
      simp only [escapeIn, digits, ↓reduceIte, Bool.false_eq_true]

theorem percentDecode_plus (rest : Bytes) :
    percentDecode (43 :: rest) = 32 :: 43 :: percentDecode rest := by
  rw [percentDecode.eq_def]
  simp

theorem percentDecode_plain {byte : UInt8} (rest : Bytes) (noPercent : byte ≠ 37)
    (noPlus : byte ≠ 43) : percentDecode (byte :: rest) = byte :: percentDecode rest := by
  rw [percentDecode.eq_def]
  simp [noPercent, noPlus]

/-- A look ahead in front of a byte that is no digit sees the escape of the url's bytes. -/
theorem escapeAt_exact (before left rest : Bytes) {stop : UInt8} (plain : isXDigit stop = false) :
    escapeAt (before ++ left ++ stop :: rest) before.length = some (escapeIn left) := by
  match left with
  | [] =>
    have read : (before ++ [] ++ stop :: rest)[before.length]? = some stop := by simp
    simp only [escapeAt, read, Option.bind_eq_bind, Option.bind_some, plain, Bool.false_eq_true,
      ↓reduceIte, Option.pure_def, escapeIn]
  | [first] =>
    have read : (before ++ [first] ++ stop :: rest)[before.length]? = some first := by simp
    have next : (before ++ [first] ++ stop :: rest)[before.length + 1]? = some stop := by simp
    by_cases digit : isXDigit first = true
    · simp only [escapeAt, read, next, Option.bind_eq_bind, Option.bind_some, digit, plain,
        Bool.false_eq_true, ↓reduceIte, Option.pure_def, escapeIn]
    · simp only [escapeAt, read, Option.bind_eq_bind, Option.bind_some, digit,
        Bool.false_eq_true, ↓reduceIte, Option.pure_def, escapeIn]
  | first :: second :: others =>
    have read : (before ++ first :: second :: others ++ stop :: rest)[before.length]? =
        some first := by simp
    have next : (before ++ first :: second :: others ++ stop :: rest)[before.length + 1]? =
        some second := by simp
    by_cases digit : isXDigit first = true
    · simp only [escapeAt, read, next, Option.bind_eq_bind, Option.bind_some, digit, ↓reduceIte,
        Option.pure_def, escapeIn, Bool.true_and]
    · simp only [escapeAt, read, Option.bind_eq_bind, Option.bind_some, digit, escapeIn,
        Bool.false_eq_true, Bool.false_and, ↓reduceIte, Option.pure_def]

/-- Behind each '%' of a url the decoder sees the escape of the url's own bytes. -/
def SeesOwn (url rest : Bytes) : Prop :=
  ∀ front left, url = front ++ 37 :: left → ∀ before,
    escapeAt (before ++ left ++ rest) before.length = some (escapeIn left)

theorem SeesOwn.behind {passed later rest : Bytes} (sees : SeesOwn (passed ++ later) rest) :
    SeesOwn later rest := by
  intro front left split
  exact sees (passed ++ front) left (by rw [split, List.append_assoc])

/-- The decoding loop, from behind the part of the url it has passed: it inserts the rest's
bytes behind those it has inserted, in front of what the string held. -/
theorem decodeLoop_exact (fresh : Nat → UInt8) (before rest : Bytes) (fuel : Nat)
    (seen left front tail : Bytes) (sees : SeesOwn left rest) (string : VString)
    (valid : string.Valid) (contents : string.content = front ++ tail)
    (enough : left.length < fuel) :
    ∃ after, decodeLoop fresh (before ++ (seen ++ left) ++ rest)
        ⟨before.length, (seen ++ left).length⟩ fuel seen.length front.length string = some after ∧
      after.Valid ∧ after.content = front ++ percentDecode left ++ tail := by
  induction fuel generalizing seen left front string with
  | zero => omega
  | succ fuel inductionHypothesis =>
    cases left with
    | nil => exact ⟨string, by simp [decodeLoop], valid, by simpa [percentDecode] using contents⟩
    | cons byte left =>
      -- From a part of the url that was passed on.
      have onward : ∀ (passed later front : Bytes) (current : VString) (next count : Nat),
          byte :: left = passed ++ later → passed ≠ [] → next = seen.length + passed.length →
          count = front.length → current.Valid → current.content = front ++ tail →
          ∃ after, decodeLoop fresh (before ++ (seen ++ byte :: left) ++ rest)
              ⟨before.length, (seen ++ byte :: left).length⟩ fuel next count current = some after ∧
            after.Valid ∧ after.content = front ++ percentDecode later ++ tail := by
        intro passed later front current next count split nonempty sameNext sameCount valid contents
        have shorter := congrArg List.length split
        have positive := List.length_pos_iff.mpr nonempty
        simp only [List.length_cons, List.length_append] at shorter enough
        obtain ⟨after, returned, result⟩ := inductionHypothesis (seen ++ passed) later front
          (split ▸ sees).behind current valid contents (by omega)
        have size : (seen ++ passed).length = next := List.length_append.trans sameNext.symm
        rw [List.append_assoc seen passed, ← split, size, ← sameCount] at returned
        exact ⟨after, returned, result⟩
      have within : seen.length < (seen ++ byte :: left).length := by simp
      have read : (before ++ (seen ++ byte :: left) ++ rest)[before.length + seen.length]? =
          some byte := by
        rw [read_inside before (seen ++ byte :: left) _ seen.length within]
        simp
      simp only [decodeLoop, within, ↓reduceIte, read, Option.bind_eq_bind, Option.bind_some]
      by_cases percent : byte = 37
      · subst percent
        have looked : escapeAt (before ++ (seen ++ 37 :: left) ++ rest)
            (before.length + seen.length + 1) = some (escapeIn left) := by
          have own := sees [] left rfl (before ++ seen ++ [37])
          simpa [Nat.add_assoc] using own
        simp only [↓reduceIte, looked, Option.bind_some, percentDecode_percent]
        cases escaped : escapeIn left with
        | none =>
          obtain ⟨middle, inserted, still, total⟩ := valid.insert_between contents fresh 37
          obtain ⟨after, returned, result⟩ := onward [37] left (front ++ [37]) middle
            (seen.length + 1) (front.length + 1) rfl (by simp) rfl (by simp) still total
          simp only [inserted, Option.bind_some]
          exact ⟨after, returned, by simpa using result⟩
        | some digits =>
          obtain ⟨first, second⟩ := digits
          obtain ⟨others, rfl⟩ := escapeIn_some escaped
          obtain ⟨middle, inserted, still, total⟩ :=
            valid.insert_between contents fresh (strtolHex first second)
          obtain ⟨after, returned, result⟩ := onward [37, first, second] others
            (front ++ [strtolHex first second]) middle (seen.length + 3) (front.length + 1) rfl
            (by simp) rfl (by simp) still total
          simp only [inserted, Option.bind_some]
          exact ⟨after, returned, by simpa using result⟩
      · by_cases plus : byte = 43
        · subst plus
          obtain ⟨blank, inserted, still, total⟩ := valid.insert_between contents fresh 32
          obtain ⟨middle, again, stillValid, both⟩ := still.insert_between total fresh 43
          obtain ⟨after, returned, result⟩ := onward [43] left (front ++ [32] ++ [43]) middle
            (seen.length + 1) (front.length + 2) rfl (by simp) rfl (by simp) stillValid both
          rw [List.length_append, List.length_singleton] at again
          simp only [show ¬ (43 : UInt8) = 37 by decide, ↓reduceIte, inserted, again,
            Option.bind_some]
          exact ⟨after, returned, by simpa [percentDecode_plus] using result⟩
        · obtain ⟨middle, inserted, still, total⟩ := valid.insert_between contents fresh byte
          obtain ⟨after, returned, result⟩ := onward [byte] left (front ++ [byte]) middle
            (seen.length + 1) (front.length + 1) rfl (by simp) rfl (by simp) still total
          simp only [percent, plus, ↓reduceIte, inserted, Option.bind_some]
          exact ⟨after, returned, by simpa [percentDecode_plain left percent plus] using result⟩

/-- `VHttpRequest_DecodeUrl` of a url that shows its own escapes puts what it decodes in front
of what the string held. -/
theorem decodeUrl_own (fresh : Nat → UInt8) (before url rest : Bytes) (sees : SeesOwn url rest)
    (string : VString) (valid : string.Valid) :
    ∃ after, decodeUrl fresh (before ++ url ++ rest) ⟨before.length, url.length⟩ string =
      some after ∧ after.Valid ∧ after.content = percentDecode url ++ string.content :=
  decodeLoop_exact fresh before rest (url.length + 1) [] url [] string.content sees string valid
    rfl (Nat.lt_succ_self _)

/-- A url in front of a byte that is no digit does. -/
theorem decodeUrl_exact (fresh : Nat → UInt8) (before url rest : Bytes) {stop : UInt8}
    (plain : isXDigit stop = false) (string : VString) (valid : string.Valid) :
    ∃ after, decodeUrl fresh (before ++ url ++ stop :: rest) ⟨before.length, url.length⟩ string =
      some after ∧ after.Valid ∧ after.content = percentDecode url ++ string.content :=
  decodeUrl_own fresh before url (stop :: rest)
    (fun _ left _ front => escapeAt_exact front left rest plain) string valid

/-- A url is empty or begins with an escape, with a '%' that makes none, with a '+', or with
another byte. -/
theorem url_induction {motive : Bytes → Prop} (nil : motive [])
    (escaped : ∀ first second others, escapeIn (first :: second :: others) = some (first, second) →
      motive others → motive (37 :: first :: second :: others))
    (percent : ∀ rest, escapeIn rest = none → motive rest → motive (37 :: rest))
    (plus : ∀ rest, motive rest → motive (43 :: rest))
    (plain : ∀ byte rest, byte ≠ 37 → byte ≠ 43 → motive rest → motive (byte :: rest))
    (url : Bytes) : motive url := by
  induction bound : url.length using Nat.strongRecOn generalizing url with
  | _ total inductionHypothesis =>
    cases url with
    | nil => exact nil
    | cons byte rest =>
      have shorter : ∀ later : Bytes, later.length ≤ rest.length → motive later := by
        intro later within
        rw [List.length_cons] at bound
        exact inductionHypothesis later.length (by omega) later rfl
      by_cases isPercent : byte = 37
      · subst isPercent
        cases looked : escapeIn rest with
        | none => exact percent rest looked (shorter rest (Nat.le_refl _))
        | some digits =>
          obtain ⟨others, rfl⟩ := escapeIn_some looked
          exact escaped digits.1 digits.2 others looked (shorter others (by simp; omega))
      · by_cases isPlus : byte = 43
        · subst isPlus
          exact plus rest (shorter rest (Nat.le_refl _))
        · exact plain byte rest isPercent isPlus (shorter rest (Nat.le_refl _))

/-- Inserting makes a string longer by one byte. -/
theorem insert_length {fresh : Nat → UInt8} {string after : VString} {index : Nat} {char : UInt8}
    (inserted : string.insert fresh index char = some after) :
    after.length = string.length + 1 := by
  simp only [VString.insert, Option.bind_eq_bind, Option.bind_eq_some_iff, Option.pure_def,
    Option.some.injEq] at inserted
  obtain ⟨_, _, _, _, rfl⟩ := inserted
  split
  · rfl
  · rfl

/-- Whatever the memory holds, decoding keeps a valid string valid: it inserts where the bytes
that it has decoded so far end. -/
theorem decodeLoop_valid {fresh : Nat → UInt8} {memory : Memory} {url : VStringView} {fuel : Nat}
    {index count : Nat} {string after : VString} (valid : string.Valid)
    (inside : count ≤ string.length)
    (decoded : decodeLoop fresh memory url fuel index count string = some after) : after.Valid := by
  have inserts : ∀ {one next : VString} {place : Nat} {char : UInt8}, one.Valid →
      place ≤ one.length → one.insert fresh place char = some next →
      next.Valid ∧ place + 1 ≤ next.length := by
    intro one next place char oneValid within inserted
    obtain ⟨same, isSame, still, _⟩ := oneValid.insert fresh char place within
    obtain rfl := Option.some.inj (inserted.symm.trans isSame)
    have longer := insert_length inserted
    exact ⟨still, by omega⟩
  induction fuel generalizing index count string with
  | zero => cases decoded
  | succ fuel inductionHypothesis =>
    rw [decodeLoop] at decoded
    split at decoded
    · simp only [Option.bind_eq_bind, Option.bind_eq_some_iff] at decoded
      obtain ⟨byte, _, decoded⟩ := decoded
      split at decoded
      · simp only [Option.bind_eq_some_iff] at decoded
        obtain ⟨escape, _, decoded⟩ := decoded
        cases escape with
        | some digits =>
          simp only [Option.bind_eq_some_iff] at decoded
          obtain ⟨next, inserted, decoded⟩ := decoded
          obtain ⟨still, room⟩ := inserts valid inside inserted
          exact inductionHypothesis still room decoded
        | none =>
          simp only [Option.bind_eq_some_iff] at decoded
          obtain ⟨next, inserted, decoded⟩ := decoded
          obtain ⟨still, room⟩ := inserts valid inside inserted
          exact inductionHypothesis still room decoded
      · split at decoded
        · simp only [Option.bind_eq_some_iff] at decoded
          obtain ⟨first, blank, second, plus, decoded⟩ := decoded
          obtain ⟨still, room⟩ := inserts valid inside blank
          obtain ⟨last, enough⟩ := inserts still room plus
          exact inductionHypothesis last enough decoded
        · simp only [Option.bind_eq_some_iff] at decoded
          obtain ⟨next, inserted, decoded⟩ := decoded
          obtain ⟨still, room⟩ := inserts valid inside inserted
          exact inductionHypothesis still room decoded
    · obtain rfl := Option.some.inj decoded
      exact valid

end VHttp.VHttpRequest
