import VHttp.DecoderIndex

/-!
# Decoding against the percent-encoding

The reference decoding of a url reads each '%' with two hexadecimal digits behind it as the
byte they denote, a '+' as a blank, and leaves every other byte. The decoder of the server
falls through from its '+' case, so that it leaves the '+' behind the blank; on urls without
one the two agree. A percent-encoding has none, and shows every escape inside the url, so that
it is decoded whatever lies behind it.

The decoder's index is an int, so that all of this is of urls shorter than 2^31, as those are
that come out of a peek of 4092 bytes. A longer one is not decoded.
-/

namespace VHttp.VHttpRequest

/-- The number that a hexadecimal digit denotes. -/
def digitValue (byte : UInt8) : Option Nat :=
  ((ascii "0123456789ABCDEF").idxOf? byte).or ((ascii "0123456789abcdef").idxOf? byte)

/-- The byte that two hexadecimal digits denote. -/
def escapedByte (first second : UInt8) : Option UInt8 := do
  let high ← digitValue first
  let low ← digitValue second
  pure (UInt8.ofNat (16 * high + low))

/-- The reference decoding. -/
def referenceDecode : Bytes → Bytes
  | [] => []
  | byte :: rest =>
    if byte = 37 then
      match rest with
      | first :: second :: others =>
        match escapedByte first second with
        | some escaped => escaped :: referenceDecode others
        | none => byte :: referenceDecode (first :: second :: others)
      | [first] => byte :: referenceDecode [first]
      | [] => [byte]
    else if byte = 43 then 32 :: referenceDecode rest
    else byte :: referenceDecode rest

/-- What holds of all numbers below 256 holds of all bytes. -/
theorem every_byte {test : UInt8 → Prop} (all : ∀ value : Fin 256, test (UInt8.ofNat value)) :
    ∀ byte, test byte := by
  intro byte
  have holds := all ⟨byte.toNat, byte.toNat_lt⟩
  rwa [UInt8.ofNat_toNat] at holds

/-- The digits that isxdigit knows are those of the tables, with the values that strtol gives
them. -/
theorem digitValue_eq : ∀ byte : UInt8,
    digitValue byte = if isXDigit byte then some (hexDigit byte).toNat else none := by
  apply every_byte
  decide +kernel

/-- The decoder turns the escapes of the reference into their bytes, and no others. -/
theorem escapedByte_eq (first second : UInt8) : escapedByte first second =
    if isXDigit first && isXDigit second then some (strtolHex first second) else none := by
  rw [escapedByte, digitValue_eq, digitValue_eq]
  by_cases high : isXDigit first = true
  · by_cases low : isXDigit second = true
    · simp [high, low, strtolHex]
    · simp [high, low]
  · simp [high]

theorem referenceDecode_escaped {first second : UInt8} (others : Bytes)
    (escaped : escapeIn (first :: second :: others) = some (first, second)) :
    referenceDecode (37 :: first :: second :: others) =
      strtolHex first second :: referenceDecode others := by
  rw [escapeIn, Option.ite_none_right_eq_some] at escaped
  rw [referenceDecode, if_pos rfl, escapedByte_eq, if_pos escaped.1]

theorem referenceDecode_percent {rest : Bytes} (plain : escapeIn rest = none) :
    referenceDecode (37 :: rest) = 37 :: referenceDecode rest := by
  match rest with
  | [] => simp [referenceDecode]
  | [first] => simp [referenceDecode]
  | first :: second :: others =>
    have unescaped : ¬ (isXDigit first && isXDigit second) = true := by
      intro digits
      rw [escapeIn, if_pos digits] at plain
      cases plain
    rw [referenceDecode, if_pos rfl, escapedByte_eq, if_neg unescaped]

theorem referenceDecode_plus (rest : Bytes) :
    referenceDecode (43 :: rest) = 32 :: referenceDecode rest := by
  rw [referenceDecode.eq_def]
  simp

theorem referenceDecode_plain {byte : UInt8} (rest : Bytes) (noPercent : byte ≠ 37)
    (noPlus : byte ≠ 43) : referenceDecode (byte :: rest) = byte :: referenceDecode rest := by
  rw [referenceDecode.eq_def]
  simp [noPercent, noPlus]

theorem percentDecode_escaped {first second : UInt8} (others : Bytes)
    (escaped : escapeIn (first :: second :: others) = some (first, second)) :
    percentDecode (37 :: first :: second :: others) =
      strtolHex first second :: percentDecode others := by
  rw [percentDecode_percent, escaped]
  rfl

/-- The digits of an escape are no '+'. -/
theorem escape_without_plus {first second : UInt8} {others : Bytes}
    (escaped : escapeIn (first :: second :: others) = some (first, second)) :
    first ≠ 43 ∧ second ≠ 43 := by
  rw [escapeIn, Option.ite_none_right_eq_some, Bool.and_eq_true] at escaped
  constructor
  · rintro rfl
    exact absurd escaped.1.1 (by decide)
  · rintro rfl
    exact absurd escaped.1.2 (by decide)

/-- Every '+' makes the decoder's output a byte longer than the reference. -/
theorem percentDecode_longer (url : Bytes) :
    (percentDecode url).length = (referenceDecode url).length + url.count 43 := by
  induction url using url_induction with
  | nil => rfl
  | escaped first second others escaped inductionHypothesis =>
    obtain ⟨noFirst, noSecond⟩ := escape_without_plus escaped
    rw [percentDecode_escaped others escaped, referenceDecode_escaped others escaped]
    simp only [List.length_cons, inductionHypothesis, List.count_cons_of_ne noFirst,
      List.count_cons_of_ne noSecond, List.count_cons_of_ne (show (37 : UInt8) ≠ 43 by decide)]
    omega
  | percent rest plain inductionHypothesis =>
    rw [percentDecode_percent, plain, referenceDecode_percent plain]
    simp only [List.length_cons, inductionHypothesis,
      List.count_cons_of_ne (show (37 : UInt8) ≠ 43 by decide)]
    omega
  | plus rest inductionHypothesis =>
    rw [percentDecode_plus, referenceDecode_plus]
    simp only [List.length_cons, inductionHypothesis, List.count_cons_self]
    omega
  | plain byte rest noPercent noPlus inductionHypothesis =>
    rw [percentDecode_plain rest noPercent noPlus, referenceDecode_plain rest noPercent noPlus]
    simp only [List.length_cons, inductionHypothesis, List.count_cons_of_ne noPlus]
    omega

/-- Without a '+' the decoder follows the reference. -/
theorem percentDecode_reference {url : Bytes} (noPlus : 43 ∉ url) :
    percentDecode url = referenceDecode url := by
  induction url using url_induction with
  | nil => rfl
  | escaped first second others escaped inductionHypothesis =>
    rw [percentDecode_escaped others escaped, referenceDecode_escaped others escaped,
      inductionHypothesis (fun member => noPlus (by simp [member]))]
  | percent rest plain inductionHypothesis =>
    rw [percentDecode_percent, plain, referenceDecode_percent plain,
      ← inductionHypothesis (fun member => noPlus (by simp [member]))]
  | plus rest inductionHypothesis => exact absurd List.mem_cons_self noPlus
  | plain byte rest noPercent other inductionHypothesis =>
    rw [percentDecode_plain rest noPercent other, referenceDecode_plain rest noPercent other,
      inductionHypothesis (fun member => noPlus (by simp [member]))]

/-- What `VHttpRequest_DecodeUrl` owes of a url in front of some bytes: it returns, and leaves
in the string of a new request what is asked for. -/
def DecodesTo (fresh : Nat → UInt8) (before url rest result : Bytes) : Prop :=
  ∃ after, Decoding.decodeUrl fresh (before ++ url ++ rest) ⟨before.length, url.length⟩ init.url =
    some after ∧ after.content = result ∧ after.length = result.length

/-- There is one result. -/
theorem DecodesTo.unique {fresh : Nat → UInt8} {before url rest result other : Bytes}
    (decodes : DecodesTo fresh before url rest result)
    (again : DecodesTo fresh before url rest other) : result = other := by
  obtain ⟨after, decoded, contents, _⟩ := decodes
  obtain ⟨twin, also, twinContents, _⟩ := again
  obtain rfl := Option.some.inj (decoded.symm.trans also)
  exact contents.symm.trans twinContents

/-- A url that is decoded is short. -/
theorem DecodesTo.short {fresh : Nat → UInt8} {before url rest result : Bytes}
    (decodes : DecodesTo fresh before url rest result) : url.length < 2 ^ 31 := by
  obtain ⟨after, decoded, _⟩ := decodes
  exact Decoding.decodeLoop_short decoded

/-- What a decoder that counts naturals makes of a short url is decoded. -/
theorem DecodesTo.of_decodeUrl {fresh : Nat → UInt8} {before url rest : Bytes} {after : VString}
    (short : url.length < 2 ^ 31)
    (looks : Decoding.LooksInside (before ++ url ++ rest) ⟨before.length, url.length⟩)
    (decoded : decodeUrl fresh (before ++ url ++ rest) ⟨before.length, url.length⟩ init.url =
      some after) (valid : after.Valid) : DecodesTo fresh before url rest after.content :=
  ⟨after, (Decoding.decodeUrl_agrees fresh short looks init.url).trans decoded, rfl,
    valid.content_length.symm⟩

/-- In front of a byte that is no digit no escape reaches over the end of a url. -/
theorem looks_inside_stopped (before url rest : Bytes) {stop : UInt8}
    (plain : isXDigit stop = false) (short : url.length < 2 ^ 31) :
    Decoding.LooksInside (before ++ url ++ stop :: rest) ⟨before.length, url.length⟩ := by
  intro index inside _
  change index < url.length at inside
  have behind : (before ++ url ++ stop :: rest)[before.length + url.length]? = some stop := by
    rw [← List.length_append, List.getElem?_append_right (Nat.le_refl _), Nat.sub_self]
    rfl
  by_cases last : index + 1 = url.length
  · rw [← last] at behind
    exact Or.inr (Decoding.escapeAt_first (last ▸ short) behind plain)
  · by_cases final : index + 2 = url.length
    · have next := read_inside before url (stop :: rest) (index + 1) (by omega)
      rw [← final] at behind
      exact Or.inr (Decoding.escapeAt_second (final ▸ short) next behind plain)
    · exact Or.inl (show index + 3 ≤ url.length by omega)

/-- In front of a byte that is no hexadecimal digit a url is decoded as the reference does it
exactly if it has no '+' and is shorter than 2^31. -/
theorem decodes_reference_iff (fresh : Nat → UInt8) (before url rest : Bytes) {stop : UInt8}
    (plain : isXDigit stop = false) :
    DecodesTo fresh before url (stop :: rest) (referenceDecode url) ↔
      43 ∉ url ∧ url.length < 2 ^ 31 := by
  obtain ⟨after, decoded, valid, contents⟩ :=
    decodeUrl_exact fresh before url rest plain init.url VString.init_valid
  have empty : init.url.content = [] := rfl
  rw [empty, List.append_nil] at contents
  have made := fun short =>
    DecodesTo.of_decodeUrl short (looks_inside_stopped before url rest plain short) decoded valid
  constructor
  · intro decodes
    refine ⟨?_, decodes.short⟩
    have same := decodes.unique (made decodes.short)
    have longer := percentDecode_longer url
    rw [← contents, ← same, left_eq_add] at longer
    exact List.count_eq_zero.mp longer
  · rintro ⟨noPlus, short⟩
    have reference := contents.trans (percentDecode_reference noPlus)
    exact reference ▸ made short

/-- "/a%2" in front of a blank. -/
theorem decodes_reference_iff_truncated :
    DecodesTo (fun _ => 7) [] [47, 97, 37, 50] [32] [47, 97, 37, 50] :=
  (decodes_reference_iff (fun _ => 7) [] [47, 97, 37, 50] [] (by decide : isXDigit 32 = false)).mpr
    ⟨by decide, by decide⟩

/-- "a+b" is decoded to "a +b". -/
theorem plus_is_kept : ¬ ∀ (fresh : Nat → UInt8) (before url rest : Bytes) (stop : UInt8),
    isXDigit stop = false →
    DecodesTo fresh before url (stop :: rest) (referenceDecode url) := by
  intro always
  have blank : isXDigit 32 = false := by decide
  have reference := always (fun _ => 0) [] [97, 43, 98] [] 32 blank
  obtain ⟨after, decoded, valid, contents⟩ :=
    decodeUrl_exact (fun _ => 0) [] [97, 43, 98] [] blank init.url VString.init_valid
  have looks := looks_inside_stopped [] [97, 43, 98] [] blank reference.short
  have same := reference.unique (.of_decodeUrl reference.short looks decoded valid)
  rw [contents] at same
  exact absurd same (by decide)

/-- The bytes that an encoding may leave as they are. -/
def unreserved (byte : UInt8) : Bool :=
  (ascii "ABCDEFGHIJKLMNOPQRSTUVWXYZabcdefghijklmnopqrstuvwxyz0123456789-._~/").contains byte

/-- The percent-encodings of a byte string: any byte may be written as an escape, with digits
in either case, and every byte that is not unreserved is. -/
inductive Encodes : Bytes → Bytes → Prop where
  | nil : Encodes [] []
  | plain (byte : UInt8) {source url : Bytes} (kept : unreserved byte = true)
      (tail : Encodes source url) : Encodes (byte :: source) (byte :: url)
  | escaped (byte first second : UInt8) {source url : Bytes}
      (digits : escapedByte first second = some byte) (tail : Encodes source url) :
      Encodes (byte :: source) (37 :: first :: second :: url)

theorem unreserved_plain {byte : UInt8} (kept : unreserved byte = true) :
    byte ≠ 37 ∧ byte ≠ 43 := by
  constructor
  · rintro rfl
    exact absurd kept (by decide)
  · rintro rfl
    exact absurd kept (by decide)

/-- The two bytes of an escape are digits, and so the decoder sees them. -/
theorem escape_digits {byte first second : UInt8} (digits : escapedByte first second = some byte) :
    isXDigit first = true ∧ isXDigit second = true ∧ strtolHex first second = byte := by
  rw [escapedByte_eq, Option.ite_none_right_eq_some, Bool.and_eq_true, Option.some.injEq] at digits
  exact ⟨digits.1.1, digits.1.2, digits.2⟩

/-- An encoding shows all of its escapes. -/
theorem Encodes.seesOwn {source url : Bytes} (encodes : Encodes source url) (rest : Bytes) :
    SeesOwn url rest := by
  induction encodes with
  | nil =>
    intro front left split
    simp at split
  | plain byte kept tail inductionHypothesis =>
    intro front left split
    cases front with
    | nil => exact absurd (List.cons.inj split).1 (unreserved_plain kept).1
    | cons other front => exact inductionHypothesis front left (List.cons.inj split).2
  | escaped byte first second digits tail inductionHypothesis =>
    obtain ⟨isFirst, isSecond, _⟩ := escape_digits digits
    intro front left split
    rcases front with _ | ⟨_, _ | ⟨_, _ | ⟨_, front⟩⟩⟩
    · -- The escape itself.
      obtain rfl := (List.cons.inj split).2
      intro before
      simp [escapeAt, escapeIn, isFirst, isSecond]
    · obtain rfl := (List.cons.inj (List.cons.inj split).2).1
      exact absurd isFirst (by decide)
    · obtain rfl := (List.cons.inj (List.cons.inj (List.cons.inj split).2).2).1
      exact absurd isSecond (by decide)
    · exact inductionHypothesis front left (List.cons.inj (List.cons.inj (List.cons.inj split).2).2).2

/-- Decoding undoes an encoding. -/
theorem Encodes.decoded {source url : Bytes} (encodes : Encodes source url) :
    percentDecode url = source := by
  induction encodes with
  | nil => rfl
  | plain byte kept tail inductionHypothesis =>
    obtain ⟨noPercent, noPlus⟩ := unreserved_plain kept
    rw [percentDecode_plain _ noPercent noPlus, inductionHypothesis]
  | escaped byte first second digits tail inductionHypothesis =>
    obtain ⟨isFirst, isSecond, same⟩ := escape_digits digits
    rw [percentDecode_escaped _ (by simp [escapeIn, isFirst, isSecond]), same, inductionHypothesis]

/-- Every '%' of an encoding has its digits behind it. -/
theorem Encodes.escapes_inside {source url : Bytes} (encodes : Encodes source url) {index : Nat}
    (percent : url[index]? = some 37) : index + 3 ≤ url.length := by
  induction encodes generalizing index with
  | nil => cases percent
  | plain byte kept tail inductionHypothesis =>
    cases index with
    | zero => exact absurd (Option.some.inj percent) (unreserved_plain kept).1
    | succ index =>
      have inside := inductionHypothesis percent
      rw [List.length_cons]
      omega
  | escaped byte first second digits tail inductionHypothesis =>
    obtain ⟨isFirst, isSecond, _⟩ := escape_digits digits
    rcases index with _ | _ | _ | index
    · simp
    · obtain rfl := Option.some.inj percent
      exact absurd isFirst (by decide)
    · obtain rfl := Option.some.inj percent
      exact absurd isSecond (by decide)
    · have inside := inductionHypothesis percent
      simp only [List.length_cons]
      omega

/-- Every percent-encoding shorter than 2^31 of any byte string is decoded to that string,
whatever lies in front of it and behind it. -/
theorem encodings_are_decoded {source url : Bytes} (encodes : Encodes source url)
    (short : url.length < 2 ^ 31) (fresh : Nat → UInt8) (before rest : Bytes) :
    DecodesTo fresh before url rest source := by
  obtain ⟨after, decoded, valid, contents⟩ :=
    decodeUrl_own fresh before url rest (encodes.seesOwn rest) init.url VString.init_valid
  have empty : init.url.content = [] := rfl
  rw [encodes.decoded, empty, List.append_nil] at contents
  have looks : Decoding.LooksInside (before ++ url ++ rest) ⟨before.length, url.length⟩ := by
    intro index inside percent
    rw [read_inside before url rest index inside] at percent
    exact Or.inl (encodes.escapes_inside ((List.getElem?_eq_getElem inside).trans percent))
  exact contents ▸ DecodesTo.of_decodeUrl short looks decoded valid

/-- "a" and the byte 255, encoded as "%61%fF", in front of more digits. -/
theorem encodings_are_decoded_mixed :
    DecodesTo (fun _ => 7) [47] [37, 54, 49, 37, 102, 70] [65, 66] [97, 255] :=
  encodings_are_decoded (.escaped 97 54 49 (by decide) (.escaped 255 102 70 (by decide) .nil))
    (by decide) (fun _ => 7) [47] [65, 66]

/-- 2^31 letters take the index over the end of the ints. -/
theorem endless_letters_are_not_decoded : ¬ ∀ (source url : Bytes), Encodes source url →
    ∀ (fresh : Nat → UInt8) (before rest : Bytes), DecodesTo fresh before url rest source := by
  intro always
  have letters : ∀ count, Encodes (List.replicate count 97) (List.replicate count 97) := by
    intro count
    induction count with
    | zero => exact .nil
    | succ count inductionHypothesis => exact .plain 97 (by decide) inductionHypothesis
  have short := (always _ _ (letters (2 ^ 31)) (fun _ => 0) [] []).short
  rw [List.length_replicate] at short
  exact absurd short (Nat.lt_irrefl _)

end VHttp.VHttpRequest
