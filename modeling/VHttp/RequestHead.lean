import Mathlib.Algebra.Group.Nat.Even
import Mathlib.Data.List.DropRight
import VHttp.Parsing
import VHttp.SplitPieces
import VHttp.SubstringSearch

/-!
# Where the head of a request ends

The worker looks for the end of the head with `VString_FindSubstring` and takes as many bytes
off the socket; the parser cuts the head out with `VString_SplitBySubstring`. The search finds
the first CRLFCRLF, so far as an int can tell where it ends. The split is the one-pass scan: a
CR that meets it one byte into a CRLFCRLF ends the match and is not taken as the beginning of
the next one, so of a run of CRs in front of the delimiter each second one counts. It also
drops empty pieces, so that a delimiter at the very beginning ends no head, and a run of
delimiters leaves an empty one behind it only if the u32 that marks its start has not wrapped.
-/

namespace VHttp.Splitting

open Delimiters

/-- From a place where a piece has just begun, the first store is of an empty piece only if
nothing but separators is left, up to an end that a u32 can mark.

Induct over the length: a separator in front is passed, and otherwise the first bytes, as many
as a separator has, belong to the piece. Behind 2^32 the start has wrapped, and lies in front
of the bytes to come. -/
theorem splitLoop_empty_iff {substring : Bytes} {size : UInt32} {total : Nat}
    (positive : 0 < substring.length) (narrow : substring.length < 2 ^ 32) (room : 0 < size)
    (short : total < 2 ^ 64) (rest : Bytes) (index : Nat) (whole : index + rest.length = total) :
    ∃ offset length others, offset ≤ total ∧
      (splitLoop substring size rest index 0 (UInt32.ofNat index) 0 []).2 =
        ⟨0, offset, length⟩ :: others ∧
      (length = 0 ↔ total < 2 ^ 32 ∧ ∃ count, rest = (List.replicate count substring).flatten) := by
  induction bound : rest.length using Nat.strongRecOn generalizing rest index with
  | _ left inductionHypothesis =>
    by_cases marked : index < 2 ^ 32
    · have same : (UInt32.ofNat index).toNat = index := UInt32.toNat_ofNat_of_lt' marked
      by_cases begins : substring <+: rest
      · obtain ⟨behind, rfl⟩ := begins
        rw [List.length_append] at whole bound
        obtain ⟨offset, length, others, inside, stores, empty⟩ := inductionHypothesis behind.length
          (by omega) behind (index + substring.length) (by omega) rfl
        refine ⟨offset, length, others, inside, ?_, ?_⟩
        · rw [splitLoop_pattern positive narrow behind index _ 0 [] (by omega) (by omega) room,
            if_pos same.symm, stores]
        · rw [empty, delimiters_cons substring behind positive]
      · have other : ∀ count, rest = (List.replicate count substring).flatten → rest = [] := by
          rintro (_ | count) rfl
          · rfl
          · exact absurd (by simp [List.replicate_succ]) begins
        by_cases few : rest.length < substring.length
        · have absent : ¬ substring <:+: rest := fun found => by
            have size := found.length_le
            omega
          refine ⟨index, rest.length, [], by omega, ?_, ?_⟩
          · rw [splitLoop_absent size positive absent marked (by omega)]
            rfl
          · rw [List.length_eq_zero_iff]
            constructor
            · rintro rfl
              exact ⟨by rwa [← whole, List.length_nil, Nat.add_zero], 0, rfl⟩
            · rintro ⟨_, count, same⟩
              exact other count same
        · have taken : (rest.take substring.length).length = substring.length :=
            List.length_take_of_le (by omega)
          have absent : ¬ substring <:+: rest.take substring.length := fun found =>
            begins ((found.eq_of_length taken.symm) ▸ List.take_prefix _ _)
          obtain ⟨check, moved⟩ := progress_of_absent positive _ absent
          have inside := ((progress_spec positive _).1 check moved).1
          have state : (UInt32.ofNat check).toNat = check :=
            UInt32.toNat_ofNat_of_lt' (by show check < 2 ^ 32; omega)
          have read := splitLoop_progress size narrow (rest.take substring.length)
            (rest.drop substring.length) index (UInt32.ofNat index) 0 [] positive moved
          rw [List.take_append_drop, taken, show UInt32.ofNat 0 = 0 from rfl] at read
          obtain ⟨length, others, long, stores⟩ := splitLoop_next short
            (rest.drop substring.length) (index + substring.length) 0 (UInt32.ofNat check)
            (UInt32.ofNat index) 0 [] (by rw [List.length_drop]; omega) (by omega) room
          refine ⟨(UInt32.ofNat index).toNat, length, others, by omega, by rw [read]; exact stores,
            iff_of_false (by omega) ?_⟩
          rintro ⟨_, count, same⟩
          have none := other count same
          rw [none, List.length_nil] at few
          omega
    · have wrapped : (UInt32.ofNat index).toNat < index := by
        have small := (UInt32.ofNat index).toNat_lt
        omega
      obtain ⟨length, others, long, stores⟩ := splitLoop_next short rest index 0 0
        (UInt32.ofNat index) 0 [] whole (by simpa using wrapped) room
      exact ⟨(UInt32.ofNat index).toNat, length, others, by omega, stores,
        iff_of_false (by omega) (by omega)⟩

end VHttp.Splitting

namespace VHttp.VHttpRequest

open Delimiters Splitting

/-- The number of CRs at the end. -/
def trailingReturns (bytes : Bytes) : Nat :=
  (bytes.rtakeWhile (fun byte => decide (byte = 13))).length

@[simp] theorem trailingReturns_nil : trailingReturns [] = 0 := rfl

@[simp] theorem trailingReturns_return (bytes : Bytes) :
    trailingReturns (bytes ++ [13]) = trailingReturns bytes + 1 := by
  simp [trailingReturns]

theorem trailingReturns_other (bytes : Bytes) (byte : UInt8) (other : byte ≠ 13) :
    trailingReturns (bytes ++ [byte]) = 0 := by
  simp [trailingReturns, other]

/-- The CRs read last decide what is matched: an odd run leaves a match that expects
LF, and a nonempty even run leaves nothing.

Induct over the bytes read. A CR ends a match that expects LF and extends one that does
not; any other byte leaves nothing or, after a CR, one CRLF. -/
theorem progress_parity (seen : Bytes) (check : Nat) (moved : progress headEnd seen 0 = some check) :
    (Even (trailingReturns seen) → check = 0 ∨ (trailingReturns seen = 0 ∧ check = 2)) ∧
      (¬ Even (trailingReturns seen) → check = 1 ∨ check = 3) := by
  induction seen using List.reverseRecOn generalizing check with
  | nil =>
    have same : 0 = check := Option.some.inj moved
    exact ⟨fun _ => Or.inl same.symm, fun odd => absurd (by decide) odd⟩
  | append_singleton seen byte inductionHypothesis =>
    rw [progress_append, Option.bind_eq_some_iff] at moved
    obtain ⟨before, reached, step⟩ := moved
    obtain ⟨evenCase, oddCase⟩ := inductionHypothesis before reached
    by_cases isReturn : byte = 13
    · subst isReturn
      rw [trailingReturns_return, Nat.even_add_one]
      constructor
      · intro odd
        left
        rcases oddCase odd with rfl | rfl <;> simpa [progress, headEnd] using step.symm
      · intro even
        rcases evenCase (not_not.mp even) with rfl | ⟨_, rfl⟩ <;>
          simp [progress, headEnd] at step <;> omega
    · rw [trailingReturns_other seen byte isReturn]
      refine ⟨fun _ => ?_, fun odd => absurd (by decide) odd⟩
      have small : before = 0 ∨ before = 1 ∨ before = 2 ∨ before = 3 := by
        by_cases even : Even (trailingReturns seen)
        · have := evenCase even
          omega
        · have := oddCase even
          omega
      rcases small with rfl | rfl | rfl | rfl <;>
        simp only [progress, headEnd, List.getElem?_cons_zero, List.getElem?_cons_succ,
          Option.some.injEq, Ne.symm isReturn, ↓reduceIte, List.length_cons, List.length_nil] at step
      · exact Or.inl step.symm
      · split at step
        · exact Or.inr ⟨rfl, by simpa using step.symm⟩
        · exact Or.inl (by simpa using step.symm)
      · exact Or.inl step.symm
      · split at step
        · simp at step
        · exact Or.inl (by simpa using step.symm)

/-- Before the first delimiter none is found. -/
theorem FirstEnd.absent {front behind : Bytes} (first : FirstEnd front behind) :
    ¬ headEnd <:+: front := by
  rintro ⟨earlier, later, same⟩
  have sooner := first earlier (later ++ headEnd ++ behind) (by simp [← same])
  have sizes := congrArg List.length same
  simp only [List.length_append, headEnd, List.length_cons, List.length_nil] at sizes
  omega

/-- With an even run of CRs in front of the first delimiter, nothing is matched there. -/
theorem FirstEnd.unmatched {front behind : Bytes} (first : FirstEnd front behind)
    (even : Even (trailingReturns front)) : progress headEnd front 0 = some 0 := by
  obtain ⟨check, moved⟩ := progress_of_absent (by decide) front first.absent
  rcases (progress_parity front check moved).1 even with rfl | ⟨_, rfl⟩
  · exact moved
  · -- A CRLF in front of the delimiter begins an earlier occurrence.
    obtain ⟨earlier, same⟩ := ((progress_spec (by decide) front).1 2 moved).2
    have sooner := first earlier ([13, 10] ++ behind) (by simp [← same, headEnd])
    have sizes := congrArg List.length same
    simp only [List.length_append, headEnd, List.take_succ_cons, List.take_zero, List.length_cons,
      List.length_nil] at sizes
    omega

/-- What the worker's search finds: an occurrence that begins inside the buffer, none of
those that lie inside it beginning earlier. -/
theorem search_first {before buffer after : Bytes} {n : Nat} (positive : 0 < n)
    (found : findSubstring (before ++ buffer ++ after) ⟨before.length, buffer.length⟩
      (ascii "\r\n\r\n") = some n) :
    ∃ index, n = index + 4 ∧ index < buffer.length ∧
      headEnd <+: buffer.drop index ++ after ∧
      ∀ earlier later, buffer = earlier ++ headEnd ++ later → index ≤ earlier.length := by
  rw [ascii_headEnd] at found
  obtain ⟨index, inside, ended, occurs, absent⟩ := findSubstring_found positive found
  have drop_buffer : ∀ offset, (before ++ buffer ++ after).drop (before.length + offset) =
      (buffer ++ after).drop offset := by
    intro offset
    rw [List.append_assoc, List.drop_length_add_append]
  simp only [drop_buffer] at inside occurs absent
  refine ⟨index, ended, inside, ?_, ?_⟩
  · rwa [List.drop_append_of_le_length (Nat.le_of_lt inside)] at occurs
  · intro earlier later same
    by_contra sooner
    refine absent earlier.length (by omega) ⟨later ++ after, ?_⟩
    rw [same]
    simp

/-- A delimiter that is the first one of the whole is not found earlier. -/
theorem FirstEnd.first {front behind : Bytes} (first : FirstEnd front behind) :
    First headEnd front := by
  rintro ⟨earlier, later, same⟩
  have whole : headEnd = headEnd.dropLast ++ [10] := by decide
  have sooner := first earlier (later ++ [10] ++ behind) (by
    have longer := congrArg (· ++ ([10] ++ behind)) same
    rw [whole]
    simpa [headEnd] using longer.symm)
  have sizes := congrArg List.length same
  simp only [List.length_append, headEnd, List.length_cons, List.length_nil,
    List.length_dropLast] at sizes
  omega

/-- The bytes in front of the first delimiter leave nothing matched exactly with an even run of
CRs at their end. -/
theorem FirstEnd.resumes_iff {front behind : Bytes} (first : FirstEnd front behind) :
    Resumes headEnd front ↔ Even (trailingReturns front) := by
  rw [← progress_resumes_iff (by decide)]
  refine ⟨fun unmatched => ?_, first.unmatched⟩
  by_contra odd
  rcases (progress_parity front 0 unmatched).2 odd with other | other <;> cases other

/-- The head that the parser cuts out of a buffer is what stands in front of the `n`
bytes' last four, and the length of the request is `n`. -/
def CutsHead (before buffer after : Bytes) (request : VHttpRequest) (n : Nat) : Prop :=
  ∃ requestHead cut,
    Parsing.cutHead (before ++ buffer ++ after) ⟨before.length, buffer.length⟩ request =
      some (requestHead, cut) ∧
    requestHead.bytes (before ++ buffer ++ after) = some (buffer.take (n - 4)) ∧ cut.length = n

section Cut

variable (before after : Bytes) (request : VHttpRequest)

/-- The head is the first piece that is stored. -/
theorem cutsHead_iff {buffer : Bytes} {index offset length : Nat} {others : List Store}
    (inside : index ≤ buffer.length) (int : index + 4 < 2 ^ 64)
    (stores : (Splitting.splitLoop headEnd 2 buffer 0 0 0 0 []).2 = ⟨0, offset, length⟩ :: others) :
    CutsHead before buffer after request (index + 4) ↔
      VStringView.bytes ⟨before.length + offset, length⟩ (before ++ buffer ++ after) =
        some (buffer.take index) := by
  have split : (Splitting.splitBySubstring buffer headEnd 2).2 = ⟨0, offset, length⟩ :: others := stores
  have cut : Parsing.cutHead (before ++ buffer ++ after) ⟨before.length, buffer.length⟩ request =
      some (⟨before.length + offset, length⟩,
        { request with length := (length + 4) % 2 ^ 64 }) := by
    rw [Parsing.cutHead, Parsing.splitBySubstring, VStringView.bytes, readRange_behind,
      ascii_headEnd, Option.bind_eq_bind, Option.bind_eq_bind, Option.bind_some, split]
    rfl
  rw [CutsHead, Nat.add_sub_cancel, cut]
  constructor
  · rintro ⟨_, _, same, shown, _⟩
    obtain ⟨rfl, rfl⟩ := Prod.mk.inj (Option.some.inj same)
    exact shown
  · intro shown
    have size := VStringView.shows shown
    rw [List.length_take_of_le inside] at size
    obtain rfl : index = length := size
    exact ⟨_, _, rfl, shown, Nat.mod_eq_of_lt int⟩

/-- A longer first piece is another head. -/
theorem not_cutsHead {buffer : Bytes} {index offset length : Nat} {others : List Store}
    (inside : index ≤ buffer.length) (int : index + 4 < 2 ^ 64)
    (stores : (Splitting.splitLoop headEnd 2 buffer 0 0 0 0 []).2 = ⟨0, offset, length⟩ :: others)
    (other : length ≠ index) : ¬ CutsHead before buffer after request (index + 4) := by
  rw [cutsHead_iff before after request inside int stores]
  intro shown
  have size := VStringView.shows shown
  rw [List.length_take_of_le inside] at size
  exact other size.symm

/-- With an even run of CRs in front of the first delimiter, the head ends there if something
is in front, and otherwise if nothing but delimiters follows, up to an end that a u32 can
mark. -/
theorem FirstEnd.cut_iff {front behind : Bytes} (first : FirstEnd front behind)
    (even : Even (trailingReturns front)) (int : front.length + 4 < 2 ^ 31)
    (addressable : (front ++ headEnd ++ behind).length < 2 ^ 64) :
    CutsHead before (front ++ headEnd ++ behind) after request (front.length + 4) ↔
      front ≠ [] ∨ ((front ++ headEnd ++ behind).length < 2 ^ 32 ∧
        ∃ count, behind = (List.replicate count headEnd).flatten) := by
  have four : headEnd.length = 4 := rfl
  have inside : front.length ≤ (front ++ headEnd ++ behind).length := by
    simp only [List.length_append]
    omega
  have reading := splitLoop_found (by decide) (first.resumes_iff.mpr even) behind
    (show 0 + front.length + headEnd.length < 2 ^ 32 by omega)
    (show (0 : UInt32) < 2 by decide) []
  rw [show UInt32.ofNat 0 = 0 from rfl] at reading
  by_cases empty : front = []
  · subst empty
    rw [if_pos rfl] at reading
    obtain ⟨offset, length, others, within, stores, blank⟩ := splitLoop_empty_iff
      (show 0 < headEnd.length by decide) (by decide) (show (0 : UInt32) < 2 by decide) addressable
      behind 4 (by simp only [List.nil_append, List.length_append, four])
    have first_store : (Splitting.splitLoop headEnd 2 ([] ++ headEnd ++ behind) 0 0 0 0 []).2 =
        ⟨0, offset, length⟩ :: others := by
      rw [reading]
      exact stores
    rw [cutsHead_iff before after request inside (by omega) first_store, ← blank]
    simp only [ne_eq, not_true_eq_false, false_or, List.length_nil, List.take_zero]
    constructor
    · exact fun shown => (VStringView.shows shown).symm
    · rintro rfl
      have readable : before.length + offset + 0 ≤
          (before ++ ([] ++ headEnd ++ behind) ++ after).length := by
        simp only [List.length_append] at within ⊢
        omega
      rw [VStringView.bytes, Memory.readRange, if_pos readable, List.take_zero]
  · rw [if_neg empty] at reading
    obtain ⟨others, kept⟩ := splitLoop_keeps headEnd 2 behind (0 + front.length + headEnd.length) 0
      (UInt32.ofNat (0 + front.length + headEnd.length)) (0 + 1)
      ([] ++ [⟨(0 : UInt32).toNat, 0, front.length⟩])
    have first_store : (Splitting.splitLoop headEnd 2 (front ++ headEnd ++ behind) 0 0 0 0 []).2 =
        ⟨0, 0, front.length⟩ :: others := by
      rw [reading, ← kept]
      rfl
    rw [cutsHead_iff before after request inside (by omega) first_store]
    refine iff_of_true ?_ (Or.inl empty)
    have shown := readRange_behind before front (headEnd ++ behind ++ after)
    simpa [VStringView.bytes] using shown

/-- With an odd run of CRs in front of the first delimiter, the head is longer. -/
theorem FirstEnd.not_cut {front behind : Bytes} (first : FirstEnd front behind)
    (odd : ¬ Even (trailingReturns front)) (int : front.length + 4 < 2 ^ 31)
    (addressable : (front ++ headEnd ++ behind).length < 2 ^ 64) :
    ¬ CutsHead before (front ++ headEnd ++ behind) after request (front.length + 4) := by
  have four : headEnd.length = 4 := rfl
  have sizes : (front ++ headEnd ++ behind).length = front.length + 4 + behind.length := by
    simp only [List.length_append, four]
  obtain ⟨length, others, long, stores⟩ := splitLoop_missed (by decide) first.first
    (fun resumes => odd (first.resumes_iff.mp resumes)) behind
    (show 0 + front.length + headEnd.length < 2 ^ 32 by omega) (by omega)
    (show (0 : UInt32) < 2 by decide) []
  exact not_cutsHead before after request (by omega) (by omega) stores (by omega)

/-- A buffer without a delimiter is its own head. -/
theorem not_cut_of_absent {buffer : Bytes} (absent : ¬ headEnd <:+: buffer) {index : Nat}
    (shorter : index < buffer.length) (int : index + 4 < 2 ^ 64)
    (addressable : buffer.length < 2 ^ 64) :
    ¬ CutsHead before buffer after request (index + 4) := by
  have whole := splitLoop_absent 2 (show 0 < headEnd.length by decide) absent
    (show 0 < 2 ^ 32 by decide) (by omega) 0 []
  have stores : (Splitting.splitLoop headEnd 2 buffer 0 0 0 0 []).2 = ⟨0, 0, buffer.length⟩ :: [] :=
    congrArg Prod.snd whole
  exact not_cutsHead before after request (Nat.le_of_lt shorter) int stores (by omega)

end Cut

/-- Whenever the worker finds the end of a head, behind `n` bytes, the parser cuts
exactly the bytes in front of that delimiter out of the same buffer, if and only if the
delimiter lies inside the buffer and either some bytes stand in front of it, the CRs
among them that touch it being even in number, or none do and the buffer, shorter than 2^32
bytes, is nothing but such delimiters.

An occurrence that reaches over the end of the buffer is only seen by the search. For
one inside, the run of CRs in front of it decides whether the split finds it. A
delimiter at the beginning ends an empty piece, which is dropped, so the head is then
the first piece that is not empty. -/
theorem head_ends_where_found (before buffer after : Bytes) (request : VHttpRequest) (n : Nat)
    (addressable : buffer.length < 2 ^ 64) (positive : 0 < n)
    (found : Searching.findSubstring (before ++ buffer ++ after) ⟨before.length, buffer.length⟩
      Searching.headEndString = some n) :
    CutsHead before buffer after request n ↔
      n ≤ buffer.length ∧
        ((4 < n ∧ Even (trailingReturns (buffer.take (n - 4)))) ∨
          (n = 4 ∧ buffer.length < 2 ^ 32 ∧
            ∃ count, buffer = (List.replicate count headEnd).flatten)) := by
  have four : headEnd.length = 4 := rfl
  have nonzero : Searching.substringLen Searching.headEndString ≠ 0 := by decide
  rw [Searching.findSubstring, if_neg nonzero] at found
  have int := Searching.findSubstringLoop_int (by decide) nonzero found
  have counted : findSubstring (before ++ buffer ++ after) ⟨before.length, buffer.length⟩
      (ascii "\r\n\r\n") = some n := by
    rw [findSubstring, if_neg (by decide)]
    exact Searching.findSubstringLoop_naturals (by decide) positive found
  obtain ⟨index, rfl, inside, occurs, earliest⟩ := search_first positive counted
  rw [Nat.add_sub_cancel]
  by_cases within : index + 4 ≤ buffer.length
  · obtain ⟨front, behind, rfl, rfl⟩ : ∃ front behind, buffer = front ++ headEnd ++ behind ∧
        front.length = index := by
      obtain ⟨behind, same⟩ := List.prefix_of_prefix_length_le occurs
        (List.prefix_append _ _) (by simp [four]; omega)
      refine ⟨buffer.take index, behind, ?_, by simp; omega⟩
      rw [List.append_assoc, same, List.take_append_drop]
    have first : FirstEnd front behind := earliest
    have front_taken : (front ++ headEnd ++ behind).take front.length = front := by simp
    rw [front_taken]
    by_cases even : Even (trailingReturns front)
    · rw [first.cut_iff before after request even int addressable]
      by_cases empty : front = []
      · subst empty
        have room : 4 ≤ headEnd.length + behind.length := by
          rw [four]
          omega
        simpa [room] using fun _ => delimiters_cons headEnd behind (by decide)
      · have visible : 0 < front.length := List.length_pos_iff.mpr empty
        exact iff_of_true (Or.inl empty) ⟨within, Or.inl ⟨by omega, even⟩⟩
    · refine iff_of_false (first.not_cut before after request even int addressable) ?_
      rintro ⟨_, ⟨_, also⟩ | ⟨size, _⟩⟩
      · exact even also
      · have empty : front = [] := List.eq_nil_of_length_eq_zero (by omega)
        exact even (by simp [empty])
  · refine iff_of_false (not_cut_of_absent before after request ?_ inside (by omega) addressable) ?_
    · rintro ⟨earlier, later, same⟩
      have bound := earliest earlier later same.symm
      have sizes := congrArg List.length same
      simp only [List.length_append, four] at sizes
      omega
    · rintro ⟨small, _⟩
      exact within small

/-- A request line with two CRs behind it: the search finds the end of the head behind
nineteen bytes, and the parser takes the whole buffer for the head. -/
theorem stray_return_moves_head :
    Searching.findSubstring (ascii "GET / HTTP/1.1\r\r\n\r\n") ⟨0, 19⟩ Searching.headEndString =
        some 19 ∧
      ¬ CutsHead [] (ascii "GET / HTTP/1.1\r\r\n\r\n") [] init 19 := by
  refine ⟨by decide, ?_⟩
  rintro ⟨requestHead, cut, same, _, size⟩
  have wrong : ((Parsing.cutHead (ascii "GET / HTTP/1.1\r\r\n\r\n") ⟨0, 19⟩ init).map
      fun result => result.2.length) = some 23 := by decide
  have equal : (ascii "GET / HTTP/1.1\r\r\n\r\n").length = 19 := by decide
  rw [List.nil_append, List.append_nil, List.length_nil, equal] at same
  rw [same, Option.map_some, Option.some.injEq] at wrong
  exact absurd (size.symm.trans wrong) (by decide)

/-- A request line with one CRLF behind it and another request in the same buffer. -/
theorem head_ends_where_found_pipelined :
    CutsHead [] (ascii "GET / HTTP/1.1\r\n\r\nGET /") [] init 18 :=
  (head_ends_where_found [] (ascii "GET / HTTP/1.1\r\n\r\nGET /") [] init 18 (by decide)
    (by decide) (by decide)).mpr ⟨by decide, Or.inl (by decide)⟩

end VHttp.VHttpRequest
