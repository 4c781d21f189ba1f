import Mathlib.Data.List.DropRight
import VHttp.VString

/-!
# Trimming

`VString_Trim` looks from both ends for a byte that is not white space and moves what is in
between to the front. Neither loop looks at the length, so that it takes a byte that is not
white space to stop them inside the string.

`Start`, `End` and `NewLen` are ints. The length is cut to 32 bits where the last index is
taken, and a negative one counts back from the front of the string. An int that overflows has
no result.
-/

namespace VHttp

/-- The bytes without the white space around them. -/
def core (content : Bytes) : Bytes := (content.dropWhile isSpace).rdropWhile isSpace

/-- Bytes that begin and end with one that is not white space. -/
structure Trimmed (core : Bytes) : Prop where
  opens : ∃ byte tail, core = byte :: tail ∧ isSpace byte = false
  closes : ∃ front byte, core = front ++ [byte] ∧ isSpace byte = false

theorem Trimmed.positive {core : Bytes} (trimmed : Trimmed core) : 0 < core.length := by
  obtain ⟨byte, tail, opened, _⟩ := trimmed.opens
  rw [opened]
  exact Nat.succ_pos _

/-- Bytes that are not all white space are a core between white space. -/
theorem core_split {content : Bytes} (printed : ∃ byte ∈ content, isSpace byte = false) :
    Trimmed (core content) ∧ ∃ lead trail, content = lead ++ core content ++ trail ∧
      (∀ byte ∈ lead, isSpace byte = true) ∧ (∀ byte ∈ trail, isSpace byte = true) := by
  obtain ⟨shown, member, visible⟩ := printed
  have remains : content.dropWhile isSpace ≠ [] := by
    intro blank
    have all := List.dropWhile_eq_nil_iff.mp blank shown member
    simp [visible] at all
  have nonempty : core content ≠ [] := by
    intro blank
    have all := List.rdropWhile_eq_nil_iff.mp blank
    have first := List.head_dropWhile_not isSpace remains
    simp [all _ (List.head_mem remains)] at first
  refine ⟨⟨?_, ?_⟩, content.takeWhile isSpace,
    (content.dropWhile isSpace).rtakeWhile isSpace, ?_, ?_, ?_⟩
  · obtain ⟨tail, same⟩ := List.rdropWhile_prefix isSpace (l := content.dropWhile isSpace)
    cases inner : core content with
    | nil => exact absurd inner nonempty
    | cons byte others =>
      refine ⟨byte, others, rfl, ?_⟩
      have opened : content.dropWhile isSpace = byte :: (others ++ tail) := by
        rw [← same]
        exact congrArg (· ++ tail) inner
      have first := List.head_dropWhile_not isSpace remains
      simpa [opened] using first
  · refine ⟨(core content).dropLast, (core content).getLast nonempty,
      (List.dropLast_concat_getLast nonempty).symm, ?_⟩
    have last := List.rdropWhile_last_not isSpace (content.dropWhile isSpace) nonempty
    exact Bool.eq_false_iff.mpr last
  · rw [core, List.append_assoc, List.rdropWhile_append_rtakeWhile,
      List.takeWhile_append_dropWhile]
  · exact fun byte member => List.mem_takeWhile_imp member
  · exact fun byte member => List.mem_rtakeWhile_imp member

/-- The first loop of a trim stops at the first byte that is not white space. -/
theorem skipForward_blank (before blank rest : Bytes) (byte : UInt8) (fuel : Nat)
    (spaces : ∀ space ∈ blank, isSpace space = true) (visible : isSpace byte = false)
    (enough : blank.length < fuel) :
    skipForward (before ++ blank ++ byte :: rest) fuel before.length =
      some (before.length + blank.length) := by
  induction blank generalizing before fuel with
  | nil =>
    obtain ⟨left, rfl⟩ : ∃ left, fuel = left + 1 := ⟨fuel - 1, by simp at enough; omega⟩
    simp [skipForward, visible]
  | cons space blank inductionHypothesis =>
    rw [List.length_cons] at enough
    obtain ⟨left, rfl⟩ : ∃ left, fuel = left + 1 := ⟨fuel - 1, by omega⟩
    have tail := inductionHypothesis (before ++ [space]) left
      (fun other member => spaces other (by simp [member])) (by omega)
    have read : (before ++ space :: blank ++ byte :: rest)[before.length]? = some space := by simp
    simp only [skipForward, read, Option.bind_eq_bind, Option.bind_some, spaces space (by simp),
      ↓reduceIte]
    have position : (before ++ [space]).length + blank.length =
        before.length + (space :: blank).length := by
      simp only [List.length_append, List.length_cons, List.length_nil]
      omega
    rw [position] at tail
    simpa using tail

/-- The second loop stops behind the last byte that is not white space. -/
theorem skipBackward_blank (before blank rest : Bytes) (byte : UInt8)
    (spaces : ∀ space ∈ blank, isSpace space = true) (visible : isSpace byte = false) :
    skipBackward (before ++ [byte] ++ blank ++ rest) (before.length + 1 + blank.length) =
      some (before.length + 1) := by
  induction blank using List.reverseRecOn generalizing rest with
  | nil => simp [skipBackward, visible]
  | append_singleton blank space inductionHypothesis =>
    have tail := inductionHypothesis (space :: rest)
      (fun other member => spaces other (by simp [member]))
    have read : (before ++ [byte] ++ (blank ++ [space]) ++ rest)[
        before.length + 1 + blank.length]? = some space := by
      have shape : before ++ [byte] ++ (blank ++ [space]) ++ rest =
          (before ++ [byte] ++ blank) ++ space :: rest := by simp
      have position : before.length + 1 + blank.length = (before ++ [byte] ++ blank).length := by
        simp only [List.length_append, List.length_singleton]
      rw [shape, position]
      exact read_behind _ _ _
    have position : before.length + 1 + (blank ++ [space]).length =
        before.length + 1 + blank.length + 1 := by simp [Nat.add_assoc]
    rw [position]
    simp only [skipBackward, read, Option.bind_eq_bind, Option.bind_some, spaces space (by simp),
      ↓reduceIte]
    simpa using tail

section Core

variable {core lead trail : Bytes}

/-- The first loop stops where the core begins. -/
theorem skipForward_core (before rest : Bytes) (trimmed : Trimmed core)
    (leadBlank : ∀ byte ∈ lead, isSpace byte = true) :
    skipForward (before ++ (lead ++ core) ++ rest) (before ++ (lead ++ core) ++ rest).length
      before.length = some (before.length + lead.length) := by
  obtain ⟨first, tail, opened, visible⟩ := trimmed.opens
  have forward := skipForward_blank before lead (tail ++ rest) first
    (before ++ (lead ++ core) ++ rest).length leadBlank visible (by simp [opened]; omega)
  simpa [opened] using forward

/-- The second loop stops where it ends. -/
theorem skipBackward_core (before rest : Bytes) (trimmed : Trimmed core)
    (trailBlank : ∀ byte ∈ trail, isSpace byte = true) :
    skipBackward (before ++ core ++ trail ++ rest) (before.length + core.length + trail.length) =
      some (before.length + core.length) := by
  obtain ⟨front, last, closed, visible⟩ := trimmed.closes
  have backward := skipBackward_blank (before ++ front) trail rest last trailBlank visible
  have behind : (before ++ front).length + 1 = before.length + core.length := by
    rw [closed, List.length_append, List.length_append, List.length_singleton]
    omega
  rw [behind] at backward
  simpa [closed] using backward

/-- The core is moved to the front. -/
theorem move_core (before lead core trail rest : Bytes) :
    Memory.move (before ++ (lead ++ core ++ trail) ++ rest) before.length
        (before.length + lead.length) core.length =
      some (before ++ core ++ (lead ++ core ++ trail).drop core.length ++ rest) := by
  have read : Memory.readRange (before ++ (lead ++ core ++ trail) ++ rest)
      (before.length + lead.length) core.length = some core := by
    have range := readRange_behind (before ++ lead) core (trail ++ rest)
    simpa using range
  have written : Memory.writeRange (before ++ (lead ++ core ++ trail) ++ rest) before.length core =
      some (before ++ core ++ (lead ++ core ++ trail).drop core.length ++ rest) := by
    have range := writeRange_behind before ((lead ++ core ++ trail).take core.length)
      ((lead ++ core ++ trail).drop core.length ++ rest) core (by simp; omega)
    rw [← List.append_assoc, List.append_assoc before, List.take_append_drop] at range
    simpa using range
  simp only [Memory.move, read, Option.bind_eq_bind, Option.bind_some, written]

/-- `VString_Trim` moves the core of a view to its front and leaves the rest of the view
as it was. -/
theorem trim_core (before lead core trail rest : Bytes) (trimmed : Trimmed core)
    (leadBlank : ∀ byte ∈ lead, isSpace byte = true)
    (trailBlank : ∀ byte ∈ trail, isSpace byte = true) :
    trim (before ++ (lead ++ core ++ trail) ++ rest)
        ⟨before.length, (lead ++ core ++ trail).length⟩ =
      some (before ++ core ++ (lead ++ core ++ trail).drop core.length ++ rest,
        ⟨before.length, core.length⟩) := by
  have start := skipForward_core before (trail ++ rest) trimmed leadBlank
  have stop := skipBackward_core (before ++ lead) rest trimmed trailBlank
  have whole : before ++ (lead ++ core) ++ (trail ++ rest) =
      before ++ (lead ++ core ++ trail) ++ rest := by simp
  have same : before ++ lead ++ core ++ trail ++ rest =
      before ++ (lead ++ core ++ trail) ++ rest := by simp
  have position : (before ++ lead).length + core.length + trail.length =
      before.length + (lead ++ core ++ trail).length := by
    simp only [List.length_append]
    omega
  have size : (before ++ lead).length + core.length - (before.length + lead.length) =
      core.length := by
    rw [List.length_append]
    omega
  have ordered : before.length + lead.length ≤ (before ++ lead).length + core.length := by
    rw [List.length_append]
    omega
  rw [whole] at start
  rw [same, position] at stop
  simp only [trim, start, stop, Option.bind_eq_bind, Option.bind_some, guard, ordered, ↓reduceIte,
    size, move_core, Option.pure_def]

end Core

end VHttp

namespace VHttp.Trimming

/-- `End` at the start: the length less one as a u64, and that as an s32. -/
def lastIndex (length : Nat) : Int := Int.bmod ((length - 1 : Int) % 2 ^ 64) (2 ^ 32)

/-- `VString_Trim` with its variables at their widths. A negative number of bytes to move is a
size_t beyond any memory. -/
def trim (memory : Memory) (string : VStringView) : Option (Memory × VStringView) := do
  let start ← skipForward memory memory.length string.data
  guard (start < string.data + 2 ^ 31)
  let stop ← skipBackward memory (string.data + lastIndex string.length + 1).toNat
  guard (string.data < stop + 2 ^ 31)
  guard (start ≤ stop ∧ stop < start + 2 ^ 31)
  let moved ← memory.move string.data start (stop - start)
  pure (moved, { string with length := stop - start })

/-- What a trim owes: the core at the front of the string and its length, with nothing changed
outside the string, and the same whatever lies on either side, also if nothing does. -/
def TrimsExactly (content : Bytes) : Prop :=
  ∃ left, (core content).length + left.length = content.length ∧ ∀ before after,
    trim (before ++ content ++ after) ⟨before.length, content.length⟩ =
      some (before ++ core content ++ left ++ after, ⟨before.length, (core content).length⟩)

/-- There is a byte that is not white space, and `End` starts inside the string with only white
space behind it. The core is one that an int can count. -/
structure Trimmable (content : Bytes) : Prop where
  printed : ∃ byte ∈ content, isSpace byte = false
  index : 0 ≤ lastIndex content.length
  ended : ∀ byte ∈ content.drop (lastIndex content.length + 1).toNat, isSpace byte = true
  short : (core content).length < 2 ^ 31

theorem lastIndex_lt (length : Nat) : lastIndex length < 2 ^ 31 := by
  have below := @Int.bmod_lt ((length - 1 : Int) % 2 ^ 64) (2 ^ 32) (Nat.two_pow_pos 32)
  have same : lastIndex length = Int.bmod ((length - 1 : Int) % 2 ^ 64) (2 ^ 32) := rfl
  omega

/-- The last index of a string that is not empty and shorter than 2^31. -/
theorem lastIndex_short {length : Nat} (positive : 0 < length) (short : length ≤ 2 ^ 31) :
    lastIndex length = length - 1 := by
  have width : ((2 ^ 32 : Nat) : Int) = 4294967296 := by norm_cast
  have same : (length - 1 : Int) % 2 ^ 64 = length - 1 := by omega
  rw [lastIndex, same]
  refine Int.bmod_eq_of_le ?_ ?_
  · rw [width]
    omega
  · rw [width]
    omega

/-- `End` is no index behind the string. -/
theorem lastIndex_le {length : Nat} (index : 0 ≤ lastIndex length) :
    lastIndex length + 1 ≤ length := by
  have same : lastIndex length = Int.bmod ((length - 1 : Int) % 2 ^ 64) (2 ^ 32) := rfl
  rw [Int.bmod_def] at same
  split at same
  · by_cases empty : length = 0
    · subst empty
      simp at same
      omega
    · omega
  · omega

section Loops

variable {memory : Memory}

/-- The first loop goes on to a byte that is not white space. -/
theorem skipForward_stops {fuel address start : Nat}
    (stopped : skipForward memory fuel address = some start) :
    address ≤ start ∧ ∃ byte, memory[start]? = some byte ∧ isSpace byte = false := by
  induction fuel generalizing address with
  | zero => cases stopped
  | succ fuel inductionHypothesis =>
    simp only [skipForward, Option.bind_eq_bind, Option.bind_eq_some_iff] at stopped
    obtain ⟨byte, read, further⟩ := stopped
    split at further
    · obtain ⟨later, found⟩ := inductionHypothesis further
      exact ⟨by omega, found⟩
    · rename_i visible
      obtain rfl := Option.some.inj further
      exact ⟨Nat.le_refl _, byte, read, Bool.eq_false_iff.mpr visible⟩

/-- The second loop goes back, from inside the memory. -/
theorem skipBackward_stops {address stop : Nat}
    (stopped : skipBackward memory address = some stop) :
    stop ≤ address ∧ address ≤ memory.length := by
  induction address with
  | zero => cases stopped
  | succ address inductionHypothesis =>
    simp only [skipBackward, Option.bind_eq_bind, Option.bind_eq_some_iff] at stopped
    obtain ⟨byte, read, further⟩ := stopped
    have inside := (List.getElem?_eq_some_iff.mp read).1
    split at further
    · exact ⟨Nat.le_succ_of_le (inductionHypothesis further).1, inside⟩
    · exact ⟨(Option.some.inj further).ge, inside⟩

/-- On a string that ints can count, this is the trim that counts in naturals. A trim that has
a result has found both its ends inside the string. -/
theorem trim_eq {string : VStringView} (short : string.length < 2 ^ 31) :
    trim memory string = VHttp.trim memory string := by
  have last : (string.data + lastIndex string.length + 1).toNat = string.data + string.length := by
    by_cases empty : string.length = 0
    · rw [empty, show lastIndex 0 = -1 by decide]
      omega
    · rw [lastIndex_short (Nat.pos_of_ne_zero empty) (Nat.le_of_lt short)]
      omega
  ext result : 1
  rw [trim, VHttp.trim, last]
  simp only [Option.bind_eq_bind, Option.bind_eq_some_iff, Option.guard_eq_some']
  constructor
  · rintro ⟨start, forward, _, _, stop, backward, _, _, more, ordered, moved⟩
    exact ⟨start, forward, stop, backward, more, ordered.1, moved⟩
  · rintro ⟨start, forward, stop, backward, more, ordered, moved⟩
    have behind := (skipForward_stops forward).1
    have back := (skipBackward_stops backward).1
    exact ⟨start, forward, more, by omega, stop, backward, more, by omega, more,
      ⟨ordered, by omega⟩, moved⟩

end Loops

/-- A trim that has a result has found a core, which ends in front of `End`. -/
theorem trimmable_of_trims {content : Bytes} (trims : TrimsExactly content) :
    Trimmable content := by
  obtain ⟨left, sizes, trims⟩ := trims
  have trimmed := trims [] []
  simp only [List.nil_append, List.append_nil, List.length_nil, trim, Option.bind_eq_bind,
    Option.bind_eq_some_iff, Option.guard_eq_some', Option.pure_def, Option.some.injEq,
    Prod.mk.injEq, VStringView.mk.injEq, true_and] at trimmed
  obtain ⟨start, forward, _, _, stop, backward, _, _, _, ⟨ordered, int⟩, _, _, _, size⟩ := trimmed
  obtain ⟨_, byte, read, visible⟩ := skipForward_stops forward
  have printed : ∃ byte ∈ content, isSpace byte = false :=
    ⟨byte, List.mem_of_getElem? read, visible⟩
  obtain ⟨isCore, lead, trail, split, leadBlank, trailBlank⟩ := core_split printed
  have isStart := skipForward_core [] trail isCore leadBlank
  rw [List.nil_append, ← split, List.length_nil, Nat.zero_add] at isStart
  obtain rfl := Option.some.inj (forward.symm.trans isStart)
  have inside := (skipBackward_stops backward).1
  have positive := isCore.positive
  have reached : (lead ++ core content).length ≤ (lastIndex content.length + 1).toNat := by
    rw [List.length_append]
    omega
  refine ⟨printed, by omega, fun byte member => trailBlank byte ?_, by omega⟩
  generalize (lastIndex content.length + 1).toNat = count at member reached
  rw [split, List.drop_append, List.drop_eq_nil_of_le reached, List.nil_append] at member
  exact List.mem_of_mem_drop member

/-- With `End` behind the core, or behind white space that follows it, the core is moved. -/
theorem trim_parts (before lead core skipped rest after : Bytes) (trimmed : Trimmed core)
    (leadBlank : ∀ byte ∈ lead, isSpace byte = true)
    (skippedBlank : ∀ byte ∈ skipped, isSpace byte = true)
    (last : lastIndex (lead ++ core ++ (skipped ++ rest)).length + 1 =
      (lead ++ core ++ skipped).length)
    (short : core.length < 2 ^ 31) :
    trim (before ++ (lead ++ core ++ (skipped ++ rest)) ++ after)
        ⟨before.length, (lead ++ core ++ (skipped ++ rest)).length⟩ =
      some (before ++ core ++ (lead ++ core ++ (skipped ++ rest)).drop core.length ++ after,
        ⟨before.length, core.length⟩) := by
  have int := lastIndex_lt (lead ++ core ++ (skipped ++ rest)).length
  have positive := trimmed.positive
  have start := skipForward_core before (skipped ++ rest ++ after) trimmed leadBlank
  have stop := skipBackward_core (before ++ lead) (rest ++ after) trimmed skippedBlank
  have whole : before ++ (lead ++ core) ++ (skipped ++ rest ++ after) =
      before ++ (lead ++ core ++ (skipped ++ rest)) ++ after := by simp
  have same : before ++ lead ++ core ++ skipped ++ (rest ++ after) =
      before ++ (lead ++ core ++ (skipped ++ rest)) ++ after := by simp
  have sizes : (lead ++ core ++ skipped).length = lead.length + core.length + skipped.length := by
    simp only [List.length_append]
  have position : (before.length + lastIndex (lead ++ core ++ (skipped ++ rest)).length + 1).toNat =
      before.length + lead.length + core.length + skipped.length := by omega
  have forward : before.length + lead.length < before.length + 2 ^ 31 := by omega
  have backward : before.length < before.length + lead.length + core.length + 2 ^ 31 := by omega
  have ordered : before.length + lead.length ≤ before.length + lead.length + core.length ∧
      before.length + lead.length + core.length < before.length + lead.length + 2 ^ 31 := by omega
  have size : before.length + lead.length + core.length - (before.length + lead.length) =
      core.length := by omega
  rw [whole] at start
  rw [same, List.length_append] at stop
  rw [← position] at stop
  refine Option.bind_eq_some_iff.mpr ⟨_, start, ?_⟩
  refine Option.bind_eq_some_iff.mpr ⟨(), (Option.guard_eq_some' _).mpr forward, ?_⟩
  refine Option.bind_eq_some_iff.mpr ⟨_, stop, ?_⟩
  refine Option.bind_eq_some_iff.mpr ⟨(), (Option.guard_eq_some' _).mpr backward, ?_⟩
  refine Option.bind_eq_some_iff.mpr ⟨(), (Option.guard_eq_some' _).mpr ordered, ?_⟩
  rw [size, move_core]
  rfl

/-- For every string, `VString_Trim` leaves the core at its front, whatever lies on either side
and without looking there, exactly if the string has a byte that is not white space and its
last index fits an int, so far as only white space is behind it. -/
theorem trims_exactly_iff (content : Bytes) : TrimsExactly content ↔ Trimmable content := by
  constructor
  · exact trimmable_of_trims
  · rintro ⟨printed, index, ended, short⟩
    obtain ⟨isCore, lead, trail, split, leadBlank, trailBlank⟩ := core_split printed
    have inside := lastIndex_le index
    obtain ⟨count, isCount⟩ : ∃ count : Nat, lastIndex content.length + 1 = count :=
      ⟨_, (Int.toNat_of_nonneg (by omega)).symm⟩
    rw [isCount, Int.toNat_natCast] at ended
    have sizes := congrArg List.length split
    simp only [List.length_append] at sizes
    refine ⟨content.drop (core content).length, by rw [List.length_drop]; omega,
      fun before after => ?_⟩
    generalize core content = inner at isCore split short sizes ⊢
    subst split
    -- The core ends in front of `End`, as its last byte is not white space.
    have reached : lead.length + inner.length ≤ count := by
      by_contra beyond
      obtain ⟨front, byte, closed, visible⟩ := isCore.closes
      have place : count ≤ (lead ++ front).length := by
        rw [closed, List.length_append, List.length_singleton] at beyond
        rw [List.length_append]
        omega
      have shown : byte ∈ (lead ++ inner ++ trail).drop count := by
        have parts : lead ++ inner ++ trail = lead ++ front ++ byte :: trail := by simp [closed]
        rw [parts, List.drop_append_of_le_length place]
        exact List.mem_append_right _ List.mem_cons_self
      rw [ended byte shown] at visible
      cases visible
    have parts := trim_parts before lead inner (trail.take (count - (lead.length + inner.length)))
      (trail.drop (count - (lead.length + inner.length))) after isCore leadBlank
      (fun byte member => trailBlank byte (List.mem_of_mem_take member)) ?_ short
    · rw [List.take_append_drop] at parts
      exact parts
    · rw [List.take_append_drop, isCount]
      simp only [List.length_append, List.length_take]
      omega

/-- " a " is trimmed to "a". -/
theorem trims_exactly_iff_letter : TrimsExactly [32, 97, 32] :=
  (trims_exactly_iff [32, 97, 32]).mpr
    ⟨⟨97, by decide, by decide⟩, by decide, by decide +kernel, by decide⟩

/-- A blank string has nothing to stop at. -/
theorem blank_runs_out : ¬ ∀ content : Bytes, content.length < 2 ^ 64 → TrimsExactly content := by
  intro always
  obtain ⟨left, _, trims⟩ := always [32] (by decide)
  exact absurd (trims [] []) (by simp [trim, skipForward, isSpace])

end VHttp.Trimming
