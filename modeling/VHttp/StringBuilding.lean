import VHttp.StringViews

/-!
# Strings on the heap

A string is in a valid state when its block is not empty and its length does not exceed
the block. The operations that edit it keep this state, always return, and act on the
bytes in use as the same edits on a list. Growing doubles the block and keeps its bytes.
-/

namespace VHttp.VString

variable {string : VString}

/-- The length in use fits the block, and the block is not empty. -/
structure Valid (string : VString) : Prop where
  fits : string.length ≤ string.capacity
  positive : 0 < string.capacity

/-- `VString_Init(NULL)` makes a valid empty string. -/
theorem init_valid : init.Valid where
  fits := Nat.zero_le _
  positive := by
    rw [capacity, init, List.length_replicate]
    decide

theorem Valid.content_length (valid : string.Valid) : string.content.length = string.length := by
  rw [content, List.length_take]
  exact Nat.min_eq_left valid.fits

/-- A block with the bytes in use at its front and at least some bytes behind them. -/
theorem block_split (string : VString) (room : Nat)
    (fits : string.length + room ≤ string.capacity) :
    ∃ spare : Bytes, string.block = string.content ++ spare ∧ room ≤ spare.length := by
  refine ⟨string.block.drop string.length, (List.take_append_drop _ _).symm, ?_⟩
  rw [List.length_drop]
  unfold capacity at fits
  omega

/-- `VString_Realloc` doubles the block of a valid string. -/
theorem Valid.realloc (valid : string.Valid) (fresh : Nat → UInt8) :
    (string.realloc fresh).Valid ∧ (string.realloc fresh).content = string.content ∧
      (string.realloc fresh).length = string.length ∧
      (string.realloc fresh).capacity = 2 * string.capacity := by
  have fits := valid.fits
  have positive := valid.positive
  have doubled : (string.realloc fresh).capacity = 2 * string.capacity := by
    have nonzero : string.capacity ≠ 0 := Nat.ne_of_gt positive
    simp only [VString.realloc, nonzero, ↓reduceIte]
    simp only [capacity, List.length_append, List.length_map, List.length_range]
    omega
  have same : (string.realloc fresh).length = string.length := rfl
  refine ⟨⟨by omega, by omega⟩, ?_, same, doubled⟩
  exact List.take_append_of_le_length fits

/-- The growth test of an edit leaves the contents and makes the room. -/
theorem Valid.grown (valid : string.Valid) (fresh : Nat → UInt8) (room : Nat) (small : room ≤ 1) :
    ∃ grown : VString,
      (if string.capacity ≤ string.length + room then string.realloc fresh else string) = grown ∧
        grown.Valid ∧ grown.content = string.content ∧ grown.length = string.length ∧
        string.length + 1 ≤ grown.capacity := by
  have fits := valid.fits
  have positive := valid.positive
  refine ⟨_, rfl, ?_⟩
  split
  · obtain ⟨still, contents, same, doubled⟩ := valid.realloc fresh
    exact ⟨still, contents, same, by omega⟩
  · exact ⟨valid, rfl, rfl, by omega⟩

/-- `VString_Append` puts a byte behind the contents. -/
theorem Valid.append (valid : string.Valid) (fresh : Nat → UInt8) (char : UInt8) :
    ∃ after, string.append fresh char = some after ∧ after.Valid ∧
      after.content = string.content ++ [char] := by
  obtain ⟨grown, isGrown, still, contents, length, room⟩ := valid.grown fresh 0 (by decide)
  rw [Nat.add_zero] at isGrown
  obtain ⟨spare, block, enough⟩ := block_split grown 1 (by omega)
  obtain ⟨erased, left, rfl⟩ := List.exists_cons_of_length_pos enough
  have size : grown.content.length = grown.length := still.content_length
  have written : Memory.writeRange grown.block grown.length [char] =
      some (grown.content ++ [char] ++ left) := by
    have range := writeRange_behind grown.content [erased] left [char] rfl
    rw [size] at range
    simpa [block] using range
  refine ⟨⟨grown.content ++ [char] ++ left, grown.length + 1⟩, ?_, ⟨?_, ?_⟩, ?_⟩
  · simp only [VString.append, isGrown, Option.bind_eq_bind, written, Option.bind_some,
      Option.pure_def]
  · simp [capacity, size]
  · simp [capacity]
  · have total : grown.length + 1 = (grown.content ++ [char]).length := by simp [size]
    rw [content, ← contents, total, List.take_left]

/-- `VString_Insert` puts a byte in front of the contents from an index on. -/
theorem Valid.insert (valid : string.Valid) (fresh : Nat → UInt8) (char : UInt8) (index : Nat)
    (inside : index ≤ string.length) :
    ∃ after, string.insert fresh index char = some after ∧ after.Valid ∧
      after.content = string.content.take index ++ char :: string.content.drop index := by
  obtain ⟨grown, isGrown, still, contents, length, room⟩ := valid.grown fresh 1 (by decide)
  obtain ⟨spare, block, enough⟩ := block_split grown 1 (by omega)
  have size : grown.content.length = grown.length := still.content_length
  rw [← contents]
  obtain ⟨front, behind, split, address⟩ : ∃ front behind, grown.content = front ++ behind ∧
      front.length = index :=
    ⟨_, _, (List.take_append_drop index _).symm, by simp; omega⟩
  have moved_length : grown.length - index = behind.length := by
    rw [← size, split]
    simp
    omega
  -- The bytes behind the index lie one place in front of where they are moved to.
  obtain ⟨first, others, opened⟩ : ∃ first others, behind ++ spare = first :: others :=
    List.exists_cons_of_length_pos (by simp; omega)
  have overwritten : others.take behind.length ++ others.drop behind.length = others :=
    List.take_append_drop _ _
  have others_length : behind.length ≤ others.length := by
    have sizes := congrArg List.length opened
    simp only [List.length_append, List.length_cons] at sizes
    omega
  have read : Memory.readRange grown.block index behind.length = some behind := by
    have range := readRange_behind front behind spare
    rw [address] at range
    simpa [block, split] using range
  have shifted : Memory.writeRange grown.block (index + 1) behind =
      some (front ++ [first] ++ behind ++ others.drop behind.length) := by
    have range := writeRange_behind (front ++ [first]) (others.take behind.length)
      (others.drop behind.length) behind (by simp; omega)
    rw [List.length_append, address, List.append_assoc (front ++ [first]), overwritten] at range
    simpa [block, split, opened] using range
  have written : Memory.writeRange (front ++ [first] ++ behind ++ others.drop behind.length) index
      [char] = some (front ++ [char] ++ behind ++ others.drop behind.length) := by
    have range := writeRange_behind front [first] (behind ++ others.drop behind.length) [char] rfl
    rw [address] at range
    simpa using range
  refine ⟨⟨front ++ [char] ++ behind ++ others.drop behind.length, grown.length + 1⟩, ?_, ⟨?_, ?_⟩,
    ?_⟩
  · have sameLength : string.length - index = behind.length := by omega
    simp only [VString.insert, isGrown, Option.bind_eq_bind, Memory.move, moved_length, read,
      Option.bind_some, shifted, written, Option.pure_def]
  · rw [← size, split]
    simp only [capacity, List.length_append, List.length_singleton, List.length_drop]
    omega
  · simp [capacity]
  · have total : grown.length + 1 = (front ++ [char] ++ behind).length := by
      rw [← size, split]
      simp
      omega
    rw [content, total, List.take_left, split, ← address]
    simp

/-- A byte inserted behind the first part of the contents. -/
theorem Valid.insert_between {front tail : Bytes} (valid : string.Valid)
    (contents : string.content = front ++ tail) (fresh : Nat → UInt8) (char : UInt8) :
    ∃ after, string.insert fresh front.length char = some after ∧ after.Valid ∧
      after.content = (front ++ [char]) ++ tail := by
  have inside : front.length ≤ string.length := by
    rw [← valid.content_length, contents, List.length_append]
    exact Nat.le_add_right _ _
  obtain ⟨after, inserted, still, total⟩ := valid.insert fresh char front.length inside
  rw [contents, List.take_left, List.drop_left] at total
  exact ⟨after, inserted, still, by simpa using total⟩

/-- The growing loop of a copy returns with more room than needed. -/
theorem Valid.growTo (valid : string.Valid) (fresh : Nat → UInt8) (needed fuel : Nat)
    (someFuel : 0 < fuel) (enough : needed + 1 < string.capacity + fuel) :
    ∃ after, string.growTo fresh needed fuel = some after ∧ after.Valid ∧
      after.content = string.content ∧ after.length = string.length ∧
      needed < after.capacity := by
  induction fuel generalizing string with
  | zero => omega
  | succ fuel inductionHypothesis =>
    rw [VString.growTo]
    by_cases short : string.capacity ≤ needed
    · obtain ⟨still, contents, same, doubled⟩ := valid.realloc fresh
      have positive := valid.positive
      obtain ⟨after, grown, valid, kept, length, room⟩ :=
        inductionHypothesis still (by omega) (by omega)
      rw [if_pos short]
      exact ⟨after, grown, valid, kept.trans contents, length.trans same, room⟩
    · rw [if_neg short]
      exact ⟨string, rfl, valid, rfl, rfl, by omega⟩

/-- A sequence of appended bytes. -/
theorem Valid.append_all (valid : string.Valid) (fresh : Nat → UInt8) (bytes : Bytes) :
    ∃ after, bytes.foldlM (VString.append fresh) string = some after ∧ after.Valid ∧
      after.content = string.content ++ bytes := by
  induction bytes generalizing string with
  | nil => exact ⟨string, rfl, valid, by simp⟩
  | cons char rest inductionHypothesis =>
    obtain ⟨middle, appended, still, contents⟩ := valid.append fresh char
    obtain ⟨after, remaining, result, total⟩ := inductionHypothesis still
    refine ⟨after, ?_, result, by simp [total, contents]⟩
    simp only [List.foldlM_cons, appended, Option.bind_eq_bind, Option.bind_some, remaining]

/-- A shorter length than the one in use keeps a valid string, with less in use. -/
theorem Valid.shorten (valid : string.Valid) (length : Nat) (shorter : length ≤ string.length) :
    ({ string with length := length } : VString).Valid ∧
      ({ string with length := length } : VString).content = string.content.take length := by
  refine ⟨⟨shorter.trans valid.fits, valid.positive⟩, ?_⟩
  rw [content, content, List.take_take, Nat.min_eq_left shorter]

/-- The bytes in use, overwritten with zeros. -/
theorem Valid.cleared (valid : string.Valid) :
    ({ string with
        block := List.replicate string.length 0 ++ string.block.drop string.length } : VString).Valid ∧
      ({ string with
        block := List.replicate string.length 0 ++ string.block.drop string.length } : VString).content =
        List.replicate string.length 0 := by
  have fits := valid.fits
  have positive := valid.positive
  have size : (List.replicate string.length (0 : UInt8) ++
      string.block.drop string.length).length = string.capacity := by
    simp only [List.length_append, List.length_replicate, List.length_drop, capacity] at fits ⊢
    omega
  refine ⟨⟨fits.trans_eq size.symm, positive.trans_eq size.symm⟩, ?_⟩
  exact List.take_left' List.length_replicate

/-- `VString_CopyCString` clears the bytes in use and appends behind them, so that it
leaves the source only as far as zeros of the old length do not take its place. -/
theorem Valid.copyCString_exact (valid : string.Valid) (fresh : Nat → UInt8) (source : Bytes) :
    ∃ after, string.copyCString fresh source = some after ∧ after.Valid ∧
      after.content = (List.replicate string.length 0 ++ source).take source.length := by
  obtain ⟨grown, isGrown, still, contents, length, _⟩ := valid.growTo fresh source.length
    (source.length + 1) (Nat.succ_pos _) (by have positive := valid.positive; omega)
  obtain ⟨cleared, isCleared, clearedValid, zeros⟩ : ∃ cleared : VString,
      (if grown.length ≠ 0 then
        { grown with block := List.replicate grown.length 0 ++ grown.block.drop grown.length }
      else grown) = cleared ∧ cleared.Valid ∧ cleared.content = List.replicate string.length 0 := by
    refine ⟨_, rfl, ?_⟩
    rw [← length]
    split
    · exact still.cleared
    · rename_i empty
      have zero : grown.length = 0 := not_not.mp empty
      exact ⟨still, by rw [content, zero, List.take_zero, List.replicate_zero]⟩
  obtain ⟨after, appended, result, total⟩ := clearedValid.append_all fresh source
  have room : source.length ≤ after.length := by
    rw [← result.content_length, total, List.length_append]
    exact Nat.le_add_left _ _
  obtain ⟨shortened, taken⟩ := result.shorten source.length room
  refine ⟨{ after with length := source.length }, ?_, shortened, ?_⟩
  · simp only [VString.copyCString, isGrown, Option.bind_eq_bind, Option.bind_some, isCleared,
      appended, Option.pure_def]
  · rw [taken, total, zeros]

/-- `VString_CopyCString` into an empty string. -/
theorem Valid.copyCString (valid : string.Valid) (fresh : Nat → UInt8)
    (empty : string.length = 0) (source : Bytes) :
    ∃ after, string.copyCString fresh source = some after ∧ after.Valid ∧
      after.content = source := by
  obtain ⟨after, copied, result, contents⟩ := valid.copyCString_exact fresh source
  refine ⟨after, copied, result, ?_⟩
  rw [contents, empty, List.replicate_zero, List.nil_append, List.take_length]

end VHttp.VString
