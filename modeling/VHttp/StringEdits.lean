import VHttp.StringBuilding

/-!
# Edits of a string are edits of a list

A string made with any text and any capacity goes through any sequence of appends,
insertions, removals, concatenations and copies. Each of them keeps the valid state, from
which the next one starts, and acts on the bytes in use as the same edit on a list. An
access outside the block would have no result, so that the edits return is the claim that
every byte they move or write lies below the capacity.
-/

namespace VHttp.VString

variable {string : VString}

/-- `VString_Remove` moves the bytes behind the index one place down. -/
theorem Valid.remove (valid : string.Valid) (index : Nat) :
    ∃ after, string.remove index = some after ∧ after.Valid ∧
      after.content = string.content.eraseIdx index := by
  by_cases outside : string.length ≤ index
  · refine ⟨string, by rw [VString.remove, if_pos outside], valid, ?_⟩
    rw [List.eraseIdx_of_length_le (by rw [valid.content_length]; exact outside)]
  · have size := valid.content_length
    obtain ⟨spare, block, _⟩ := block_split string 0 valid.fits
    obtain ⟨front, erased, behind, split, address⟩ : ∃ front erased behind,
        string.content = front ++ erased :: behind ∧ front.length = index := by
      have inside : index < string.content.length := by omega
      refine ⟨string.content.take index, string.content[index], string.content.drop (index + 1),
        ?_, by simp; omega⟩
      rw [← List.drop_eq_getElem_cons inside, List.take_append_drop]
    have moved_length : string.length - index - 1 = behind.length := by
      rw [← size, split]
      simp
      omega
    have read : Memory.readRange string.block (index + 1) behind.length = some behind := by
      have range := readRange_behind (front ++ [erased]) behind spare
      rw [List.length_append, address, List.length_singleton] at range
      simpa [block, split] using range
    -- What is moved down leaves its own last byte behind it.
    obtain ⟨last, whole, lastLength⟩ : ∃ last, erased :: behind =
        (erased :: behind).take behind.length ++ last ∧ last.length = 1 := by
      refine ⟨(erased :: behind).drop behind.length, (List.take_append_drop _ _).symm, ?_⟩
      simp
    have written : Memory.writeRange string.block index behind =
        some (front ++ behind ++ (last ++ spare)) := by
      have range := writeRange_behind front ((erased :: behind).take behind.length) (last ++ spare)
        behind (by simp)
      rw [address, List.append_assoc front, ← List.append_assoc _ last, ← whole] at range
      simpa [block, split] using range
    have total : string.length - 1 = (front ++ behind).length := by
      rw [← size, split]
      simp
    refine ⟨⟨front ++ behind ++ (last ++ spare), string.length - 1⟩, ?_, ⟨?_, ?_⟩, ?_⟩
    · simp only [VString.remove, outside, ↓reduceIte, Option.bind_eq_bind, Memory.move,
        moved_length, read, Option.bind_some, written, Option.pure_def]
    · simp only [capacity, total, List.length_append]
      omega
    · simp only [capacity, List.length_append, lastLength]
      omega
    · rw [content, total, List.take_left, split, ← address,
        List.eraseIdx_append_of_length_le (Nat.le_refl _), Nat.sub_self, List.eraseIdx_cons_zero]

/-- The loop of the concatenations appends the bytes it reads. -/
theorem Valid.concatLoop (valid : string.Valid) (fresh : Nat → UInt8) (source : Bytes)
    (remaining index : Nat) (inside : index + remaining ≤ source.length) :
    ∃ after, VString.concatLoop fresh source remaining index string = some after ∧ after.Valid ∧
      after.content = string.content ++ (source.drop index).take remaining := by
  induction remaining generalizing string index with
  | zero => exact ⟨string, rfl, valid, by simp⟩
  | succ remaining inductionHypothesis =>
    have within : index < source.length := by omega
    obtain ⟨middle, appended, still, contents⟩ := valid.append fresh source[index]
    obtain ⟨after, returned, result, total⟩ := inductionHypothesis still (index + 1) (by omega)
    refine ⟨after, ?_, result, ?_⟩
    · simp only [VString.concatLoop, List.getElem?_eq_getElem within, Option.bind_eq_bind,
        Option.bind_some, appended, returned]
    · rw [total, contents, List.drop_eq_getElem_cons within, List.take_succ_cons,
        List.append_assoc, List.singleton_append]

/-- A loop that returns has read inside its source. -/
theorem concatLoop_inside {fresh : Nat → UInt8} {source : Bytes} {remaining index : Nat}
    {string after : VString}
    (returned : VString.concatLoop fresh source remaining index string = some after)
    (within : index ≤ source.length) : index + remaining ≤ source.length := by
  induction remaining generalizing string index with
  | zero => exact within
  | succ remaining inductionHypothesis =>
    simp only [VString.concatLoop, Option.bind_eq_bind, Option.bind_eq_some_iff] at returned
    obtain ⟨char, read, middle, _, rest⟩ := returned
    obtain ⟨inside, _⟩ := List.getElem?_eq_some_iff.mp read
    have further := inductionHypothesis rest inside
    omega

/-- `VString_ConcatCString`. -/
theorem Valid.concatCString (valid : string.Valid) (fresh : Nat → UInt8) (source : Bytes)
    (short : source.length < 2 ^ 31) :
    ∃ after, string.concatCString fresh source = some after ∧ after.Valid ∧
      after.content = string.content ++ source := by
  obtain ⟨grown, isGrown, still, contents, _⟩ := valid.growTo fresh
    (source.length + string.length) (source.length + string.length + 1) (Nat.succ_pos _)
    (by have positive := valid.positive; omega)
  obtain ⟨after, returned, result, total⟩ :=
    still.concatLoop fresh source source.length 0 (by omega)
  refine ⟨after, ?_, result, by rw [total, contents, List.drop_zero, List.take_length]⟩
  simp only [VString.concatCString, isGrown, Option.bind_eq_bind, Option.bind_some, guard, short,
    ↓reduceIte, Option.pure_def, returned]

/-- `VString_Concat`, from another string. -/
theorem Valid.concat (valid : string.Valid) (fresh : Nat → UInt8) (source : VString)
    (fits : source.length ≤ source.capacity) (short : source.length < 2 ^ 31) :
    ∃ after, string.concat fresh source = some after ∧ after.Valid ∧
      after.content = string.content ++ source.content := by
  obtain ⟨grown, isGrown, still, contents, _⟩ := valid.growTo fresh
    (source.length + string.length) (source.length + string.length + 1) (Nat.succ_pos _)
    (by have positive := valid.positive; omega)
  obtain ⟨after, returned, result, total⟩ :=
    still.concatLoop fresh source.block source.length 0 (by rw [Nat.zero_add]; exact fits)
  refine ⟨after, ?_, result, by rw [total, contents, List.drop_zero]; rfl⟩
  simp only [VString.concat, isGrown, Option.bind_eq_bind, Option.bind_some, guard, short,
    ↓reduceIte, Option.pure_def, returned]

/-- A string that was made empty by `VString_Init` and filled from its front on: behind it
lie the zeros of its first block, and behind those what reallocating has left there. -/
structure Backed (fresh : Nat → UInt8) (string : VString) : Prop where
  valid : string.Valid
  large : initTextSize ≤ string.capacity
  left : ∀ offset, string.length ≤ offset → offset < string.capacity →
    string.block[offset]? = some (if offset < initTextSize then 0 else fresh offset)

section Backed

variable {fresh : Nat → UInt8}

theorem init_backed : Backed fresh init where
  valid := init_valid
  large := by rw [capacity, init, List.length_replicate]
  left := by
    intro offset _ inside
    rw [capacity, init, List.length_replicate] at inside
    rw [init, List.getElem?_replicate, if_pos inside, if_pos inside]

/-- Growing leaves what it likes behind the old block. -/
theorem Backed.realloc (backed : Backed fresh string) : Backed fresh (string.realloc fresh) := by
  obtain ⟨valid, large, left⟩ := backed
  obtain ⟨still, _, length, doubled⟩ := valid.realloc fresh
  refine ⟨still, by omega, ?_⟩
  intro offset behind inside
  rw [length] at behind
  have nonzero : string.capacity ≠ 0 := Nat.ne_of_gt valid.positive
  by_cases old : offset < string.capacity
  · rw [VString.realloc, List.getElem?_append_left old, left offset behind old]
  · have added : offset - string.block.length < 2 * string.capacity - string.capacity := by
      unfold capacity at old inside doubled ⊢
      omega
    have position : string.capacity + (offset - string.block.length) = offset := by
      unfold capacity at old ⊢
      omega
    rw [VString.realloc, List.getElem?_append_right (Nat.le_of_not_lt old), if_neg nonzero,
      Nat.mul_comm, List.getElem?_map, List.getElem?_range added, Option.map_some, position,
      if_neg (by omega)]

/-- Appending changes nothing behind the byte it appends. -/
theorem Backed.append (backed : Backed fresh string) {char : UInt8} {after : VString}
    (appended : string.append fresh char = some after) :
    Backed fresh after ∧ string.capacity ≤ after.capacity := by
  obtain ⟨same, isSame, still, _⟩ := backed.valid.append fresh char
  obtain rfl := Option.some.inj (isSame.symm.trans appended)
  obtain ⟨grown, isGrown, backing, larger⟩ : ∃ grown : VString,
      (if string.capacity ≤ string.length then string.realloc fresh else string) = grown ∧
        Backed fresh grown ∧ string.capacity ≤ grown.capacity := by
    refine ⟨_, rfl, ?_⟩
    split
    · obtain ⟨_, _, _, doubled⟩ := backed.valid.realloc fresh
      exact ⟨backed.realloc, by omega⟩
    · exact ⟨backed, Nat.le_refl _⟩
  simp only [VString.append, isGrown, Option.bind_eq_bind, Option.bind_eq_some_iff, Option.pure_def,
    Option.some.injEq] at appended
  obtain ⟨block, written, rfl⟩ := appended
  have size := writeRange_length written
  refine ⟨⟨still, backing.large.trans_eq size.symm, ?_⟩, larger.trans_eq size.symm⟩
  intro offset behind inside
  rw [writeRange_behind_kept written behind]
  exact backing.left offset (Nat.le_of_succ_le behind) (inside.trans_eq size)

/-- So does the loop of the concatenations. -/
theorem Backed.concatLoop (backed : Backed fresh string) {source : Bytes} {remaining index : Nat}
    {after : VString}
    (returned : VString.concatLoop fresh source remaining index string = some after) :
    Backed fresh after ∧ string.capacity ≤ after.capacity := by
  induction remaining generalizing string index with
  | zero => exact Option.some.inj returned ▸ ⟨backed, Nat.le_refl _⟩
  | succ remaining inductionHypothesis =>
    simp only [VString.concatLoop, Option.bind_eq_bind, Option.bind_eq_some_iff] at returned
    obtain ⟨char, _, middle, appended, rest⟩ := returned
    obtain ⟨still, first⟩ := backed.append appended
    obtain ⟨result, second⟩ := inductionHypothesis still rest
    exact ⟨result, first.trans second⟩

/-- Growing in a loop is growing. -/
theorem Backed.growTo (backed : Backed fresh string) {needed fuel : Nat} {after : VString}
    (grown : string.growTo fresh needed fuel = some after) : Backed fresh after := by
  induction fuel generalizing string with
  | zero => cases grown
  | succ fuel inductionHypothesis =>
    rw [VString.growTo] at grown
    split at grown
    · exact inductionHypothesis backed.realloc grown
    · exact Option.some.inj grown ▸ backed

/-- What a concatenation that returns has made: a string with a byte behind it. -/
structure Concatenated (fresh : Nat → UInt8) (string after : VString) (source : Bytes)
    (count : Nat) : Prop where
  backed : Backed fresh after
  bytes : after.content = string.content ++ source.take count
  size : after.length = string.length + count
  room : after.length < after.capacity

theorem Backed.concatenated (backed : Backed fresh string) {source : Bytes} {count : Nat}
    {grown after : VString}
    (isGrown : string.growTo fresh (count + string.length) (count + string.length + 1) = some grown)
    (returned : VString.concatLoop fresh source count 0 grown = some after) :
    Concatenated fresh string after source count := by
  have positive := backed.valid.positive
  have inside := concatLoop_inside returned (Nat.zero_le _)
  obtain ⟨result, larger⟩ := (backed.growTo isGrown).concatLoop returned
  obtain ⟨_, again, still, contents, _, room⟩ := backed.valid.growTo fresh (count + string.length)
    (count + string.length + 1) (Nat.succ_pos _) (by omega)
  obtain rfl := Option.some.inj (again.symm.trans isGrown)
  obtain ⟨_, same, _, total⟩ := still.concatLoop fresh source count 0 inside
  obtain rfl := Option.some.inj (returned.symm.trans same)
  rw [contents, List.drop_zero] at total
  have length : after.length = string.length + count := by
    rw [← result.valid.content_length, total, List.length_append, backed.valid.content_length,
      List.length_take]
    omega
  exact ⟨result, total, length, by omega⟩

theorem Backed.concatCString (backed : Backed fresh string) {source : Bytes} {after : VString}
    (returned : string.concatCString fresh source = some after) :
    Concatenated fresh string after source source.length := by
  simp only [VString.concatCString, Option.bind_eq_bind, Option.bind_eq_some_iff] at returned
  obtain ⟨grown, isGrown, _, _, looped⟩ := returned
  exact backed.concatenated isGrown looped

theorem Backed.concat (backed : Backed fresh string) {source after : VString}
    (returned : string.concat fresh source = some after) :
    Concatenated fresh string after source.block source.length := by
  simp only [VString.concat, Option.bind_eq_bind, Option.bind_eq_some_iff] at returned
  obtain ⟨grown, isGrown, _, _, looped⟩ := returned
  exact backed.concatenated isGrown looped

/-- The byte right behind such a string, where its block has one. -/
theorem Backed.next (backed : Backed fresh string) (room : string.length < string.capacity) :
    ∃ rest, string.block = string.content ++
      (if string.length < initTextSize then 0 else fresh string.length) :: rest := by
  have read := backed.left string.length (Nat.le_refl _) room
  obtain ⟨inside, same⟩ := List.getElem?_eq_some_iff.mp read
  refine ⟨string.block.drop (string.length + 1), ?_⟩
  rw [content, ← same, ← List.drop_eq_getElem_cons inside, List.take_append_drop]

end Backed

/-- The loop of a copy replaces the bytes from an index on. -/
theorem copyLoop_exact (source block : Bytes) (remaining index : Nat)
    (readable : index + remaining ≤ source.length) (writable : index + remaining ≤ block.length) :
    copyLoop source remaining index block =
      some (block.take index ++ (source.drop index).take remaining ++
        block.drop (index + remaining)) := by
  induction remaining generalizing block index with
  | zero => simp [copyLoop]
  | succ remaining inductionHypothesis =>
    have within : index < source.length := by omega
    obtain ⟨front, old, behind, split, address⟩ : ∃ front old behind,
        block = front ++ [old] ++ behind ∧ front.length = index := by
      have inside : index < block.length := by omega
      refine ⟨block.take index, block[index], block.drop (index + 1), ?_, by simp; omega⟩
      rw [List.append_assoc, List.singleton_append, ← List.drop_eq_getElem_cons inside,
        List.take_append_drop]
    have written : Memory.writeRange block index [source[index]] =
        some (front ++ [source[index]] ++ behind) := by
      have range := writeRange_behind front [old] behind [source[index]] rfl
      rwa [address, ← split] at range
    have sizes := congrArg List.length split
    simp only [List.length_append, List.length_singleton] at sizes
    have tail := inductionHypothesis (front ++ [source[index]] ++ behind) (index + 1) (by omega)
      (by simp; omega)
    have front_taken : (front ++ [source[index]] ++ behind).take (index + 1) =
        front ++ [source[index]] := List.take_left' (by simp [address])
    have behind_dropped : ∀ byte : UInt8,
        (front ++ [byte] ++ behind).drop (index + 1 + remaining) = behind.drop remaining := by
      intro byte
      rw [← List.drop_drop, List.drop_left' (by simp [address])]
    rw [front_taken, behind_dropped] at tail
    simp only [copyLoop, List.getElem?_eq_getElem within, Option.bind_eq_bind, Option.bind_some,
      written, tail]
    rw [split, show index + (remaining + 1) = index + 1 + remaining by omega, behind_dropped,
      List.drop_eq_getElem_cons within, List.take_succ_cons,
      List.append_assoc front [old] behind, List.take_left' address]
    simp

/-- Whether or not there is something to clear, the block keeps its size. -/
theorem Valid.clear (valid : string.Valid) :
    ∃ cleared, string.clear = some cleared ∧ cleared.length = string.capacity := by
  have fits := valid.fits
  rw [VString.clear]
  split
  · have inside : 0 + (List.replicate string.length (0 : UInt8)).length ≤ string.block.length := by
      rw [Nat.zero_add, List.length_replicate]
      exact fits
    refine ⟨_, by rw [Memory.writeRange, if_pos inside], ?_⟩
    simp only [List.take_zero, List.nil_append, Nat.zero_add, List.length_append,
      List.length_replicate, List.length_drop, capacity] at fits ⊢
    omega
  · exact ⟨string.block, rfl, rfl⟩

/-- `VString_Copy`, from another string. -/
theorem Valid.copy (valid : string.Valid) (fresh : Nat → UInt8) (source : VString)
    (fits : source.length ≤ source.capacity) :
    ∃ after, string.copy fresh source = some after ∧ after.Valid ∧
      after.content = source.content := by
  obtain ⟨grown, isGrown, still, _, _, room⟩ := valid.growTo fresh source.length
    (source.length + 1) (Nat.succ_pos _) (by have positive := valid.positive; omega)
  obtain ⟨cleared, isCleared, sameSize⟩ := still.clear
  have copied := copyLoop_exact source.block cleared source.length 0 (by rw [Nat.zero_add]; exact fits)
    (by omega)
  have taken : (source.block.take source.length).length = source.length := by
    rw [List.length_take]
    exact Nat.min_eq_left fits
  refine ⟨⟨source.content ++ cleared.drop source.length, source.length⟩, ?_, ⟨?_, ?_⟩, ?_⟩
  · simp only [VString.copy, isGrown, Option.bind_eq_bind, Option.bind_some, isCleared, copied,
      Option.pure_def, List.take_zero, List.nil_append, List.drop_zero, Nat.zero_add, content]
  · simp only [capacity, content, List.length_append, taken]
    omega
  · simp only [capacity, content, List.length_append, taken, List.length_drop]
    omega
  · exact List.take_left' taken

/-- The bytes of an initial text. -/
def textBytes : Option CString → Bytes
  | some text => text.1
  | none => []

/-- `VString_InitWithCapacity` makes a valid string with its text. -/
theorem initWithCapacity_valid (fresh : Nat → UInt8) (text : Option CString) (capacity : Nat) :
    ∃ string, initWithCapacity fresh text capacity = some string ∧ string.Valid ∧
      string.content = textBytes text := by
  have valid : (⟨List.replicate (if capacity = 0 then initTextSize else capacity) 0, 0⟩ :
      VString).Valid := by
    refine ⟨Nat.zero_le _, ?_⟩
    rw [VString.capacity, List.length_replicate]
    split
    · decide
    · exact Nat.pos_of_ne_zero ‹_›
  cases text with
  | none => exact ⟨_, rfl, valid, rfl⟩
  | some text => exact valid.copyCString fresh rfl text.1

/-- One call that edits a string. Source strings are others than the one edited. -/
inductive Edit where
  | append (char : UInt8)
  | insert (index : Nat) (char : UInt8)
  | remove (index : Nat)
  | concat (src : VString)
  | concatCString (src : CString)
  | copy (src : VString)

/-- The call itself, with what a block that it grows happens to hold. -/
def perform (string : VString) : (Nat → UInt8) × Edit → Option VString
  | (fresh, .append char) => string.append fresh char
  | (fresh, .insert index char) => string.insert fresh index char
  | (_, .remove index) => string.remove index
  | (fresh, .concat src) => string.concat fresh src
  | (fresh, .concatCString src) => string.concatCString fresh src.1
  | (fresh, .copy src) => string.copy fresh src

/-- The same edit of a list of bytes. -/
def Edit.onList (bytes : Bytes) : Edit → Bytes
  | .append char => bytes ++ [char]
  | .insert index char => bytes.insertIdx index char
  | .remove index => bytes.eraseIdx index
  | .concat src => bytes ++ src.content
  | .concatCString src => bytes ++ src.1
  | .copy src => src.content

/-- An insertion is inside the string or at its end, and a source string does not claim
more than its block. -/
def Edit.InRange (bytes : Bytes) : Edit → Prop
  | .insert index _ => index ≤ bytes.length
  | .concat src | .copy src => src.length ≤ src.capacity
  | _ => True

/-- Every edit is in range where it is made, and every length stays below 2^31. -/
def Allowed : Bytes → List Edit → Prop
  | _, [] => True
  | bytes, edit :: rest =>
    edit.InRange bytes ∧ (edit.onList bytes).length < 2 ^ 31 ∧ Allowed (edit.onList bytes) rest

/-- One edit returns, keeps the valid state and edits the list of the bytes in use. -/
theorem Valid.perform (valid : string.Valid) (fresh : Nat → UInt8) (edit : Edit)
    (inRange : edit.InRange string.content) (short : (edit.onList string.content).length < 2 ^ 31) :
    ∃ after, string.perform (fresh, edit) = some after ∧ after.Valid ∧
      after.content = edit.onList string.content := by
  cases edit with
  | append char => exact valid.append fresh char
  | insert index char =>
    have inside : index ≤ string.length := by rw [← valid.content_length]; exact inRange
    obtain ⟨after, inserted, still, contents⟩ := valid.insert fresh char index inside
    obtain ⟨front, behind, split, address, same⟩ :=
      List.exists_of_modifyTailIdx (List.cons char) inRange
    refine ⟨after, inserted, still, contents.trans ?_⟩
    rw [Edit.onList, List.insertIdx, same, split, List.take_left' address, List.drop_left' address]
  | remove index => exact valid.remove index
  | concat src =>
    have added : src.length < 2 ^ 31 := by
      have size : src.content.length = src.length := by
        rw [content, List.length_take]
        exact Nat.min_eq_left inRange
      rw [Edit.onList, List.length_append, size] at short
      omega
    exact valid.concat fresh src inRange added
  | concatCString src =>
    rw [Edit.onList, List.length_append] at short
    exact valid.concatCString fresh src.1 (by omega)
  | copy src => exact valid.copy fresh src inRange

/-- A sequence of edits, from a valid string. -/
theorem Valid.performAll (valid : string.Valid) (edits : List ((Nat → UInt8) × Edit))
    (allowed : Allowed string.content (edits.map Prod.snd)) :
    ∃ after, edits.foldlM VString.perform string = some after ∧ after.Valid ∧
      after.content = (edits.map Prod.snd).foldl Edit.onList string.content := by
  induction edits generalizing string with
  | nil => exact ⟨string, rfl, valid, rfl⟩
  | cons call rest inductionHypothesis =>
    obtain ⟨fresh, edit⟩ := call
    obtain ⟨inRange, short, remaining⟩ := allowed
    obtain ⟨middle, performed, still, contents⟩ := valid.perform fresh edit inRange short
    rw [← contents] at remaining
    obtain ⟨after, returned, result, total⟩ := inductionHypothesis still remaining
    refine ⟨after, ?_, result, ?_⟩
    · simp only [List.foldlM_cons, performed, Option.bind_eq_bind, Option.bind_some, returned]
    · rw [total, contents]
      rfl

/-- What is allowed is allowed as far as it goes. -/
theorem Allowed.front {bytes : Bytes} {first second : List Edit}
    (allowed : Allowed bytes (first ++ second)) : Allowed bytes first := by
  induction first generalizing bytes with
  | nil => trivial
  | cons edit rest inductionHypothesis =>
    exact ⟨allowed.1, allowed.2.1, inductionHypothesis allowed.2.2⟩

/-- A string made with any text and capacity and edited by any sequence of calls with
lengths below 2^31: after each of the calls, which all return, its bytes in use are the
list edited in the same way, and its length does not exceed its capacity. -/
theorem edits_refine_list (fresh : Nat → UInt8) (text : Option CString) (capacity : Nat)
    (edits : List ((Nat → UInt8) × Edit))
    (allowed : Allowed (textBytes text) (edits.map Prod.snd))
    (made later : List ((Nat → UInt8) × Edit)) (split : edits = made ++ later) :
    ∃ string after, initWithCapacity fresh text capacity = some string ∧
      made.foldlM perform string = some after ∧
      after.block.take after.length = (made.map Prod.snd).foldl Edit.onList (textBytes text) ∧
      after.length = ((made.map Prod.snd).foldl Edit.onList (textBytes text)).length ∧
      after.length ≤ after.capacity := by
  obtain ⟨string, initial, valid, contents⟩ := initWithCapacity_valid fresh text capacity
  rw [split, List.map_append] at allowed
  obtain ⟨after, returned, result, total⟩ := valid.performAll made
    (by rw [contents]; exact allowed.front)
  rw [contents] at total
  exact ⟨string, after, initial, returned, total, by rw [← total, result.content_length],
    result.fits⟩

/-- A full string of one byte: an append and an insertion that grow it, a removal, and a
concatenation that grows it twice. -/
def growingEdits : List ((Nat → UInt8) × Edit) :=
  [(fun _ => 7, .append 98), (fun _ => 7, .insert 0 99), (fun _ => 7, .remove 1),
    (fun _ => 7, .concat ⟨[1, 2, 3, 4, 5, 6], 6⟩)]

/-- The string "a" in a block of one byte. -/
theorem edits_refine_list_growing :
    ∃ string after, initWithCapacity (fun _ => 7) (some ⟨[97], by decide⟩) 1 = some string ∧
      growingEdits.foldlM perform string = some after ∧
      after.block.take after.length = [99, 98, 1, 2, 3, 4, 5, 6] := by
  obtain ⟨string, after, initial, returned, contents, _⟩ :=
    edits_refine_list (fun _ => 7) (some ⟨[97], by decide⟩) 1 growingEdits
      ⟨trivial, by decide, Nat.zero_le _, by decide, trivial, by decide, Nat.le_refl 6, by decide,
        trivial⟩ growingEdits [] (List.append_nil _).symm
  exact ⟨string, after, initial, returned, contents.trans (by decide)⟩

end VHttp.VString
