import VHttp.Foundations.Memory

/-!
# Text in a buffer

The string functions of the C library, on a buffer that may hold anything. Each of those
that write leaves a terminated text at the front, whatever stood there before, and only
what stands behind its terminator is left over. Appending to such a text finds its end.
-/

namespace VHttp

/-- strlen: the index of the first NUL. -/
def strlen (buffer : Memory) : Option Nat := buffer.findIdx? (fun byte => decide (byte = 0))

/-- snprintf of a formatted text: what fits in front of a terminator. -/
def snprintf (buffer : Memory) (limit : Nat) (text : Bytes) : Option Memory :=
  buffer.writeRange 0 (text.take (limit - 1) ++ [0])

/-- sprintf of a formatted text. -/
def sprintf (buffer : Memory) (text : Bytes) : Option Memory := buffer.writeRange 0 (text ++ [0])

/-- strncpy of a string: at most `count` bytes of it, filled up with NULs. -/
def strncpy (buffer : Memory) (text : Bytes) (count : Nat) : Option Memory :=
  buffer.writeRange 0 ((text ++ List.replicate (count - text.length) 0).take count)

/-- strncat: at most `count` bytes of the source, up to its first NUL, behind the text. -/
def strncat (buffer source : Memory) (count : Nat) : Option Memory := do
  guard (count ≤ source.length ∨ 0 ∈ source)
  let stop ← strlen buffer
  buffer.writeRange stop ((CString.read (source.take count)).1 ++ [0])

/-- strrchr: the string from the last occurrence of a char on. -/
def strrchr (text : Bytes) (char : UInt8) : Option Bytes :=
  if char ∈ text then some (char :: (text.reverse.takeWhile (fun byte => decide (byte ≠ char))).reverse)
  else none

/-- memset of the front of a buffer to zero. -/
def clearFront (buffer : Memory) (count : Nat) : Option Memory :=
  buffer.writeRange 0 (List.replicate count 0)

/-- A buffer that holds a text and its terminator at its front. -/
def Terminated (buffer : Memory) (text : Bytes) : Prop :=
  0 ∉ text ∧ ∃ rest, buffer = text ++ 0 :: rest

section Terminated

variable {buffer : Memory} {text : Bytes}

theorem strlen_terminated (held : Terminated buffer text) : strlen buffer = some text.length := by
  obtain ⟨clean, rest, rfl⟩ := held
  rw [strlen, List.findIdx?_append]
  have absent : text.findIdx? (fun byte => decide (byte = 0)) = none := by
    rw [List.findIdx?_eq_none_iff]
    intro byte member
    have different : byte ≠ 0 := fun same => clean (same ▸ member)
    simpa using different
  simp [absent, List.findIdx?_cons]

theorem Terminated.take (held : Terminated buffer text) : buffer.take text.length = text := by
  obtain ⟨_, rest, rfl⟩ := held
  exact List.take_left

theorem Terminated.short (held : Terminated buffer text) : text.length < buffer.length := by
  obtain ⟨_, rest, rfl⟩ := held
  simp

/-- A terminated text written to the front of any buffer that has room for it. -/
theorem write_terminated (buffer : Memory) (clean : 0 ∉ text) (fits : text.length < buffer.length) :
    ∃ after, buffer.writeRange 0 (text ++ [0]) = some after ∧ Terminated after text ∧
      after.length = buffer.length := by
  have inside : 0 + (text ++ [0]).length ≤ buffer.length := by
    simpa using Nat.succ_le_of_lt fits
  have written := writeRange_some inside
  refine ⟨_, written, ⟨clean, buffer.drop (text.length + 1), ?_⟩, writeRange_length written⟩
  simp

theorem snprintf_terminated (buffer : Memory) (limit : Nat) (clean : 0 ∉ text)
    (short : text.length < limit) (fits : text.length < buffer.length) :
    ∃ after, snprintf buffer limit text = some after ∧ Terminated after text ∧
      after.length = buffer.length := by
  rw [snprintf, List.take_of_length_le (by omega)]
  exact write_terminated buffer clean fits

/-- A text that snprintf has built stands at the front. -/
theorem snprintf_take {buffer after : Memory} {limit : Nat}
    (built : snprintf buffer limit text = some after) (short : text.length < limit) :
    after.take text.length = text := by
  rw [snprintf, List.take_of_length_le (by omega), Memory.writeRange,
    Option.ite_none_right_eq_some, Option.some.injEq] at built
  obtain ⟨_, rfl⟩ := built
  simp

theorem strncpy_terminated (buffer : Memory) (clean : 0 ∉ text)
    (fits : text.length < buffer.length) :
    ∃ after, strncpy buffer text (text.length + 1) = some after ∧ Terminated after text ∧
      after.length = buffer.length := by
  have filled : (text ++ List.replicate (text.length + 1 - text.length) 0).take (text.length + 1) =
      text ++ [0] := by
    rw [Nat.add_sub_cancel_left, List.replicate_one]
    exact List.take_of_length_le (by simp)
  rw [strncpy, filled]
  exact write_terminated buffer clean fits

/-- The bytes that strncat takes from a source. -/
def piece (source : Memory) (count : Nat) : Bytes := (CString.read (source.take count)).1

/-- strncat puts its piece behind the text of a buffer that has room for it, and has no
result otherwise. -/
theorem strncat_terminated (held : Terminated buffer text) (source : Memory) (count : Nat)
    (readable : count ≤ source.length ∨ 0 ∈ source) :
    (text.length + (piece source count).length < buffer.length →
      ∃ after, strncat buffer source count = some after ∧
        Terminated after (text ++ piece source count) ∧ after.length = buffer.length) ∧
    (buffer.length ≤ text.length + (piece source count).length →
      strncat buffer source count = none) := by
  have unfolded : strncat buffer source count =
      buffer.writeRange text.length (piece source count ++ [0]) := by
    simp only [strncat, guard, readable, ↓reduceIte, strlen_terminated held, Option.bind_eq_bind,
      Option.pure_def, Option.bind_some, piece]
  have size : (piece source count ++ [0]).length = (piece source count).length + 1 := by simp
  obtain ⟨clean, rest, rfl⟩ := held
  rw [unfolded]
  constructor
  · intro room
    have inside : text.length + (piece source count ++ [0]).length ≤ (text ++ 0 :: rest).length := by
      omega
    have written := writeRange_some inside
    refine ⟨_, written, ⟨?_, (text ++ 0 :: rest).drop
      (text.length + (piece source count ++ [0]).length), ?_⟩, writeRange_length written⟩
    · have read := (CString.read (source.take count)).2
      simp only [List.mem_append, not_or]
      exact ⟨clean, read⟩
    · simp
  · intro full
    rw [Memory.writeRange, if_neg (by omega)]

end Terminated

/-- Clearing the front of a buffer keeps its size, and is possible inside it. -/
theorem clearFront_some (buffer : Memory) (count : Nat) (fits : count ≤ buffer.length) :
    ∃ after, clearFront buffer count = some after ∧ after.length = buffer.length := by
  have inside : 0 + (List.replicate count (0 : UInt8)).length ≤ buffer.length := by simpa using fits
  have cleared := writeRange_some inside
  exact ⟨_, cleared, writeRange_length cleared⟩

/-- A buffer whose front was cleared begins with a NUL. -/
theorem clearFront_first {buffer after : Memory} {count : Nat} (positive : count ≠ 0)
    (cleared : clearFront buffer count = some after) : ∃ rest, after = 0 :: rest := by
  obtain ⟨size, rfl⟩ : ∃ size, count = size + 1 := ⟨count - 1, by omega⟩
  rw [clearFront, Memory.writeRange, Option.ite_none_right_eq_some, Option.some.injEq] at cleared
  obtain ⟨_, rfl⟩ := cleared
  exact ⟨_, rfl⟩

end VHttp
