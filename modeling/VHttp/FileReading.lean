import VHttp.VFile

/-!
# Reading an entire file

`VString_ReadEntireFile` stores what read delivers at the front of the string and returns how
many bytes these are, and 0 where nothing is opened or the file is not regular. A read that
fails is not told apart from a short one: its -1 becomes the length of the string and the
result, which the caller takes for a file of 2^64 - 1 bytes.
-/

namespace VHttp

theorem regular_opened {opening : Opening} (isRegular : (vFileOpen opening).getType = some .regular) :
    (vFileOpen opening).fileDescriptor ≠ none := by
  cases opening with
  | failed => simp [vFileOpen, VFile.getType] at isRegular
  | opened descriptor statted node => exact Option.some_ne_none _

/-- A string that a file is read into has room for it. -/
theorem grown_room (fresh : Nat → UInt8) (string : VString) (size : Nat) :
    size ≤ (if string.capacity ≤ size then string.resize fresh size else string).capacity := by
  by_cases small : string.capacity ≤ size
  · rw [if_pos small, VString.resize]
    by_cases zero : size = 0
    · rw [zero]
      exact Nat.zero_le _
    · have length : string.block.length = string.capacity := rfl
      rw [if_neg zero, VString.capacity, List.length_append, List.length_take, List.length_map,
        List.length_range, length]
      omega
  · rw [if_neg small]
    exact (Nat.lt_of_not_le small).le

section Outcomes

variable {fresh : Nat → UInt8} {string : VString} {opening : Opening} {reading : Option Nat}

/-- A file that is read as a whole or in part. -/
theorem readEntireFile_stored (fresh : Nat → UInt8) (string : VString) {read : Nat}
    (isRegular : (vFileOpen opening).getType = some .regular)
    (possible : read ≤ (vFileOpen opening).info.size) :
    ∃ rest left, readEntireFile fresh string opening (some read) =
      some ⟨⟨(vFileOpen opening).content.take read ++ rest, read⟩, read, left⟩ := by
  have room := grown_room fresh string (vFileOpen opening).info.size
  have size := regular_size isRegular
  have stored : ((vFileOpen opening).content.take read).length = read := by
    rw [List.length_take]
    omega
  rw [readEntireFile, if_neg (regular_opened isRegular), if_neg (not_not.mpr isRegular)]
  generalize (if string.capacity ≤ (vFileOpen opening).info.size then
    string.resize fresh (vFileOpen opening).info.size else string) = grown at room
  have inside : 0 + ((vFileOpen opening).content.take read).length ≤ grown.block.length := by
    have length : grown.block.length = grown.capacity := rfl
    omega
  have written := writeRange_some inside
  rw [List.take_zero, List.nil_append] at written
  simp only [guard, possible, ↓reduceIte, Option.bind_eq_bind, Option.pure_def, Option.bind_some,
    written]
  by_cases whole : read = (vFileOpen opening).info.size
  · exact ⟨_, none, by rw [if_neg (not_not.mpr whole), ← whole]⟩
  · exact ⟨_, _, if_pos whole⟩

/-- A read that fails leaves the string as it was grown, and its -1 twice. -/
theorem readEntireFile_failed (fresh : Nat → UInt8) (string : VString)
    (isRegular : (vFileOpen opening).getType = some .regular) :
    readEntireFile fresh string opening none =
      some ⟨{ (if string.capacity ≤ (vFileOpen opening).info.size then
          string.resize fresh (vFileOpen opening).info.size else string) with length := minusOne },
        minusOne, (vFileOpen opening).fileDescriptor⟩ := by
  rw [readEntireFile, if_neg (regular_opened isRegular), if_neg (not_not.mpr isRegular)]

/-- A file that is not regular, or cannot be opened, is not read. -/
theorem readEntireFile_nothing (fresh : Nat → UInt8) (string : VString)
    (nothing : (vFileOpen opening).getType ≠ some .regular) :
    readEntireFile fresh string opening reading = some ⟨string, 0, none⟩ := by
  rw [readEntireFile, if_pos nothing, ite_self]

/-- A regular file is read only by a read that delivers at most as many bytes as it has. -/
theorem readEntireFile_possible {entire : EntireFile}
    (isRead : readEntireFile fresh string opening reading = some entire)
    (isRegular : (vFileOpen opening).getType = some .regular) :
    ∀ read, reading = some read → read ≤ (vFileOpen opening).info.size := by
  rintro read rfl
  rw [readEntireFile, if_neg (regular_opened isRegular), if_neg (not_not.mpr isRegular)] at isRead
  simp only [Option.bind_eq_bind, Option.bind_eq_some_iff, Option.guard_eq_some'] at isRead
  obtain ⟨_, bounded, _⟩ := isRead
  exact bounded

end Outcomes

/-- The bytes that a read of the file delivers. -/
def delivered (opening : Opening) (reading : Option Nat) : Bytes :=
  if (vFileOpen opening).getType = some .regular then
    (vFileOpen opening).content.take (reading.getD 0)
  else []

/-- Opening, the test of the type or the read fails. -/
def ReadingFails (opening : Opening) (reading : Option Nat) : Prop :=
  (vFileOpen opening).fileDescriptor = none ∨ (vFileOpen opening).getType ≠ some .regular ∨
    reading = none

/-- What the reader owes to its caller. -/
structure ReadsEntire (opening : Opening) (reading : Option Nat) (entire : EntireFile) : Prop where
  stored : delivered opening reading <+: entire.string.block
  counted : entire.read = (delivered opening reading).length
  readFits : entire.read ≤ entire.string.capacity
  lengthFits : entire.string.length ≤ entire.string.capacity
  inUse : delivered opening reading ≠ [] →
    entire.string.length = (delivered opening reading).length
  recognised : ReadingFails opening reading → entire.read = 0

/-- For every string and every outcome of the calls, where read delivers at most as many bytes
as it is asked for, the reader keeps its contract exactly if the read of a regular file does
not fail. -/
theorem reads_entire_iff (fresh : Nat → UInt8) {string : VString}
    (fits : string.length ≤ string.capacity) (opening : Opening) (reading : Option Nat)
    (possible : ∀ read, reading = some read → read ≤ (vFileOpen opening).info.size) :
    (∃ entire, readEntireFile fresh string opening reading = some entire ∧
        ReadsEntire opening reading entire) ↔
      ((vFileOpen opening).getType = some .regular → reading ≠ none) := by
  constructor
  · rintro ⟨entire, isRead, contract⟩ isRegular rfl
    rw [readEntireFile_failed fresh string isRegular] at isRead
    have minus : entire.read = minusOne := (congrArg EntireFile.read (Option.some.inj isRead)).symm
    have zero := contract.recognised (Or.inr (Or.inr rfl))
    exact absurd (minus.symm.trans zero) (by decide)
  · intro succeeds
    by_cases isRegular : (vFileOpen opening).getType = some .regular
    · obtain ⟨read, rfl⟩ := Option.ne_none_iff_exists'.mp (succeeds isRegular)
      have bound := possible read rfl
      obtain ⟨rest, left, isRead⟩ := readEntireFile_stored fresh string isRegular bound
      have same : delivered opening (some read) = (vFileOpen opening).content.take read :=
        if_pos isRegular
      have size : (delivered opening (some read)).length = read := by
        rw [same, List.length_take, ← regular_size isRegular, Nat.min_eq_left bound]
      have room : read ≤ ((vFileOpen opening).content.take read ++ rest).length := by
        rw [← same, List.length_append, size]
        exact Nat.le_add_right _ _
      refine ⟨_, isRead, ?_, size.symm, room, room, fun _ => size.symm, ?_⟩
      · rw [same]
        exact List.prefix_append _ _
      · rintro (closed | other | failed)
        · exact absurd closed (regular_opened isRegular)
        · exact absurd isRegular other
        · exact absurd failed (Option.some_ne_none _)
    · have nothing : delivered opening reading = [] := if_neg isRegular
      refine ⟨_, readEntireFile_nothing fresh string isRegular, ?_, ?_, Nat.zero_le _, fits, ?_,
        fun _ => rfl⟩
      · rw [nothing]
        exact List.nil_prefix
      · rw [nothing]
        rfl
      · exact fun nonempty => absurd nothing nonempty

/-- A short read of a file with three bytes. -/
theorem reads_entire_iff_short :
    ∃ entire, readEntireFile (fun _ => 7) VString.init
        (.opened 5 true (.regular [104, 101, 121])) (some 2) = some entire ∧
      ReadsEntire (.opened 5 true (.regular [104, 101, 121])) (some 2) entire :=
  (reads_entire_iff (fun _ => 7) (Nat.zero_le _) _ _
    (by rintro read same; cases same; decide)).mpr (by decide)

/-- A regular file whose read fails is taken for one of 2^64 - 1 bytes. -/
theorem failed_read_is_taken_for_a_file : ¬ ∀ (fresh : Nat → UInt8) (string : VString)
    (opening : Opening) (reading : Option Nat), string.length ≤ string.capacity →
    (∀ read, reading = some read → read ≤ (vFileOpen opening).info.size) →
    ∃ entire, readEntireFile fresh string opening reading = some entire ∧
      ReadsEntire opening reading entire := by
  intro always
  obtain ⟨entire, isRead, contract⟩ := always (fun _ => 0) VString.init
    (.opened 5 true (.regular [104])) none (Nat.zero_le _) (by rintro read same; cases same)
  have zero := contract.recognised (Or.inr (Or.inr rfl))
  rw [readEntireFile_failed _ _ rfl] at isRead
  rw [← Option.some.inj isRead] at zero
  exact absurd zero (by decide)

end VHttp
