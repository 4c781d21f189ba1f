import VHttp.EpollHttpWorker
import VHttp.StringEdits

/-!
# The path of a file as a C string

`FilePath` is made by two concatenations in a string that starts with 512 zeros. A `vstring`
has no terminator, so that strrchr and open read it up to the first NUL behind it. While the
path stays in its first block this is the next byte. A longer path was reallocated, and the
byte behind it is what the heap held there.
-/

namespace VHttp.Worker

/-- `FilePath` below any root. -/
def pathFrom (root : Bytes) (fresh : Nat → UInt8) (url : VString) : Option VString := do
  let path ← VString.init.concatCString fresh root
  path.concat fresh url

theorem filePath_eq_pathFrom (fresh : Nat → UInt8) (url : VString) :
    filePath fresh url = pathFrom appRoot fresh url := rfl

section Path

variable {root : Bytes} {fresh : Nat → UInt8} {url path : VString}

/-- The path holds the root and the url, in a block with another byte behind them. -/
theorem pathFrom_exact (made : pathFrom root fresh url = some path) :
    path.content = root ++ url.content ∧ path.length = root.length + url.length ∧
      path.Backed fresh ∧ path.length < path.capacity := by
  simp only [pathFrom, Option.bind_eq_bind, Option.bind_eq_some_iff] at made
  obtain ⟨start, isStart, isPath⟩ := made
  have first := VString.init_backed.concatCString isStart
  have second := first.backed.concat isPath
  have empty : VString.init.content = [] := rfl
  have zero : VString.init.length = 0 := rfl
  refine ⟨?_, ?_, second.backed, second.room⟩
  · rw [second.bytes, first.bytes, empty, List.nil_append, List.take_length]
    rfl
  · rw [second.size, first.size, zero, Nat.zero_add]

/-- A url that has a path is one that an int can count. -/
theorem pathFrom_int (made : pathFrom root fresh url = some path) : url.length < 2 ^ 31 := by
  simp only [pathFrom, VString.concat, Option.bind_eq_bind, Option.bind_eq_some_iff,
    Option.guard_eq_some'] at made
  obtain ⟨_, _, _, _, _, int, _⟩ := made
  exact int

/-- A root and a url that are short enough have a path. -/
theorem pathFrom_returns (root : Bytes) (fresh : Nat → UInt8) (fits : url.length ≤ url.capacity)
    (rootShort : root.length < 2 ^ 31) (short : url.length < 2 ^ 31) :
    ∃ path, pathFrom root fresh url = some path := by
  obtain ⟨start, isStart, startValid, _⟩ :=
    VString.init_valid.concatCString fresh root rootShort
  obtain ⟨path, concatenated, _⟩ := startValid.concat fresh url fits short
  exact ⟨path, by simp only [pathFrom, isStart, Option.bind_eq_bind, Option.bind_some, concatenated]⟩

theorem filePath_returns (fresh : Nat → UInt8) (valid : url.Valid) (short : url.length < 2 ^ 31) :
    ∃ path, filePath fresh url = some path :=
  pathFrom_returns appRoot fresh valid.fits (by decide) short

/-- The byte behind a path is a zero of its first block, or what reallocating has left. -/
theorem pathFrom_next (made : pathFrom root fresh url = some path) :
    ∃ rest, path.block = root ++ url.content ++
      (if path.length < VString.initTextSize then 0 else fresh path.length) :: rest := by
  obtain ⟨contents, _, backed, room⟩ := pathFrom_exact made
  obtain ⟨rest, block⟩ := backed.next room
  exact ⟨rest, by rw [block, contents]⟩

/-- The path that is read is the root and what stands behind it, up to a NUL. -/
theorem readPath_content (made : filePath fresh url = some path) (beyond : Bytes) :
    ∃ behind, path.block ++ beyond = appRoot ++ url.content ++ behind ∧
      readPath path beyond = appRoot ++ (CString.read (url.content ++ behind)).1 := by
  obtain ⟨rest, block⟩ := pathFrom_next made
  refine ⟨_, by rw [block, List.append_assoc], ?_⟩
  rw [readPath, block, List.append_assoc, List.append_assoc, CString.read_append _ _ (by decide)]

/-- A path with a zero behind it is read as the root and the url. -/
theorem readPath_terminated (made : pathFrom root fresh url = some path) (rootClean : 0 ∉ root)
    (clean : 0 ∉ url.content)
    (zero : root.length + url.length < VString.initTextSize ∨ fresh path.length = 0)
    (beyond : Bytes) : readPath path beyond = root ++ url.content := by
  obtain ⟨_, length, _⟩ := pathFrom_exact made
  obtain ⟨rest, block⟩ := pathFrom_next made
  rw [← length] at zero
  have absent : 0 ∉ root ++ url.content := by
    rw [List.mem_append, not_or]
    exact ⟨rootClean, clean⟩
  have next : (if path.length < VString.initTextSize then 0 else fresh path.length) = 0 := by
    split
    · rfl
    · rename_i long
      exact zero.resolve_left long
  rw [readPath, block, next, List.append_assoc, List.cons_append,
    CString.read_terminated _ _ absent]

/-- A short path stays in its first block, where a NUL follows it. -/
theorem readPath_short (made : pathFrom root fresh url = some path) (rootClean : 0 ∉ root)
    (clean : 0 ∉ url.content) (short : root.length + url.length < VString.initTextSize)
    (beyond : Bytes) : readPath path beyond = root ++ url.content :=
  readPath_terminated made rootClean clean (Or.inl short) beyond

/-- Behind a longer path the heap may have left any byte. -/
theorem readPath_longer (made : pathFrom root (fun _ => 65) url = some path) (rootClean : 0 ∉ root)
    (clean : 0 ∉ url.content) (long : VString.initTextSize ≤ root.length + url.length)
    (beyond : Bytes) : readPath path beyond ≠ root ++ url.content := by
  obtain ⟨_, length, _⟩ := pathFrom_exact made
  obtain ⟨rest, block⟩ := pathFrom_next made
  rw [← length] at long
  have absent : 0 ∉ root ++ url.content ++ [65] := by
    simp only [List.mem_append, not_or]
    exact ⟨⟨rootClean, clean⟩, by decide⟩
  have whole : path.block ++ beyond = root ++ url.content ++ [65] ++ (rest ++ beyond) := by
    rw [block, if_neg (Nat.not_lt.mpr long)]
    simp
  rw [readPath, whole, CString.read_append _ _ absent]
  intro same
  have lengths := congrArg List.length same
  simp only [List.length_append, List.length_singleton] at lengths
  omega

end Path

/-- What the caller of strrchr and open relies on: whatever the heap holds, the path is read as
the root and the url. -/
def ReadsPath (root : Bytes) (url : VString) : Prop :=
  ∀ (fresh : Nat → UInt8) (beyond : Bytes), ∃ path, pathFrom root fresh url = some path ∧
    readPath path beyond = root ++ url.content

/-- For every root and url without NUL, `FilePath->Data` is read as the root and the url,
whatever reallocating leaves behind them, exactly if they are shorter than the first block
together. -/
theorem reads_path_iff (root : CString) (url : VString) (fits : url.length ≤ url.capacity)
    (clean : 0 ∉ url.content) :
    ReadsPath root.1 url ↔ root.1.length + url.length < VString.initTextSize := by
  have small : VString.initTextSize < 2 ^ 31 := by decide
  constructor
  · intro reads
    obtain ⟨path, made, read⟩ := reads (fun _ => 65) []
    by_contra long
    exact readPath_longer made root.2 clean (Nat.le_of_not_lt long) [] read
  · intro short fresh beyond
    obtain ⟨path, made⟩ := pathFrom_returns root.1 fresh fits (by omega) (by omega)
    exact ⟨path, made, readPath_short made root.2 clean short beyond⟩

/-- The root of the server and "/a". -/
theorem reads_path_iff_short : ReadsPath appRoot ⟨[47, 97], 2⟩ :=
  (reads_path_iff ⟨appRoot, by decide⟩ ⟨[47, 97], 2⟩ (by decide) (by decide)).mpr (by decide)

/-- A url of 500 letters takes the path out of its first block. -/
theorem long_path_is_misread : ¬ ∀ (root : CString) (url : VString), url.length ≤ url.capacity →
    0 ∉ url.content → ReadsPath root.1 url := by
  intro always
  have clean : 0 ∉ (⟨List.replicate 500 97, 500⟩ : VString).content := by
    intro present
    exact absurd (List.eq_of_mem_replicate (List.mem_of_mem_take present)) (by decide)
  obtain ⟨path, made, read⟩ := always ⟨appRoot, by decide⟩ ⟨List.replicate 500 97, 500⟩
    (by rw [VString.capacity, List.length_replicate]) clean (fun _ => 65) []
  exact readPath_longer made (by decide) clean (by decide) [] read

end VHttp.Worker
