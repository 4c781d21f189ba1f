import VHttp.HashTableInsertions
import VHttp.HeaderFields

/-!
# Header lines, trimmed and stored in place

A header line is a name, a colon and a value that is not blank. The parser's view of
the value reaches one byte beyond it, to the CR behind the line; trimming moves the
value's core to the front of this region, and the terminator is written behind the
core. Both stay inside the region, so neither the next line nor anything in front of
the value changes, and the loop over all lines is the sequence of their insertions.
-/

namespace VHttp

/-- A header line 'K:V'. -/
structure HeaderLine where
  key : Bytes
  value : Bytes
  named : key ≠ []
  keyClean : 58 ∉ key ∧ 13 ∉ key ∧ 10 ∉ key ∧ 0 ∉ key
  valueClean : 13 ∉ value ∧ 10 ∉ value ∧ 0 ∉ value
  printed : ∃ byte ∈ value, isSpace byte = false

namespace HeaderLine

/-- The line as it stands in a request. -/
def bytes (header : HeaderLine) : Bytes := header.key ++ 58 :: header.value

/-- The name as a C string. -/
def name (header : HeaderLine) : CString := ⟨header.key, header.keyClean.2.2.2⟩

/-- The value without the white space around it. -/
def trimmed (header : HeaderLine) : Bytes := (header.value.dropWhile isSpace).rdropWhile isSpace

/-- What the table holds for the line: the trimmed value and its terminator. -/
def entry (header : HeaderLine) : CString × Bytes := (header.name, header.trimmed ++ [0])

theorem bytes_clean (header : HeaderLine) :
    13 ∉ header.bytes ∧ 10 ∉ header.bytes ∧ 0 ∉ header.bytes := by
  obtain ⟨_, noReturn, noFeed, noNul⟩ := header.keyClean
  obtain ⟨valueReturn, valueFeed, valueNul⟩ := header.valueClean
  simp [bytes, noReturn, noFeed, noNul, valueReturn, valueFeed, valueNul]

theorem bytes_nonempty (header : HeaderLine) : header.bytes ≠ [] := by
  simp [bytes]

/-- What stands in front of the first occurrence of a byte is determined. -/
theorem cut_unique {first second rest others : Bytes} {stop : UInt8} (clean : stop ∉ first)
    (also : stop ∉ second) (same : first ++ stop :: rest = second ++ stop :: others) :
    first = second ∧ rest = others := by
  induction first generalizing second with
  | nil =>
    cases second with
    | nil => exact ⟨rfl, (List.cons.inj same).2⟩
    | cons byte bytes => exact absurd (List.cons.inj same).1 (fun equal => also (by simp [equal]))
  | cons byte bytes inductionHypothesis =>
    cases second with
    | nil => exact absurd (List.cons.inj same).1 (fun equal => clean (by simp [equal]))
    | cons other tail =>
      obtain ⟨rfl, remaining⟩ := List.cons.inj same
      rw [List.mem_cons, not_or] at clean also
      obtain ⟨rfl, rfl⟩ := inductionHypothesis clean.2 also.2 remaining
      exact ⟨rfl, rfl⟩

/-- A line is determined by its bytes. -/
theorem bytes_injective {first second : HeaderLine} (same : first.bytes = second.bytes) :
    first = second := by
  obtain ⟨keys, values⟩ := cut_unique first.keyClean.1 second.keyClean.1 same
  cases first
  cases second
  congr

end HeaderLine

namespace VHttpRequest

/-- One header line in memory, with a CR behind it: the line is inserted, and nothing
changes but the region of its value and the byte behind. -/
theorem parseHeader_line (before rest : Bytes) (headers : VHashTable Bytes) (header : HeaderLine) :
    ∃ region : Bytes, region.length = header.value.length + 1 ∧
      parseHeader (before ++ header.bytes ++ 13 :: rest) headers
          ⟨before.length, header.bytes.length⟩ =
        (headers.insert header.name (header.trimmed ++ [0])).map
          (fun table => some (before ++ header.key ++ [58] ++ region ++ rest, table)) := by
  obtain ⟨left, sizes, taken⟩ := takeHeader_line before header.key header.value rest 13 header.named
    header.keyClean.1 header.printed (by decide)
  have copied : CString.read (header.key ++ [0]) = header.name :=
    CString.read_terminated header.key [] header.keyClean.2.2.2
  refine ⟨header.trimmed ++ 0 :: left, ?_, ?_⟩
  · rw [List.length_append, List.length_cons, ← sizes]
    rfl
  · rw [parseHeader_eq, HeaderLine.bytes, taken]
    simp only [Option.bind_some, copied]
    rfl

/-- The bytes behind the CR of a line, with these header lines to come. -/
def headerBlock : List HeaderLine → Bytes → Bytes
  | [], rest => rest
  | header :: others, rest => 10 :: header.bytes ++ 13 :: headerBlock others rest

/-- The views of header lines that follow one another from an address on. -/
def headerViews : Nat → List HeaderLine → List VStringView
  | _, [] => []
  | address, header :: others =>
    ⟨address, header.bytes.length⟩ :: headerViews (address + header.bytes.length + 2) others

/-- The header loop is the sequence of the lines' insertions. It changes nothing up to
the byte in front of the lines' first LF.

Induct over the lines. The separator in front of a line may already be overwritten: the
terminator of the line before it can stand in the place of its CR. -/
theorem parseHeaders_block (headers : List HeaderLine) (before rest : Bytes) (separator : UInt8)
    (table : VHashTable Bytes) :
    ∃ left : Bytes, parseHeaders (headerViews (before.length + 2) headers)
        (before ++ separator :: headerBlock headers rest) table =
      (VHashTable.insertAll table (headers.map HeaderLine.entry)).map
        (fun after => (true, before ++ separator :: left, after)) := by
  induction headers generalizing before separator table with
  | nil => exact ⟨rest, rfl⟩
  | cons header others inductionHypothesis =>
    have shape : before ++ separator :: headerBlock (header :: others) rest =
        (before ++ [separator, 10]) ++ header.bytes ++ 13 :: headerBlock others rest := by
      simp [headerBlock]
    have address : (before ++ [separator, 10]).length = before.length + 2 := by simp
    obtain ⟨region, size, parsed⟩ := parseHeader_line (before ++ [separator, 10])
      (headerBlock others rest) table header
    rw [← shape, address] at parsed
    obtain ⟨front, last, rfl⟩ : ∃ front last, region = front ++ [last] := by
      have nonempty : region ≠ [] := by
        rintro rfl
        simp at size
      exact ⟨_, _, (List.dropLast_concat_getLast nonempty).symm⟩
    simp only [headerViews, parseHeaders, parsed, List.map_cons, VHashTable.insertAll,
      List.foldlM_cons, Option.bind_eq_bind]
    cases inserted : table.insert header.name (header.trimmed ++ [0]) with
    | none => exact ⟨[], by simp [HeaderLine.entry, inserted]⟩
    | some after =>
      obtain ⟨left, remaining⟩ := inductionHypothesis
        (before ++ [separator, 10] ++ header.key ++ [58] ++ front) last after
      have position : (before ++ [separator, 10] ++ header.key ++ [58] ++ front).length + 2 =
          before.length + 2 + header.bytes.length + 2 := by
        simp only [List.length_append, List.length_singleton] at size
        simp [HeaderLine.bytes]
        omega
      rw [position] at remaining
      refine ⟨10 :: header.key ++ [58] ++ front ++ last :: left, ?_⟩
      simp only [HeaderLine.entry, inserted, Option.map_some, Option.bind_some]
      simpa [VHashTable.insertAll] using remaining

end VHttpRequest

end VHttp
