import VHttp.HeaderLines
import VHttp.RequestLine

/-!
# A request line and header lines in one buffer

In a buffer made of a request line, well-formed header lines and the empty line behind
them, the head is found where it ends and is cut at its line ends. Up to 65 lines are
all read, the last of them from behind the array of 64; of more lines the first 64 are.
Parsing such a buffer is then the insertions of the header lines read, followed by the
request line, which still stands in memory with a CR behind it. When the request line is
empty, its place is taken by the first header line.
-/

namespace VHttp.VHttpRequest

open Delimiters

/-- The delimiter behind a head. -/
def headEnd : Bytes := [13, 10, 13, 10]

theorem ascii_headEnd : ascii "\r\n\r\n" = headEnd := by decide

/-- The delimiter between two parts is the first one of the whole. -/
def FirstEnd (front behind : Bytes) : Prop :=
  ∀ earlier later, front ++ headEnd ++ behind = earlier ++ headEnd ++ later →
    front.length ≤ earlier.length

/-- The head is the first piece that the scan keeps. -/
theorem cutHead_scan (before buffer after : Bytes) (request : VHttpRequest)
    {start length : Nat} {others : List (Nat × Nat)}
    (scanned : scan headEnd 2 buffer 0 0 0 [] = (start, length) :: others) :
    cutHead (before ++ buffer ++ after) ⟨before.length, buffer.length⟩ request =
      some (⟨before.length + start, length⟩, { request with length := length + 4 }) := by
  have split := splitBySubstring_eq_scan headEnd 2 before buffer after (by decide)
  rw [scanned] at split
  rw [cutHead, ascii_headEnd, split]
  rfl

/-- A request line, header lines, and an empty line, each ended by CRLF. -/
def requestBuffer (line : Bytes) (headers : List HeaderLine) : Bytes :=
  line ++ headers.flatMap (fun header => ascii "\r\n" ++ header.bytes) ++ ascii "\r\n\r\n"

/-- The head of such a buffer. -/
def headText (line : Bytes) (headers : List HeaderLine) : Bytes :=
  joined [13, 10] line (headers.map HeaderLine.bytes)

theorem ascii_lineEnd : ascii "\r\n" = [13, 10] := by decide

theorem requestBuffer_eq (line : Bytes) (headers : List HeaderLine) :
    requestBuffer line headers = headText line headers ++ headEnd := by
  simp [requestBuffer, headText, joined, ascii_lineEnd, ascii_headEnd, List.flatMap_map]

/-- The header lines that the parser reads. -/
def readHeaders (headers : List HeaderLine) : List HeaderLine :=
  headers.take (if headers.length ≤ 64 then headers.length else 63)

theorem headerBlock_append (first second : List HeaderLine) (rest : Bytes) :
    headerBlock (first ++ second) rest = headerBlock first (headerBlock second rest) := by
  induction first with
  | nil => rfl
  | cons header others inductionHypothesis =>
    simp only [List.cons_append, headerBlock, inductionHypothesis]

/-- Behind its line, a head and what follows it is the block of its header lines. -/
theorem headText_block (line : Bytes) (headers : List HeaderLine) (rest : Bytes) :
    headText line headers ++ 13 :: rest = line ++ 13 :: headerBlock headers rest := by
  induction headers generalizing line with
  | nil => simp [headText, joined, headerBlock]
  | cons header others inductionHypothesis =>
    have tail := inductionHypothesis header.bytes
    have opened : headText line (header :: others) =
        line ++ [13, 10] ++ headText header.bytes others :=
      joined_cons _ _ _ _
    rw [opened, List.append_assoc, tail]
    simp [headerBlock]

/-- No delimiter of a head is matched even in part at the end of the head's text. -/
theorem headText_unmatched (line : Bytes) (headers : List HeaderLine) (clean : 13 ∉ line) :
    progress headEnd (headText line headers) 0 = some 0 := by
  induction headers generalizing line with
  | nil =>
    have skipped := progress_skip (13 : UInt8) [10, 13, 10] line clean
    simpa [headText, joined, headEnd] using skipped
  | cons header others inductionHypothesis =>
    have opened : headText line (header :: others) =
        line ++ [13, 10] ++ headText header.bytes others :=
      joined_cons _ _ _ _
    have skipped : progress headEnd line 0 = some 0 := progress_skip (13 : UInt8) _ line clean
    have half : progress headEnd [13, 10] 0 = some 2 := by decide
    obtain ⟨noReturn, _, _⟩ := header.bytes_clean
    have tail := inductionHypothesis header.bytes noReturn
    -- The first byte of a header line is no CR, so it ends the match that its CRLF began.
    obtain ⟨byte, bytes, begins⟩ := List.exists_cons_of_ne_nil header.bytes_nonempty
    have other : byte ≠ 13 := by
      rintro rfl
      exact noReturn (by simp [begins])
    have reset : progress headEnd (headText header.bytes others) 2 =
        progress headEnd (headText header.bytes others) 0 := by
      simp [headText, joined, begins, progress, headEnd, Ne.symm other]
    rw [opened, progress_append, progress_append, skipped, Option.bind_some, half, Option.bind_some,
      reset, tail]

/-- A head's text contains no delimiter, not even one that begins in it and ends behind it.

Induct on the header lines. A delimiter cannot begin inside the first line, which has no CR,
nor with the CRLF behind it, as the next line does not begin with a CR. -/
theorem headText_first (line behind : Bytes) (headers : List HeaderLine) (clean : 13 ∉ line) :
    FirstEnd (headText line headers) behind := by
  induction headers generalizing line with
  | nil =>
    intro earlier later same
    by_contra sooner
    have text : headText line [] = line := by simp [headText, joined]
    rw [text] at same sooner
    have found : (earlier ++ headEnd ++ later)[earlier.length]? = some 13 := by simp [headEnd]
    rw [← same, List.append_assoc, List.getElem?_append_left (by omega)] at found
    exact clean (List.mem_of_getElem? found)
  | cons header others inductionHypothesis =>
    intro earlier later same
    obtain ⟨noReturn, _, _⟩ := header.bytes_clean
    have opened : headText line (header :: others) =
        line ++ [13, 10] ++ headText header.bytes others := joined_cons _ _ _ _
    obtain ⟨byte, bytes, begins⟩ := List.exists_cons_of_ne_nil header.bytes_nonempty
    have other : byte ≠ 13 := by
      rintro rfl
      exact noReturn (by simp [begins])
    obtain ⟨tail, tailed⟩ : ∃ tail, headText header.bytes others = byte :: tail := by
      simp [headText, joined, begins]
    rw [opened] at same ⊢
    by_cases inside : earlier.length < line.length
    · have found : (earlier ++ headEnd ++ later)[earlier.length]? = some 13 := by simp [headEnd]
      rw [← same, List.append_assoc, List.append_assoc, List.append_assoc,
        List.getElem?_append_left inside] at found
      exact absurd (List.mem_of_getElem? found) clean
    · have begun : line <+: earlier ++ headEnd ++ later := by
        rw [← same]
        exact ⟨[13, 10] ++ (headText header.bytes others ++ (headEnd ++ behind)), by simp⟩
      have within : earlier <+: earlier ++ headEnd ++ later := ⟨_, (List.append_assoc _ _ _).symm⟩
      obtain ⟨middle, rfl⟩ := List.prefix_of_prefix_length_le begun within (by omega)
      simp only [List.append_assoc, List.append_cancel_left_eq] at same
      rcases middle with _ | ⟨first, _ | ⟨second, rest⟩⟩
      · simp [headEnd, tailed, other] at same
      · simp [headEnd] at same
      · simp only [List.cons_append, List.nil_append, List.cons.injEq] at same
        have bound := inductionHypothesis header.bytes noReturn rest later
          (by simpa using same.2.2)
        simp only [List.length_append, List.length_cons, List.length_nil]
        omega

/-- Bytes are in one way a buffer and what follows it.

Induct on the header lines. A line ends at its first CR, and the empty line is told from a
header line by the byte behind the CRLF. -/
theorem requestBuffer_unique {line other behind rest : Bytes} {headers others : List HeaderLine}
    (clean : 13 ∉ line) (also : 13 ∉ other)
    (same : requestBuffer line headers ++ behind = requestBuffer other others ++ rest) :
    line = other ∧ headers = others ∧ behind = rest := by
  have opened : ∀ line headers behind, requestBuffer line headers ++ behind =
      line ++ 13 :: 10 :: (match headers with
        | [] => 13 :: 10 :: behind
        | header :: tail => requestBuffer header.bytes tail ++ behind) := by
    intro line headers behind
    cases headers with
    | nil => simp [requestBuffer, ascii_headEnd, headEnd]
    | cons header tail => simp [requestBuffer, ascii_lineEnd]
  have begins : ∀ (header : HeaderLine) (tail : List HeaderLine) (behind more : Bytes),
      requestBuffer header.bytes tail ++ behind ≠ 13 :: more := by
    intro header tail behind more equal
    obtain ⟨byte, bytes, first⟩ := List.exists_cons_of_ne_nil header.bytes_nonempty
    rw [requestBuffer, first] at equal
    simp only [List.cons_append, List.cons.injEq] at equal
    exact header.bytes_clean.1 (by simp [first, equal.1])
  induction headers generalizing line other others with
  | nil =>
    rw [opened line, opened other] at same
    obtain ⟨rfl, tails⟩ := HeaderLine.cut_unique clean also same
    cases others with
    | nil => exact ⟨rfl, rfl, by simpa using tails⟩
    | cons header tail => exact absurd (List.cons.inj tails).2.symm (begins _ _ _ _)
  | cons header tail inductionHypothesis =>
    rw [opened line, opened other] at same
    obtain ⟨rfl, tails⟩ := HeaderLine.cut_unique clean also same
    cases others with
    | nil => exact absurd (List.cons.inj tails).2 (begins _ _ _ _)
    | cons second later =>
      obtain ⟨bytes, rfl, rfl⟩ := inductionHypothesis header.bytes_clean.1 second.bytes_clean.1
        (List.cons.inj tails).2
      exact ⟨rfl, by rw [HeaderLine.bytes_injective bytes], rfl⟩

/-- The worker's search finds the end of such a buffer, whatever follows it. -/
theorem search_requestBuffer (before behind after line : Bytes) (headers : List HeaderLine)
    (clean : 13 ∉ line) :
    findSubstring (before ++ (requestBuffer line headers ++ behind) ++ after)
        ⟨before.length, (requestBuffer line headers ++ behind).length⟩ (ascii "\r\n\r\n") =
      some (requestBuffer line headers).length := by
  have found := findSubstring_first before (headText line headers) headEnd (behind ++ after)
    (requestBuffer line headers ++ behind).length (by decide)
    (by simp [requestBuffer_eq, headEnd]) (headText_first line (behind ++ after) headers clean)
  rw [ascii_headEnd]
  simpa [requestBuffer_eq] using found

/-- The head that is cut out of a buffer with some line in it, whatever follows the empty
line. -/
theorem cutHead_text (before behind after line : Bytes) (headers : List HeaderLine)
    (clean : 13 ∉ line) (nonempty : headText line headers ≠ []) (request : VHttpRequest) :
    cutHead (before ++ (requestBuffer line headers ++ behind) ++ after)
        ⟨before.length, (requestBuffer line headers ++ behind).length⟩ request =
      some (⟨before.length, (headText line headers).length⟩,
        { request with length := (requestBuffer line headers).length }) := by
  have found : scan headEnd 2 (headEnd ++ behind) (headText line headers).length 0 0 [] = _ :=
    scan_pattern _ _ _ _ (by decide)
  obtain ⟨others, same⟩ : [(0, (headText line headers).length)] <+:
      scan headEnd 2 behind ((headText line headers).length + headEnd.length) 0
        ((headText line headers).length + headEnd.length) [(0, (headText line headers).length)] :=
    scan_keeps _ _ _ _ _
  have scanned : scan headEnd 2 (requestBuffer line headers ++ behind) 0 0 0 [] =
      (0, (headText line headers).length) :: others := by
    rw [requestBuffer_eq, List.append_assoc,
      scan_progress _ _ 0 0 0 0 [] (headText_unmatched line headers clean), Nat.zero_add, found]
    simpa [nonempty] using same.symm
  rw [cutHead_scan before _ after request scanned, requestBuffer_eq]
  simp [headEnd]

theorem headerViews_take (address count : Nat) (headers : List HeaderLine) :
    (headerViews address headers).take count = headerViews address (headers.take count) := by
  induction headers generalizing address count with
  | nil => simp [headerViews]
  | cons header others inductionHypothesis =>
    cases count with
    | zero => rfl
    | succ count => simp only [headerViews, List.take_succ_cons, inductionHypothesis]

theorem placed_views (base start : Nat) (line : Bytes) (headers : List HeaderLine) :
    (placed 2 start line (headers.map HeaderLine.bytes)).map
        (fun entry => (⟨base + entry.1, entry.2.length⟩ : VStringView)) =
      ⟨base + start, line.length⟩ :: headerViews (base + start + line.length + 2) headers := by
  induction headers generalizing start line with
  | nil => rfl
  | cons header others inductionHypothesis =>
    have position : base + (start + line.length + 2) = base + start + line.length + 2 := by omega
    simp only [List.map_cons, placed, inductionHypothesis, headerViews, position]

/-- The entries stored for a line that is not empty and the header lines behind it. -/
theorem collect_lines (base start : Nat) (line : Bytes) (headers : List HeaderLine)
    (nonempty : line ≠ []) :
    (collect 2 64 start line (headers.map HeaderLine.bytes) []).map
        (fun entry => (⟨base + entry.1, entry.2.length⟩ : VStringView)) =
      ⟨base + start, line.length⟩ ::
        headerViews (base + start + line.length + 2) (readHeaders headers) := by
  have parts : ∀ part ∈ line :: headers.map HeaderLine.bytes, part ≠ [] := by
    intro part member
    rcases List.mem_cons.mp member with rfl | later
    · exact nonempty
    · obtain ⟨header, _, rfl⟩ := List.mem_map.mp later
      exact header.bytes_nonempty
  have limit : (if ([] : List (Nat × Bytes)).length + (headers.map HeaderLine.bytes).length ≤ 64
      then (headers.map HeaderLine.bytes).length + 1
      else 64 - ([] : List (Nat × Bytes)).length) =
      (if headers.length ≤ 64 then headers.length else 63) + 1 := by
    simp only [List.length_nil, Nat.zero_add, List.length_map]
    split <;> rfl
  rw [collect_nonempty 2 start line _ [] parts (Nat.zero_le _), limit, List.nil_append,
    List.map_take, placed_views, List.take_succ_cons, headerViews_take]
  rfl

/-- Parsing once the head has been cut into a line and header lines: the insertions, then
the request line, whose bytes and the CR behind it are untouched. -/
theorem parse_of_lines {memory : Memory} {rawRequest requestHead : VStringView}
    {start request : VHttpRequest} (before line rest : Bytes) (headers : List HeaderLine)
    (cut : cutHead memory rawRequest start = some (requestHead, request))
    (lines : splitBySubstring memory requestHead (ascii "\r\n") 64 =
      some (⟨before.length, line.length⟩ ::
        headerViews (before.length + line.length + 2) (readHeaders headers)))
    (shape : memory = before ++ line ++ 13 :: headerBlock headers rest) :
    ∃ left : Bytes, ∀ fresh stack, parse fresh stack memory rawRequest start =
      (VHashTable.insertAll request.headers ((readHeaders headers).map HeaderLine.entry)).bind
        (fun table => parseRequestLine fresh stack (before ++ line ++ 13 :: left)
          { request with headers := table } ⟨before.length, line.length⟩) := by
  have split : headers = readHeaders headers ++
      headers.drop (if headers.length ≤ 64 then headers.length else 63) :=
    (List.take_append_drop _ _).symm
  rw [split, headerBlock_append] at shape
  obtain ⟨left, looped⟩ := parseHeaders_block (readHeaders headers) (before ++ line)
    (headerBlock (headers.drop (if headers.length ≤ 64 then headers.length else 63)) rest) 13
    request.headers
  rw [← shape, List.length_append] at looped
  refine ⟨left, fun fresh stack => ?_⟩
  simp only [parse, cut, Option.bind_eq_bind, Option.bind_some, lines, List.getElem?_cons_zero,
    List.tail_cons, looped]
  cases VHashTable.insertAll request.headers ((readHeaders headers).map HeaderLine.entry) with
  | none => rfl
  | some table => rfl

/-- The views that a head in memory is cut into. -/
theorem splitHead (before after line : Bytes) (headers : List HeaderLine) (clean : 13 ∉ line) :
    splitBySubstring (before ++ requestBuffer line headers ++ after)
        ⟨before.length, (headText line headers).length⟩ (ascii "\r\n") 64 =
      some ((collect 2 64 0 line (headers.map HeaderLine.bytes) []).map
        (fun entry => ⟨before.length + entry.1, entry.2.length⟩)) := by
  have absent : ∀ part ∈ line :: headers.map HeaderLine.bytes, (13 : UInt8) ∉ part := by
    intro part member
    rcases List.mem_cons.mp member with rfl | later
    · exact clean
    · obtain ⟨header, _, rfl⟩ := List.mem_map.mp later
      exact header.bytes_clean.1
  have shape : before ++ requestBuffer line headers ++ after =
      before ++ headText line headers ++ (headEnd ++ after) := by
    simp [requestBuffer_eq]
  have scanned : scan [13, 10] 64 (headText line headers) 0 0 0 [] =
      (collect 2 64 0 line (headers.map HeaderLine.bytes) []).map
        (fun entry => (entry.1, entry.2.length)) :=
    scan_joined 13 [10] line (headers.map HeaderLine.bytes) 0 [] absent
  rw [ascii_lineEnd, shape, splitBySubstring_eq_scan _ _ _ _ _ (by decide), scanned, List.map_map]
  rfl

/-- Parsing a buffer whose request line is not empty, into any request and whatever
follows the empty line. -/
theorem parse_line (before behind after line : Bytes) (headers : List HeaderLine)
    (clean : 13 ∉ line) (nonempty : line ≠ []) (request : VHttpRequest) :
    ∃ left : Bytes, ∀ fresh stack,
      parse fresh stack (before ++ (requestBuffer line headers ++ behind) ++ after)
        ⟨before.length, (requestBuffer line headers ++ behind).length⟩ request =
      (VHashTable.insertAll request.headers ((readHeaders headers).map HeaderLine.entry)).bind
        (fun table => parseRequestLine fresh stack (before ++ line ++ 13 :: left)
          { request with length := (requestBuffer line headers).length, headers := table }
          ⟨before.length, line.length⟩) := by
  have some_text : headText line headers ≠ [] := by simp [headText, joined, nonempty]
  refine parse_of_lines before line (10 :: 13 :: 10 :: (behind ++ after)) headers
    (cutHead_text before behind after line headers clean some_text request) ?_ ?_
  · have lines := splitHead before (behind ++ after) line headers clean
    rw [collect_lines before.length 0 line headers nonempty] at lines
    simpa using lines
  · have block := headText_block line headers (10 :: 13 :: 10 :: (behind ++ after))
    simp only [requestBuffer_eq, headEnd, List.append_assoc, List.cons_append, List.nil_append,
      block]

end VHttp.VHttpRequest
