import VHttp.ServingPaths

/-!
# The bytes written into the response buffer

A reply is built by one or two calls, each of which writes a stretch of bytes with its
terminator. snprintf is told the size of the buffer; the texts that strncpy and sprintf write
are short. strncat is told the length of the string pool, not the room that is left, and
writes as many bytes of a file as stand in front of the first NUL.
-/

namespace VHttp.Worker

/-- A stretch of bytes that a call writes. -/
structure Extent where
  offset : Nat
  count : Nat
  deriving DecidableEq

/-- The offset behind it. -/
def Extent.stop (extent : Extent) : Nat := extent.offset + extent.count

/-- What snprintf writes: what fits of a text, and a terminator. -/
def snprintfExtent (limit : Nat) (text : Bytes) : Extent := ⟨0, min text.length (limit - 1) + 1⟩

/-- What sprintf writes: a text and its terminator. -/
def sprintfExtent (text : Bytes) : Extent := ⟨0, text.length + 1⟩

/-- What strncpy writes: as many bytes as it is told. -/
def strncpyExtent (count : Nat) : Extent := ⟨0, count⟩

/-- What strncat writes: its piece and a terminator, behind the text in the buffer. -/
def strncatExtent (buffer source : Memory) (count : Nat) : Option Extent := do
  guard (count ≤ source.length ∨ 0 ∈ source)
  let stop ← strlen buffer
  pure ⟨stop, (piece source count).length + 1⟩

/-- The header of a 200 reply. -/
def okHeader (mime : MimeMapping) (length : Nat) : Bytes :=
  format okResponseFmt [.integer (asInt length), .text mime.mimeType]

/-- The writes of the reply with a file that is read. -/
def serveReadWrites (malloced : Memory) (pool : VString) (mime : MimeMapping)
    (fresh : Nat → UInt8) (opening : Opening) (reading : Option Nat) : Option (List Extent) := do
  let file ← readEntireFile fresh pool opening reading
  if file.read = 0 then
    pure [snprintfExtent responseMaxLen (format notFoundResponseFmt [.text mime.mimeType])]
  else
    let header := okHeader mime file.string.length
    let malloced ← snprintf malloced responseMaxLen header
    let appended ← strncatExtent malloced file.string.block file.string.length
    pure [snprintfExtent responseMaxLen header, appended]

/-- The writes of the reply with a file that is left to sendfile. -/
def serveSendfileWrites (mime : MimeMapping) (opening : Opening) : List Extent :=
  let file := vFileOpen opening
  if file.fileDescriptor = none then [strncpyExtent (notFoundResponseFmt.length + 1)]
  else if file.getType = some .regular then
    [snprintfExtent responseMaxLen (okHeader mime file.info.size)]
  else
    [sprintfExtent (format forbiddenResponseFmt
      [.integer 45, .text (ascii "text/html; charset=utf-8"), .text forbiddenHtml])]

/-- The writes of a reply for a mime mapping. -/
def replyWrites (malloced : Memory) (pool : VString) (mime : MimeMapping) (fresh : Nat → UInt8)
    (opening : Opening) (reading : Option Nat) : Option (List Extent) :=
  if mime.useSendfile then some (serveSendfileWrites mime opening)
  else serveReadWrites malloced pool mime fresh opening reading

/-- The writes into the response buffer with which a step builds a reply. A worker that comes
to refuse a request has built a 400. -/
def writes (worker : Worker) (answer : Answer) : Option (List Extent) :=
  match worker.phase, answer with
  | .serving, .serve fresh beyond opening reading => do
    let path ← filePath fresh worker.request.url
    replyWrites worker.shared.responseMalloced worker.stringPool
      (getMimeType (strrchr (readPath path beyond) 46)) fresh opening reading
  | _, _ => do
    let after ← worker.step answer
    match after.phase with
    | .refusing _ => pure [snprintfExtent responseMaxLen badRequest]
    | _ => pure []

/-- All of them lie below the size of the response buffer. -/
def BelowEnd (extents : List Extent) : Prop := ∀ extent ∈ extents, extent.stop ≤ responseMaxLen

theorem inside_single (extent : Extent) : BelowEnd [extent] ↔ extent.stop ≤ responseMaxLen := by
  simp [BelowEnd]

/-- snprintf stays below its limit. -/
theorem snprintfExtent_inside (text : Bytes) :
    (snprintfExtent responseMaxLen text).stop ≤ responseMaxLen := by
  have positive : 0 < responseMaxLen := by decide
  simp only [snprintfExtent, Extent.stop]
  omega

section Calls

variable {buffer : Memory}

/-- Each call has a result exactly if what it writes lies inside the buffer. -/
theorem snprintf_isSome (limit : Nat) (text : Bytes) : (snprintf buffer limit text).isSome ↔
    (snprintfExtent limit text).stop ≤ buffer.length := by
  rw [snprintf, writeRange_isSome, snprintfExtent, Extent.stop, List.length_append,
    List.length_take, List.length_singleton, Nat.min_comm]

theorem sprintf_isSome (text : Bytes) : (sprintf buffer text).isSome ↔
    (sprintfExtent text).stop ≤ buffer.length := by
  rw [sprintf, writeRange_isSome, sprintfExtent, Extent.stop, List.length_append,
    List.length_singleton]

theorem strncpy_isSome (text : Bytes) (count : Nat) : (strncpy buffer text count).isSome ↔
    (strncpyExtent count).stop ≤ buffer.length := by
  have size : ((text ++ List.replicate (count - text.length) 0).take count).length = count := by
    rw [List.length_take, List.length_append, List.length_replicate]
    omega
  rw [strncpy, writeRange_isSome, size, strncpyExtent, Extent.stop]

theorem strncat_isSome (source : Memory) (count : Nat) : (strncat buffer source count).isSome ↔
    ∃ extent, strncatExtent buffer source count = some extent ∧ extent.stop ≤ buffer.length := by
  by_cases readable : count ≤ source.length ∨ 0 ∈ source
  · cases stop : strlen buffer with
    | none => simp [strncat, strncatExtent, stop]
    | some stop =>
      simp only [strncat, strncatExtent, guard, readable, ↓reduceIte, stop, Option.bind_eq_bind,
        Option.bind_some, Option.pure_def, Option.some.injEq, exists_eq_left', writeRange_isSome]
      rw [List.length_append, List.length_singleton, Extent.stop, piece]
  · simp [strncat, strncatExtent, guard, readable]

/-- A reply that one call writes. -/
theorem isSome_written {written : Option Memory} (made : Memory → Reply) :
    (written.bind fun malloced => some (made malloced)).isSome ↔ written.isSome := by
  rw [Option.isSome_bind]
  exact Option.any_true ▸ Iff.rfl

theorem serveSendfile_isSome (size : buffer.length = responseMaxLen) (pool : VString)
    (mime : MimeMapping) (opening : Opening) :
    (serveSendfile buffer pool mime opening).isSome ↔
      BelowEnd (serveSendfileWrites mime opening) := by
  simp only [serveSendfile, serveSendfileWrites, Option.bind_eq_bind, Option.pure_def]
  split
  · rw [isSome_written, inside_single, strncpy_isSome, size]
  · split
    · rw [isSome_written, inside_single, snprintf_isSome, size, okHeader]
    · rw [isSome_written, inside_single, sprintf_isSome, size]

theorem serveRead_isSome (size : buffer.length = responseMaxLen) (pool : VString)
    (mime : MimeMapping) (fresh : Nat → UInt8) (opening : Opening) (reading : Option Nat) :
    (serveRead buffer pool mime fresh opening reading).isSome ↔
      ∃ extents, serveReadWrites buffer pool mime fresh opening reading = some extents ∧
        BelowEnd extents := by
  rw [serveRead, serveReadWrites]
  cases readEntireFile fresh pool opening reading with
  | none => simp
  | some file =>
    simp only [Option.bind_eq_bind, Option.bind_some, Option.pure_def]
    split
    · rw [isSome_written, snprintf_isSome, size]
      simp only [Option.some.injEq, exists_eq_left', inside_single]
    · cases printed : snprintf buffer responseMaxLen
          (format okResponseFmt [.integer (asInt file.string.length), .text mime.mimeType]) with
      | none =>
        simp [okHeader, printed]
      | some after =>
        have length : after.length = responseMaxLen := by
          rw [← size]
          exact writeRange_length printed
        have header := (snprintf_isSome responseMaxLen _).mp (by rw [printed]; rfl)
        rw [size] at header
        simp only [okHeader, printed, Option.bind_some]
        rw [isSome_written, strncat_isSome, length]
        constructor
        · rintro ⟨extent, made, inside⟩
          refine ⟨_, by rw [made]; rfl, ?_⟩
          rintro other (_ | ⟨_, _ | ⟨_, ⟨⟩⟩⟩)
          · exact header
          · exact inside
        · rintro ⟨extents, made, inside⟩
          obtain ⟨extent, appended, listed⟩ := Option.bind_eq_some_iff.mp made
          obtain rfl := Option.some.inj listed
          exact ⟨extent, appended, inside extent (by simp)⟩

/-- A reply is built exactly if its writes lie inside the buffer. -/
theorem reply_isSome (size : buffer.length = responseMaxLen) (pool : VString) (mime : MimeMapping)
    (fresh : Nat → UInt8) (opening : Opening) (reading : Option Nat) :
    (reply buffer pool mime fresh opening reading).isSome ↔
      ∃ extents, replyWrites buffer pool mime fresh opening reading = some extents ∧
        BelowEnd extents := by
  rw [reply, replyWrites]
  split
  · simp only [Option.some.injEq, exists_eq_left']
    exact serveSendfile_isSome size pool mime opening
  · exact serveRead_isSome size pool mime fresh opening reading

end Calls


section Reply

variable {malloced : Memory} {pool : VString} {mime : MimeMapping} {fresh : Nat → UInt8}
variable {opening : Opening} {reading : Option Nat}

/-- The header of a 200 reply is short. -/
theorem okHeader_short (printable : mime.Printable) (length : Nat) :
    0 ∉ okHeader mime length ∧ (okHeader mime length).length < responseMaxLen := by
  have same : (Response.sentFile mime printable ⟨none, ⟨none, length⟩, []⟩).text =
    okHeader mime length := text_sentFile _
  rw [← same]
  exact ⟨Response.text_clean _, Response.text_short _ (Nat.zero_le _)⟩

/-- The reply that is left to sendfile. -/
theorem serveSendfileWrites_inside (mime : MimeMapping) (opening : Opening) :
    BelowEnd (serveSendfileWrites mime opening) := by
  unfold serveSendfileWrites
  simp only
  split
  · rw [inside_single]
    decide
  · split
    · rw [inside_single]
      exact snprintfExtent_inside _
    · have short := Response.forbidden.text_short (by decide)
      rw [inside_single, ← text_forbidden]
      simp only [sprintfExtent, Extent.stop]
      omega

/-- The 200 reply of the other path: a header, and a piece behind it. -/
theorem serveReadWrites_piece (printable : mime.Printable)
    (size : malloced.length = responseMaxLen) {string : VString} {read : Nat} {left : Option Nat}
    (entire : readEntireFile fresh pool opening reading = some ⟨string, read, left⟩)
    (positive : read ≠ 0) (readable : string.length ≤ string.block.length ∨ 0 ∈ string.block) :
    ∃ extents, serveReadWrites malloced pool mime fresh opening reading = some extents ∧
      (BelowEnd extents ↔ (okHeader mime string.length).length +
        (piece string.block string.length).length < responseMaxLen) := by
  obtain ⟨clean, short⟩ := okHeader_short printable string.length
  obtain ⟨after, built, held, _⟩ :=
    snprintf_terminated malloced responseMaxLen clean short (size ▸ short)
  refine ⟨[snprintfExtent responseMaxLen (okHeader mime string.length),
    ⟨(okHeader mime string.length).length, (piece string.block string.length).length + 1⟩], ?_, ?_⟩
  · simp only [serveReadWrites, entire, Option.bind_eq_bind, Option.bind_some, positive, ↓reduceIte,
      built, strncatExtent, guard, readable, strlen_terminated held, Option.pure_def]
  · simp only [BelowEnd, List.mem_cons, List.not_mem_nil, or_false, forall_eq_or_imp, forall_eq,
      snprintfExtent_inside, true_and]
    rw [Extent.stop, ← Nat.add_assoc, Nat.succ_le_iff]

/-- The 404 reply of that path. -/
theorem serveReadWrites_notFound (malloced : Memory) (mime : MimeMapping) {string : VString}
    {left : Option Nat} (entire : readEntireFile fresh pool opening reading = some ⟨string, 0, left⟩) :
    ∃ extents, serveReadWrites malloced pool mime fresh opening reading = some extents ∧
      BelowEnd extents := by
  refine ⟨[snprintfExtent responseMaxLen (format notFoundResponseFmt [.text mime.mimeType])], ?_, ?_⟩
  · simp [serveReadWrites, entire]
  · exact (inside_single _).mpr (snprintfExtent_inside _)

end Reply

/-- The bytes of a regular file in front of its first NUL, as far as they are read into the
string pool, leave room for the header in front of them and for a terminator. -/
def LeavesRoom (mime : MimeMapping) (opening : Opening) (reading : Option Nat) : Prop :=
  mime.useSendfile = false → (vFileOpen opening).getType = some .regular →
    ∀ read, reading = some read →
      (okHeader mime read).length + (piece (vFileOpen opening).content read).length < responseMaxLen

section Reply

variable {malloced : Memory} {pool : VString} {mime : MimeMapping}

/-- The reply that is read: it is written inside the buffer exactly if it leaves room. -/
theorem serveReadWrites_inside_iff (fresh : Nat → UInt8) (printable : mime.Printable)
    (size : malloced.length = responseMaxLen) (cleared : Cleared pool) {opening : Opening}
    {reading : Option Nat} (useSendfile : mime.useSendfile = false)
    (possible : Possible mime opening reading) :
    ∃ extents, serveReadWrites malloced pool mime fresh opening reading = some extents ∧
      (BelowEnd extents ↔ LeavesRoom mime opening reading) := by
  by_cases isRegular : (vFileOpen opening).getType = some .regular
  · cases reading with
    | none =>
      -- The first byte is cleared, so that nothing is taken behind the header.
      obtain ⟨rest, opens⟩ := grown_cleared fresh cleared (vFileOpen opening).info.size
      obtain ⟨extents, made, iff⟩ := serveReadWrites_piece printable size
        (readEntireFile_failed fresh pool isRegular) (by decide)
        (Or.inr (by rw [opens]; exact List.mem_cons_self))
      refine ⟨extents, made, iff.trans (iff_of_true ?_ (fun _ _ read same => nomatch same))⟩
      have nothing : piece (if pool.capacity ≤ (vFileOpen opening).info.size then
          pool.resize fresh (vFileOpen opening).info.size else pool).block minusOne = [] := by
        rw [piece, opens]
        rfl
      rw [nothing, List.length_nil, Nat.add_zero]
      exact (okHeader_short printable minusOne).2
    | some read =>
      have bound := possible useSendfile isRegular read rfl
      have stored := possible.stored useSendfile isRegular
      obtain ⟨rest, left, entire⟩ := readEntireFile_stored fresh pool isRegular bound
      have taken : piece ((vFileOpen opening).content.take read ++ rest) read =
          piece (vFileOpen opening).content read := by
        rw [piece, piece, List.take_left' stored]
      have room : LeavesRoom mime opening (some read) ↔ (okHeader mime read).length +
          (piece (vFileOpen opening).content read).length < responseMaxLen :=
        ⟨fun leaves => leaves useSendfile isRegular read rfl,
          fun fits _ _ _ same => Option.some.inj same ▸ fits⟩
      by_cases nothing : read = 0
      · subst nothing
        obtain ⟨extents, made, inside⟩ := serveReadWrites_notFound malloced mime entire
        refine ⟨extents, made, iff_of_true inside (room.mpr ?_)⟩
        exact (okHeader_short printable 0).2
      · obtain ⟨extents, made, iff⟩ := serveReadWrites_piece printable size entire nothing
          (Or.inl (by simp [stored]))
        exact ⟨extents, made, by rw [iff, room, taken]⟩
  · obtain ⟨extents, made, inside⟩ := serveReadWrites_notFound malloced mime
      (readEntireFile_nothing fresh pool isRegular)
    exact ⟨extents, made, iff_of_true inside (fun _ regular => absurd regular isRegular)⟩

/-- Any reply. -/
theorem replyWrites_inside_iff (fresh : Nat → UInt8) (printable : mime.Printable)
    (size : malloced.length = responseMaxLen) (cleared : Cleared pool) {opening : Opening}
    {reading : Option Nat} (possible : Possible mime opening reading) :
    ∃ extents, replyWrites malloced pool mime fresh opening reading = some extents ∧
      (BelowEnd extents ↔ LeavesRoom mime opening reading) := by
  rw [replyWrites]
  cases useSendfile : mime.useSendfile with
  | false => exact serveReadWrites_inside_iff fresh printable size cleared useSendfile possible
  | true =>
    refine ⟨_, rfl, iff_of_true (serveSendfileWrites_inside mime opening) ?_⟩
    intro buffered
    rw [useSendfile] at buffered
    cases buffered

end Reply

section Worker

variable {descriptor : Nat} {shared : Shared} {admitted : Worker → Answer → Prop}
variable {trace : List Answer} {worker after : Worker}

/-- A step builds its reply inside the response buffer. -/
def WritesInside (worker : Worker) (answer : Answer) : Prop :=
  ∀ extents, writes worker answer = some extents → BelowEnd extents

/-- The worker serves, and the file that it reads leaves room for the header. A read delivers
at most as many bytes as it is asked for. -/
def ServesRoomy (worker : Worker) (answer : Answer) : Prop :=
  ∀ fresh beyond opening reading path, answer = .serve fresh beyond opening reading →
    worker.phase = .serving → filePath fresh worker.request.url = some path →
      Possible (getMimeType (strrchr (readPath path beyond) 46)) opening reading →
        LeavesRoom (getMimeType (strrchr (readPath path beyond) 46)) opening reading

/-- A worker that serves writes what the reply to its path writes. -/
theorem writes_serve (serving : worker.phase = .serving) {fresh : Nat → UInt8} {path : VString}
    (made : filePath fresh worker.request.url = some path) (beyond : Bytes) (opening : Opening)
    (reading : Option Nat) : writes worker (.serve fresh beyond opening reading) =
      replyWrites worker.shared.responseMalloced worker.stringPool
        (getMimeType (strrchr (readPath path beyond) 46)) fresh opening reading := by
  unfold writes
  rw [serving]
  simp only [made, Option.bind_eq_bind, Option.bind_some]

/-- A reply whose writes are known had a possible read. -/
theorem replyWrites_possible {malloced : Memory} {pool : VString} {mime : MimeMapping}
    {fresh : Nat → UInt8} {opening : Opening} {reading : Option Nat} {extents : List Extent}
    (written : replyWrites malloced pool mime fresh opening reading = some extents) :
    Possible mime opening reading := by
  intro useSendfile
  simp only [replyWrites, useSendfile, Bool.false_eq_true, ↓reduceIte, serveReadWrites,
    Option.bind_eq_bind, Option.bind_eq_some_iff] at written
  obtain ⟨_, isRead, _⟩ := written
  exact readEntireFile_possible isRead

/-- Any other step writes at most a 400. -/
theorem writes_other (answer : Answer)
    (other : ∀ fresh beyond opening reading, answer = .serve fresh beyond opening reading →
      worker.phase ≠ .serving) : WritesInside worker answer := by
  intro extents made
  unfold writes at made
  split at made
  · rename_i phase
    exact absurd phase (other _ _ _ _ rfl)
  · simp only [Option.bind_eq_bind, Option.bind_eq_some_iff] at made
    obtain ⟨after, _, written⟩ := made
    split at written
    · cases written
      exact (inside_single _).mpr (snprintfExtent_inside _)
    · cases written
      exact fun _ member => nomatch member

/-- A step that has a result has written inside the buffer. -/
theorem writes_inside_of_step (size : worker.shared.responseMalloced.length = responseMaxLen)
    {answer : Answer} (taken : worker.step answer = some after) : WritesInside worker answer := by
  by_cases serves : ∃ fresh beyond opening reading,
      answer = .serve fresh beyond opening reading ∧ worker.phase = .serving
  · obtain ⟨fresh, beyond, opening, reading, rfl, serving⟩ := serves
    unfold Worker.step at taken
    rw [serving] at taken
    obtain ⟨path, built, _, made, replied, _⟩ := serve_cases taken
    obtain ⟨extents, written, inside⟩ :=
      (reply_isSome size _ _ _ _ _).mp (Option.isSome_of_eq_some replied)
    intro others also
    rw [writes_serve serving made, written, Option.some.injEq] at also
    exact also ▸ inside
  · refine writes_other answer ?_
    rintro fresh beyond opening reading rfl serving
    exact serves ⟨fresh, beyond, opening, reading, rfl, serving⟩

/-- A reply to a path is written inside the buffer exactly if its file leaves room. -/
theorem Ready.serving_inside_iff (ready : Ready worker) (serving : worker.phase = .serving)
    {fresh : Nat → UInt8} {path : VString} (made : filePath fresh worker.request.url = some path)
    {beyond : Bytes} {opening : Opening} {reading : Option Nat}
    (possible : Possible (getMimeType (strrchr (readPath path beyond) 46)) opening reading) :
    WritesInside worker (.serve fresh beyond opening reading) ↔
      LeavesRoom (getMimeType (strrchr (readPath path beyond) 46)) opening reading := by
  obtain ⟨extents, written, iff⟩ := replyWrites_inside_iff fresh (getMimeType_printable _)
    ready.sound.size (ready.cleared serving) possible
  rw [WritesInside, writes_serve serving made, written, ← iff]
  exact ⟨fun inside => inside extents rfl, fun inside _ same => Option.some.inj same ▸ inside⟩

/-- A step of any worker. -/
theorem Ready.roomy_iff (ready : Ready worker) (answer : Answer) :
    WritesInside worker answer ↔ ServesRoomy worker answer := by
  constructor
  · rintro inside fresh beyond opening reading path rfl serving made possible
    exact (ready.serving_inside_iff serving made possible).mp inside
  · intro roomy
    by_cases serves : ∃ fresh beyond opening reading,
        answer = .serve fresh beyond opening reading ∧ worker.phase = .serving
    · obtain ⟨fresh, beyond, opening, reading, rfl, serving⟩ := serves
      intro extents written
      have known := written
      unfold writes at known
      rw [serving] at known
      simp only [Option.bind_eq_bind, Option.bind_eq_some_iff] at known
      obtain ⟨path, made, replied⟩ := known
      have possible := replyWrites_possible replied
      exact (ready.serving_inside_iff serving made possible).mpr
        (roomy fresh beyond opening reading path rfl serving made possible) extents written
    · refine writes_other answer ?_
      rintro fresh beyond opening reading rfl serving
      exact serves ⟨fresh, beyond, opening, reading, rfl, serving⟩

end Worker

/-- Whatever was answered before, a worker at any point of its run writes the reply that a step
builds below `RESPONSE_MAX_LEN`, exactly if the step does not append a file that leaves too
little room behind its header. -/
theorem writes_inside_iff {shared : Shared} (history : History shared) {descriptor : Nat}
    {trace : List Answer} {worker : Worker}
    (run : Runs.Run step Runs.anywhere (start descriptor shared) trace worker) (answer : Answer) :
    WritesInside worker answer ↔ ServesRoomy worker answer :=
  (run_ready history.sound run).roomy_iff answer

/-- A text of three bytes. -/
theorem writes_inside_iff_three : ∃ worker, worker.phase = .serving ∧
    WritesInside worker
      (.serve (fun _ => 0) [] (.opened 7 true (.regular [1, 2, 3])) (some 3)) := by
  obtain ⟨trace, worker, run, serving, path, made, mime⟩ := text_served 5 Shared.start
  refine ⟨worker, serving, (writes_inside_iff .start (run.weaken (fun _ _ _ => trivial)) _).mpr ?_⟩
  rintro _ _ _ _ other ⟨⟩ _ remade _ _ _ _ ⟨⟩
  obtain rfl := Option.some.inj (made.symm.trans remade)
  rw [mime]
  decide +kernel

/-- A text that is as long as the buffer is written behind its end. -/
theorem long_text_leaves_the_buffer : ¬ ∀ shared, History shared → ∀ descriptor trace worker,
    Runs.Run step Runs.anywhere (start descriptor shared) trace worker →
      ∀ answer, WritesInside worker answer := by
  intro always
  obtain ⟨trace, worker, run, serving, path, made, mime⟩ := text_served 5 Shared.start
  have anyRun := run.weaken (fun _ _ _ => trivial)
  have ready := run_ready Shared.start_sound anyRun
  have clean : 0 ∉ List.replicate responseMaxLen (97 : UInt8) := by
    intro present
    exact absurd (List.eq_of_mem_replicate present) (by decide)
  have inside := always _ .start 5 trace worker anyRun (.serve (fun _ => 0) []
    (.opened 7 true (.regular (List.replicate responseMaxLen 97)))
    (some (List.replicate responseMaxLen (97 : UInt8)).length))
  have possible : Possible (getMimeType (strrchr (readPath path []) 46))
      (.opened 7 true (.regular (List.replicate responseMaxLen 97)))
      (some (List.replicate responseMaxLen (97 : UInt8)).length) := by
    rintro _ _ _ ⟨⟩
    exact le_rfl
  have room := (ready.serving_inside_iff serving made possible).mp inside (by rw [mime]) rfl _ rfl
  have whole := (piece_whole (List.replicate responseMaxLen 97)).mpr clean
  change _ + (piece (List.replicate responseMaxLen 97)
    (List.replicate responseMaxLen (97 : UInt8)).length).length < _ at room
  rw [whole, List.length_replicate] at room
  omega

end VHttp.Worker
