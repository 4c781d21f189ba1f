import VHttp.FileReading
import VHttp.ResponseTexts
import VHttp.StringEdits

/-!
# Building a response

Whatever the response buffer held, a reply leaves the text of its response there, ended by
a NUL, and keeps the size of the buffer. It has no result when the text does not fit, as
strncat would write behind the buffer.
-/

namespace VHttp.Worker

/-- A file that is read stores at most as many bytes as it has. -/
def Possible (mime : MimeMapping) (opening : Opening) (reading : Option Nat) : Prop :=
  mime.useSendfile = false → (vFileOpen opening).getType = some .regular →
    ∀ read, reading = some read → read ≤ (vFileOpen opening).info.size

/-- What a reply leaves in the response buffer. -/
structure Holds (response : Response) (built : Reply) : Prop where
  terminated : Terminated built.responseMalloced response.text
  sent : built.file = response.sent
  size : built.responseMalloced.length = responseMaxLen

section Building

variable {malloced : Memory} {pool : VString} {mime : MimeMapping}

/-- A cleared pool stays so when it is grown for a file. -/
theorem grown_cleared (fresh : Nat → UInt8) (cleared : Cleared pool) (size : Nat) :
    Cleared (if pool.capacity ≤ size then pool.resize fresh size else pool) := by
  obtain ⟨rest, opens⟩ := cleared
  have positive : pool.capacity = rest.length + 1 := by rw [VString.capacity, opens, List.length_cons]
  by_cases small : pool.capacity ≤ size
  · have nonzero : size ≠ 0 := by omega
    have whole : pool.block.take size = pool.block := List.take_of_length_le small
    rw [if_pos small, VString.resize, if_neg nonzero, whole, opens]
    exact ⟨rest ++ _, List.cons_append⟩
  · rw [if_neg small]
    exact ⟨rest, opens⟩

variable {printable : mime.Printable}

section Cases

variable {opening : Opening} {reading : Option Nat}

theorem responseTo_sentFile (useSendfile : mime.useSendfile = true)
    (isRegular : (vFileOpen opening).getType = some .regular) :
    responseTo mime printable opening reading = .sentFile mime printable (vFileOpen opening) := by
  simp [responseTo, useSendfile, regular_opened isRegular, isRegular]

theorem responseTo_forbidden (useSendfile : mime.useSendfile = true)
    (opened : (vFileOpen opening).fileDescriptor ≠ none)
    (other : (vFileOpen opening).getType ≠ some .regular) :
    responseTo mime printable opening reading = .forbidden := by
  simp [responseTo, useSendfile, opened, other]

theorem responseTo_rawNotFound (useSendfile : mime.useSendfile = true)
    (closed : (vFileOpen opening).fileDescriptor = none) :
    responseTo mime printable opening reading = .rawNotFound := by
  simp [responseTo, useSendfile, closed]

theorem responseTo_notFound (useSendfile : mime.useSendfile = false)
    (nothing : (vFileOpen opening).getType ≠ some .regular ∨ reading = some 0) :
    responseTo mime printable opening reading = .notFound mime printable := by
  rcases nothing with other | rfl
  · simp [responseTo, useSendfile, other]
  · simp [responseTo, useSendfile]

theorem responseTo_failed (useSendfile : mime.useSendfile = false)
    (isRegular : (vFileOpen opening).getType = some .regular) :
    responseTo mime printable opening none = .readFile mime printable none := by
  simp [responseTo, useSendfile, regular_opened isRegular, isRegular]

theorem responseTo_readFile (useSendfile : mime.useSendfile = false)
    (isRegular : (vFileOpen opening).getType = some .regular) {read : Nat} (positive : read ≠ 0) :
    responseTo mime printable opening (some read) =
      .readFile mime printable (some ((vFileOpen opening).content.take read)) := by
  obtain ⟨below, rfl⟩ := Nat.exists_eq_succ_of_ne_zero positive
  simp [responseTo, useSendfile, regular_opened isRegular, isRegular]

/-- A read that is possible stores as many bytes as it tells. -/
theorem Possible.stored (useSendfile : mime.useSendfile = false)
    (isRegular : (vFileOpen opening).getType = some .regular) {read : Nat}
    (possible : Possible mime opening (some read)) :
    ((vFileOpen opening).content.take read).length = read := by
  have bound := possible useSendfile isRegular read rfl
  rw [regular_size isRegular] at bound
  rw [List.length_take]
  omega

end Cases

theorem text_notFound : (Response.notFound mime printable).text =
    format notFoundResponseFmt [.text mime.mimeType] := by
  rw [notFoundResponse_text mime printable, Response.text]
  exact List.append_nil _

theorem text_readFile (stored : Option Bytes) : (Response.readFile mime printable stored).text =
    format okResponseFmt [.integer (asInt ((stored.map List.length).getD minusOne)),
      .text mime.mimeType] ++ (Response.readFile mime printable stored).content := by
  rw [okResponse_text _ mime printable]
  rfl

theorem text_sentFile (file : VFile) : (Response.sentFile mime printable file).text =
    format okResponseFmt [.integer (asInt file.info.size), .text mime.mimeType] := by
  rw [okResponse_text _ mime printable, Response.text]
  exact List.append_nil _

theorem text_rawNotFound : Response.rawNotFound.text = notFoundResponseFmt := by
  rw [notFoundResponseFmt_text, Response.text]
  exact List.append_nil _

theorem text_forbidden : Response.forbidden.text = format forbiddenResponseFmt
    [.integer 45, .text (ascii "text/html; charset=utf-8"), .text forbiddenHtml] := by
  rw [forbiddenResponse_text]
  rfl

/-- All responses but those with bytes of a file fit the response buffer. -/
theorem Response.text_short (response : Response) (few : response.content.length ≤ 44) :
    response.text.length < responseMaxLen := by
  have head := response.head_short
  have room : 244 < responseMaxLen := by decide
  rw [text, List.length_append]
  omega

/-- A text that snprintf builds in the response buffer. -/
theorem snprintf_holds (response : Response) (size : malloced.length = responseMaxLen)
    (few : response.content.length ≤ 44) :
    ∃ after, snprintf malloced responseMaxLen response.text = some after ∧
      Terminated after response.text ∧ after.length = responseMaxLen := by
  have short := response.text_short few
  obtain ⟨after, built, held, kept⟩ :=
    snprintf_terminated malloced responseMaxLen response.text_clean short (size ▸ short)
  exact ⟨after, built, held, kept.trans size⟩

/-- The reply with a file that is left to sendfile. -/
theorem serveSendfile_exact (size : malloced.length = responseMaxLen) (opening : Opening)
    (reading : Option Nat) (useSendfile : mime.useSendfile = true) :
    ∃ built, serveSendfile malloced pool mime opening = some built ∧
      Holds (responseTo mime printable opening reading) built := by
  unfold serveSendfile responseTo
  simp only [useSendfile, ↓reduceIte]
  split
  · have short : notFoundResponseFmt.length < responseMaxLen := by decide
    obtain ⟨after, copied, held, kept⟩ :=
      strncpy_terminated malloced (text_rawNotFound ▸ Response.rawNotFound.text_clean)
        (size ▸ short)
    exact ⟨⟨after, none, pool, none⟩, by simp [copied],
      ⟨by rw [text_rawNotFound]; exact held, rfl, kept.trans size⟩⟩
  · split
    · obtain ⟨after, built, held, kept⟩ := snprintf_holds
        (.sentFile mime printable (vFileOpen opening)) size (Nat.zero_le _)
      rw [text_sentFile] at built
      exact ⟨⟨after, some (vFileOpen opening), pool, (vFileOpen opening).fileDescriptor⟩,
        by simp [built], ⟨held, rfl, kept⟩⟩
    · have short := Response.forbidden.text_short (by decide)
      obtain ⟨after, written, held, kept⟩ :=
        write_terminated malloced Response.forbidden.text_clean (size ▸ short)
      rw [text_forbidden] at written
      exact ⟨⟨after, none, pool, (vFileOpen opening).fileDescriptor⟩,
        by simp [sprintf, written], ⟨held, rfl, kept.trans size⟩⟩

/-- The 404 reply of the other path. -/
theorem serveRead_notFound (fresh : Nat → UInt8) (size : malloced.length = responseMaxLen)
    {opening : Opening} {reading : Option Nat} {string : VString} {left : Option Nat}
    (entire : readEntireFile fresh pool opening reading = some ⟨string, 0, left⟩) :
    ∃ built, serveRead malloced pool mime fresh opening reading = some built ∧
      Holds (.notFound mime printable) built := by
  obtain ⟨after, built, held, kept⟩ := snprintf_holds (.notFound mime printable) size (Nat.zero_le _)
  rw [text_notFound] at built
  exact ⟨⟨after, none, string, left⟩, by simp [serveRead, entire, built], ⟨held, rfl, kept⟩⟩

/-- The 200 reply of the other path: strncat takes its piece if it fits. -/
theorem serveRead_piece (fresh : Nat → UInt8) (size : malloced.length = responseMaxLen)
    {opening : Opening} {reading : Option Nat} {string : VString} {read : Nat} {left : Option Nat}
    (entire : readEntireFile fresh pool opening reading = some ⟨string, read, left⟩)
    (positive : read ≠ 0) (stored : Option Bytes)
    (announced : (stored.map List.length).getD minusOne = string.length)
    (taken : piece string.block string.length = (Response.readFile mime printable stored).content)
    (readable : string.length ≤ string.block.length ∨ 0 ∈ string.block) :
    let response := Response.readFile mime printable stored
    (response.text.length < responseMaxLen →
      ∃ built, serveRead malloced pool mime fresh opening reading = some built ∧
        Holds response built) ∧
    (responseMaxLen ≤ response.text.length →
      serveRead malloced pool mime fresh opening reading = none) := by
  intro response
  have text : response.text = format okResponseFmt
      [.integer (asInt string.length), .text mime.mimeType] ++ response.content :=
    announced ▸ text_readFile stored
  have head : (format okResponseFmt [.integer (asInt string.length),
      .text mime.mimeType]).length < responseMaxLen := by
    have bound := response.head_short
    have room : 200 < responseMaxLen := by decide
    rw [okResponse_text _ mime printable, ← announced]
    exact lt_of_le_of_lt bound room
  have clean : 0 ∉ format okResponseFmt [.integer (asInt string.length), .text mime.mimeType] := by
    have whole := response.text_clean
    rw [text, List.mem_append, not_or] at whole
    exact whole.1
  obtain ⟨middle, built, held, kept⟩ :=
    snprintf_terminated malloced responseMaxLen clean head (size ▸ head)
  obtain ⟨fits, full⟩ := strncat_terminated held string.block string.length readable
  have served : serveRead malloced pool mime fresh opening reading =
      (strncat middle string.block string.length).map (fun after => ⟨after, none, string, left⟩) := by
    simp only [serveRead, entire, Option.bind_eq_bind, Option.bind_some, positive, ↓reduceIte, built,
      Option.pure_def]
    cases strncat middle string.block string.length <;> rfl
  rw [taken, kept, size, ← List.length_append, ← text] at fits full
  constructor
  · intro room
    obtain ⟨after, appended, heldAfter, sameSize⟩ := fits room
    exact ⟨⟨after, none, string, left⟩, by rw [served, appended]; rfl,
      ⟨heldAfter, rfl, sameSize⟩⟩
  · intro tooLong
    rw [served, full tooLong]
    rfl

/-- The reply with a file that is read: what it builds, and when it has no result. -/
theorem serveRead_exact (fresh : Nat → UInt8) (size : malloced.length = responseMaxLen)
    (cleared : Cleared pool) {opening : Opening} {reading : Option Nat}
    (useSendfile : mime.useSendfile = false) (possible : Possible mime opening reading) :
    ((responseTo mime printable opening reading).text.length < responseMaxLen →
      ∃ built, serveRead malloced pool mime fresh opening reading = some built ∧
        Holds (responseTo mime printable opening reading) built) ∧
    (responseMaxLen ≤ (responseTo mime printable opening reading).text.length →
      serveRead malloced pool mime fresh opening reading = none) := by
  have notFound : ∀ string left, readEntireFile fresh pool opening reading = some ⟨string, 0, left⟩ →
      responseTo mime printable opening reading = .notFound mime printable →
      ((responseTo mime printable opening reading).text.length < responseMaxLen →
        ∃ built, serveRead malloced pool mime fresh opening reading = some built ∧
          Holds (responseTo mime printable opening reading) built) ∧
      (responseMaxLen ≤ (responseTo mime printable opening reading).text.length →
        serveRead malloced pool mime fresh opening reading = none) := by
    intro string left entire same
    have short := (Response.notFound mime printable).text_short (Nat.zero_le _)
    rw [same]
    exact ⟨fun _ => serveRead_notFound fresh size entire, fun tooLong => by omega⟩
  by_cases isRegular : (vFileOpen opening).getType = some .regular
  · cases reading with
    | none =>
      obtain ⟨rest, opens⟩ := grown_cleared fresh cleared (vFileOpen opening).info.size
      have entire := readEntireFile_failed fresh pool isRegular
      rw [responseTo_failed useSendfile isRegular]
      refine serveRead_piece fresh size entire (by decide) none rfl ?_ ?_
      · -- The first byte is cleared, so that nothing is taken.
        rw [piece, opens]
        rfl
      · exact Or.inr (by rw [opens]; exact List.mem_cons_self)
    | some read =>
      obtain ⟨rest, left, entire⟩ := readEntireFile_stored fresh pool isRegular
        (possible useSendfile isRegular read rfl)
      by_cases nothing : read = 0
      · subst nothing
        exact notFound _ left entire (responseTo_notFound useSendfile (Or.inr rfl))
      · have stored := possible.stored useSendfile isRegular
        rw [responseTo_readFile useSendfile isRegular nothing]
        refine serveRead_piece fresh size entire nothing _ ?_ ?_ ?_
        · rw [Option.map_some, Option.getD_some, stored]
        · rw [piece, List.take_left' stored]
          rfl
        · exact Or.inl (by simp [stored])
  · exact notFound pool none (readEntireFile_nothing fresh pool isRegular)
      (responseTo_notFound useSendfile (Or.inl isRegular))

/-- What a reply builds. With a possible read it has a result exactly if its text fits the
response buffer. -/
theorem reply_exact (fresh : Nat → UInt8) (size : malloced.length = responseMaxLen)
    (cleared : Cleared pool) {opening : Opening} {reading : Option Nat}
    (possible : Possible mime opening reading) :
    ((responseTo mime printable opening reading).text.length < responseMaxLen →
      ∃ built, reply malloced pool mime fresh opening reading = some built ∧
        Holds (responseTo mime printable opening reading) built) ∧
    (responseMaxLen ≤ (responseTo mime printable opening reading).text.length →
      reply malloced pool mime fresh opening reading = none) := by
  rw [reply]
  cases useSendfile : mime.useSendfile with
  | true =>
    obtain ⟨built, served, holds⟩ : ∃ built, serveSendfile malloced pool mime opening = some built ∧
        Holds (responseTo mime printable opening reading) built :=
      serveSendfile_exact size opening reading useSendfile
    have short := holds.terminated.short
    rw [holds.size] at short
    exact ⟨fun _ => ⟨built, served, holds⟩, fun tooLong => by omega⟩
  | false => exact serveRead_exact fresh size cleared useSendfile possible

/-- A reply that has a result had a possible read. -/
theorem reply_possible {fresh : Nat → UInt8} {opening : Opening} {reading : Option Nat}
    {built : Reply} (replied : reply malloced pool mime fresh opening reading = some built) :
    Possible mime opening reading := by
  intro useSendfile
  simp only [reply, useSendfile, Bool.false_eq_true, ↓reduceIte, serveRead, Option.bind_eq_bind,
    Option.bind_eq_some_iff] at replied
  obtain ⟨_, isRead, _⟩ := replied
  exact readEntireFile_possible isRead

/-- Whatever the buffer held, the reply that is built is the response. -/
theorem reply_holds {fresh : Nat → UInt8} (size : malloced.length = responseMaxLen)
    (cleared : Cleared pool) {opening : Opening} {reading : Option Nat} {built : Reply}
    (replied : reply malloced pool mime fresh opening reading = some built) :
    Holds (responseTo mime printable opening reading) built := by
  obtain ⟨fits, full⟩ := reply_exact fresh size cleared (reply_possible replied)
  by_cases room : (responseTo mime printable opening reading).text.length < responseMaxLen
  · obtain ⟨other, same, holds⟩ := fits room
    obtain rfl := Option.some.inj (same.symm.trans replied)
    exact holds
  · rw [full (Nat.le_of_not_lt room)] at replied
    simp at replied

end Building

end VHttp.Worker
