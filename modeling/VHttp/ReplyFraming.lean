import VHttp.MessageFraming
import VHttp.Replies

/-!
# Are the replies framed by what they announce?

A reply is well framed when no directive of its format is left, and as many bytes stand
behind its empty line as its Content-Length states. The length is printed as an int, so a
file of 2^31 bytes is announced wrongly; strncat stops at a NUL; a failed read announces -1;
the 403 announces a byte too many; and the 404 for sendfile is the format itself. The 503
is sent with its terminator.
-/

namespace VHttp.Worker

open VHttpRequest

/-- A status line and header lines in which no directive is left, and a body of the length
that they state. -/
structure Frames (line : Bytes) (headers : List HeaderLine) (body : Bytes) : Prop where
  version : ascii "HTTP/1.1 " <+: line
  oneLine : 13 ∉ line
  replaced : ∀ directive ∈ [ascii "%d", ascii "%s"], ¬ directive <:+: requestBuffer line headers
  stated : ∃ header ∈ headers, header.name = contentLengthName
  exact : ∀ header ∈ headers, header.name = contentLengthName →
    header.trimmed = digits body.length

/-- Bytes that are a reply as it should be. -/
def WellFramed (bytes : Bytes) : Prop :=
  ∃ line headers body, bytes = requestBuffer line headers ++ body ∧ Frames line headers body

/-- Bytes are taken apart in one way only. -/
theorem wellFramed_iff {line : Bytes} (headers : List HeaderLine) (body : Bytes)
    (oneLine : 13 ∉ line) :
    WellFramed (requestBuffer line headers ++ body) ↔ Frames line headers body := by
  constructor
  · rintro ⟨other, others, rest, same, frames⟩
    obtain ⟨rfl, rfl, rfl⟩ := requestBuffer_unique oneLine frames.oneLine same
    exact frames
  · intro frames
    exact ⟨line, headers, body, rfl, frames⟩

theorem lengthLine_name (value : Int) : (lengthLine value).name = contentLengthName := rfl

theorem lengthLine_trimmed (value : Int) : (lengthLine value).trimmed = decimal value := by
  have front : (32 :: decimal value).dropWhile isSpace = decimal value := by
    obtain ⟨first, rest, opened⟩ := List.exists_cons_of_ne_nil (decimal_nonempty value)
    have visible := decimal_visible value first (by rw [opened]; exact List.mem_cons_self)
    rw [opened, List.dropWhile_cons_of_pos (by decide),
      List.dropWhile_cons_of_neg (by simp [visible])]
  have back : (decimal value).rdropWhile isSpace = decimal value := by
    rw [List.rdropWhile_eq_self_iff]
    intro nonempty
    simp [decimal_visible value _ (List.getLast_mem nonempty)]
  change (((32 :: decimal value).dropWhile isSpace).rdropWhile isSpace) = decimal value
  rw [front, back]

namespace Response

/-- The bytes behind the header lines of a response, the file with them. -/
def body (response : Response) : Bytes := response.content ++ fileBytes response.sent

theorem written_eq (response : Response) : response.text ++ fileBytes response.sent =
    requestBuffer response.statusLine response.headers ++ response.body := by
  rw [text, body, List.append_assoc]

theorem oneLine (response : Response) : 13 ∉ response.statusLine := by
  cases response <;> rw [statusLine] <;> decide

/-- Only the line with the length is named Content-Length. -/
theorem length_headers (response : Response) : lengthLine response.announced ∈ response.headers ∧
    ∀ header ∈ response.headers, header.name = contentLengthName →
      header = lengthLine response.announced := by
  have others : serverLine.name ≠ contentLengthName ∧ keepAliveLine.name ≠ contentLengthName ∧
      closeLine.name ≠ contentLengthName ∧ rawTypeLine.name ≠ contentLengthName ∧
      htmlTypeLine.name ≠ contentLengthName := by decide
  have type : ∀ mime printable, (typeLine mime printable).name ≠ contentLengthName := by
    intro mime printable same
    have keys : ascii "Content-Type" = ascii "Content-Length" := congrArg Subtype.val same
    exact absurd keys (by decide)
  obtain ⟨server, keepAlive, close, rawType, htmlType⟩ := others
  cases response <;> simp [headers, server, keepAlive, close, rawType, htmlType, type]

/-- No percent sign is left in a header line, where the format was filled in. -/
theorem headers_plain (response : Response) (filled : response ≠ .rawNotFound) :
    ∀ header ∈ response.headers, 37 ∉ header.bytes := by
  have fixed : 37 ∉ serverLine.bytes ∧ 37 ∉ keepAliveLine.bytes ∧ 37 ∉ closeLine.bytes ∧
      37 ∉ htmlTypeLine.bytes := by decide
  have length : ∀ value, 37 ∉ (lengthLine value).bytes := by
    intro value
    have clean := decimal_clean value 37 (by decide)
    have key : (37 : UInt8) ∉ ascii "Content-Length" := by decide
    simp [lengthLine, field, HeaderLine.bytes, clean, key]
  have type : ∀ mime printable, 37 ∉ (typeLine mime printable).bytes := by
    intro mime printable
    have clean := printable.clean.2.2.2
    have key : (37 : UInt8) ∉ ascii "Content-Type" := by decide
    simp [typeLine, field, HeaderLine.bytes, clean, key]
  obtain ⟨server, keepAlive, close, htmlType⟩ := fixed
  cases response with
  | rawNotFound => exact absurd rfl filled
  | notFound | readFile | sentFile | forbidden =>
    simp only [headers, List.forall_mem_cons, server, keepAlive, close, htmlType, length, type,
      not_false_eq_true, List.not_mem_nil, false_implies, implies_true, and_self]

/-- A directive is left in the head of one response alone. -/
theorem replaced_iff (response : Response) :
    (∀ directive ∈ [ascii "%d", ascii "%s"],
      ¬ directive <:+: requestBuffer response.statusLine response.headers) ↔
      response ≠ .rawNotFound := by
  constructor
  · rintro replaced rfl
    have left : ascii "%s" <:+: requestBuffer Response.rawNotFound.statusLine
        Response.rawNotFound.headers := by decide +kernel
    exact replaced (ascii "%s") (List.mem_cons_of_mem _ List.mem_cons_self) left
  · intro filled directive isDirective inside
    have begins : 37 ∈ directive := by
      rcases List.mem_cons.mp isDirective with rfl | last
      · decide
      · rw [List.mem_singleton.mp last]
        decide
    have percent := inside.subset begins
    have status : 37 ∉ response.statusLine := by
      cases response <;> rw [statusLine] <;> decide
    have ends : (37 : UInt8) ∉ ascii "\r\n" ∧ (37 : UInt8) ∉ ascii "\r\n\r\n" := by decide
    simp only [requestBuffer, List.mem_append, List.mem_flatMap, status, ends, false_or,
      or_false] at percent
    obtain ⟨header, member, inLine⟩ := percent
    exact response.headers_plain filled header member inLine

/-- A response is well framed exactly if it is no copy of its format, and has the length it
announces. -/
theorem framed_iff (response : Response) :
    WellFramed (response.text ++ fileBytes response.sent) ↔
      response ≠ .rawNotFound ∧ response.announced = response.body.length := by
  rw [written_eq, wellFramed_iff _ _ response.oneLine, ← response.replaced_iff,
    ← decimal_eq_digits]
  obtain ⟨present, only⟩ := response.length_headers
  constructor
  · intro frames
    refine ⟨frames.replaced, ?_⟩
    rw [← lengthLine_trimmed]
    exact frames.exact _ present (lengthLine_name _)
  · rintro ⟨replaced, exact⟩
    refine ⟨?_, response.oneLine, replaced, ⟨_, present, lengthLine_name _⟩, ?_⟩
    · cases response <;> rw [statusLine] <;> decide
    · intro header member named
      rw [only header member named, lengthLine_trimmed, exact]

end Response

/-- What must hold of a file, and of the read of it, for a well-framed reply: sendfile needs a
regular file of less than 2^31 bytes. Of a regular file that is read, the part in front of the
first NUL must be as long as the int that is printed for the length of what was read, and
must fit the response buffer. -/
def Framable (mime : MimeMapping) (opening : Opening) (reading : Option Nat) : Prop :=
  let file := vFileOpen opening
  if mime.useSendfile then file.getType = some .regular ∧ file.info.size < 2 ^ 31
  else file.getType = some .regular → ∃ read, reading = some read ∧
    (read = 0 ∨ asInt read = (piece file.content read).length ∧
      (format okResponseFmt [.integer (asInt read), .text mime.mimeType]).length +
        (piece file.content read).length < responseMaxLen)

section Framable

variable {mime : MimeMapping} {printable : mime.Printable} {opening : Opening}
variable {reading : Option Nat}

theorem notFound_framed : (Response.notFound mime printable).text.length < responseMaxLen ∧
    Response.notFound mime printable ≠ .rawNotFound ∧
    (Response.notFound mime printable).announced =
      (Response.notFound mime printable).body.length :=
  ⟨(Response.notFound mime printable).text_short (Nat.zero_le _), nofun, rfl⟩

/-- The replies with a file that is left to sendfile. -/
theorem sendfile_framed_iff (useSendfile : mime.useSendfile = true) :
    ((responseTo mime printable opening reading).text.length < responseMaxLen ∧
      responseTo mime printable opening reading ≠ .rawNotFound ∧
      (responseTo mime printable opening reading).announced =
        (responseTo mime printable opening reading).body.length) ↔
      Framable mime opening reading := by
  simp only [Framable, useSendfile, ↓reduceIte]
  by_cases isRegular : (vFileOpen opening).getType = some .regular
  · rw [responseTo_sentFile useSendfile isRegular]
    have size := regular_size isRegular
    have short := (Response.sentFile mime printable (vFileOpen opening)).text_short (Nat.zero_le _)
    have body : (Response.sentFile mime printable (vFileOpen opening)).body.length =
        (vFileOpen opening).info.size := size.symm
    simp only [short, true_and, ne_eq, reduceCtorEq, not_false_eq_true, Response.announced, body,
      asInt_exact, isRegular]
  · refine iff_of_false ?_ (fun framable => isRegular framable.1)
    by_cases closed : (vFileOpen opening).fileDescriptor = none
    · rw [responseTo_rawNotFound useSendfile closed]
      rintro ⟨_, other, _⟩
      exact other rfl
    · rw [responseTo_forbidden useSendfile closed isRegular]
      rintro ⟨_, _, same⟩
      exact absurd same (by decide)

/-- The replies with a file that is read. -/
theorem read_framed_iff (useSendfile : mime.useSendfile = false)
    (possible : Possible mime opening reading) :
    ((responseTo mime printable opening reading).text.length < responseMaxLen ∧
      responseTo mime printable opening reading ≠ .rawNotFound ∧
      (responseTo mime printable opening reading).announced =
        (responseTo mime printable opening reading).body.length) ↔
      Framable mime opening reading := by
  simp only [Framable, useSendfile, Bool.false_eq_true, ↓reduceIte]
  by_cases isRegular : (vFileOpen opening).getType = some .regular
  · simp only [isRegular, true_implies]
    cases reading with
    | none =>
      rw [responseTo_failed useSendfile isRegular]
      refine iff_of_false ?_ (by simp)
      rintro ⟨_, _, same⟩
      have negative : asInt minusOne < 0 := by decide
      simp only [Response.announced, Option.map_none, Option.getD_none] at same
      omega
    | some read =>
      by_cases nothing : read = 0
      · rw [responseTo_notFound useSendfile (Or.inr (congrArg some nothing))]
        exact iff_of_true notFound_framed ⟨read, rfl, Or.inl nothing⟩
      · rw [responseTo_readFile useSendfile isRegular nothing, text_readFile]
        simp only [Option.map_some, Option.getD_some, possible.stored useSendfile isRegular,
          Response.content, Response.body, Response.announced, Response.sent, fileBytes,
          Option.map_none, Option.getD_none, List.append_nil, List.length_append, ne_eq,
          reduceCtorEq, not_false_eq_true, true_and, Option.some.injEq, exists_eq_left', nothing,
          false_or, piece]
        exact and_comm
  · rw [responseTo_notFound useSendfile (Or.inl isRegular)]
    exact iff_of_true notFound_framed (fun regular => absurd regular isRegular)

/-- A response that fits is well framed exactly if the file and the read of it are framable. -/
theorem framable_iff (printable : mime.Printable) (possible : Possible mime opening reading) :
    ((responseTo mime printable opening reading).text.length < responseMaxLen ∧
      WellFramed ((responseTo mime printable opening reading).text ++
        fileBytes (responseTo mime printable opening reading).sent)) ↔
      Framable mime opening reading := by
  rw [Response.framed_iff]
  cases useSendfile : mime.useSendfile with
  | true => exact sendfile_framed_iff useSendfile
  | false => exact read_framed_iff useSendfile possible

end Framable

/-- A refusal that is sent as a whole is written, and is well framed. -/
theorem refusal_is_framed {descriptor : Nat} {shared : Shared} {trace : List Answer}
    {before : Worker} {admitted : Worker → Answer → Prop} (sound : shared.Sound)
    (run : Runs.Run step admitted (start descriptor shared) trace before) {size : Nat}
    (phase : before.phase = .refusing size) :
    ∃ after, before.step (.refuse (.took size)) = some after ∧
      WellFramed (written after.calls) := by
  have ready := run_ready sound run
  cases run_progress run with
  | refusing other _ held silent _ =>
    obtain rfl := Phase.refusing.inj (phase.symm.trans other)
    have fits : badRequest.length ≤ before.shared.responseMalloced.length := by
      rw [ready.sound.size]
      decide
    obtain ⟨malloced, cleared, _⟩ := clearFront_some before.shared.responseMalloced _ fits
    have read : Memory.readRange before.shared.responseMalloced 0 badRequest.length =
        some badRequest := by
      rw [Memory.readRange, if_pos (by omega), List.drop_zero, held]
    refine ⟨cleanup { before.log [.sent before.fileDescriptor badRequest] with
      shared := { before.shared with responseMalloced := malloced } }, ?_, ?_⟩
    · unfold Worker.step
      rw [phase]
      simp only [sendRefusal, guard, le_refl, ↓reduceIte, read, cleared, Option.bind_eq_bind,
        Option.pure_def, Option.bind_some, log]
    · have all : written (before.calls ++ [.sent before.fileDescriptor badRequest] ++
          [.closed 1]) = requestBuffer (ascii "HTTP/1.1 400 BAD REQUEST")
            [serverLine, lengthLine 0, plainTypeLine, closeLine] ++ [] := by
        simp [silent, Call.written, ← badRequest_text]
      rw [cleanup, log, log, all, wellFramed_iff _ _ (by decide)]
      refine ⟨by decide, by decide, by decide +kernel, ⟨lengthLine 0, by simp, rfl⟩, ?_⟩
      decide
  | before other => simp [phase, Phase.InLoop] at other
  | sending _ _ _ other | sendingFile _ _ _ _ other | returned _ _ _ _ other | cleanedUp other =>
    simp [phase] at other

/-- Behind the 503 its terminator is sent, which is not announced. -/
theorem serviceUnavailable_misframed : ¬ WellFramed serviceUnavailable := by
  have parts : serviceUnavailable = requestBuffer (ascii "HTTP/1.1 503 SERVICE UNAVAILABLE")
      [serverLine, lengthLine 0,
        field (ascii "Content-Type") (ascii "plain/text") (by decide) (by decide) (by decide)
          (by decide), closeLine] ++ [0] := by
    decide
  rw [parts, wellFramed_iff _ _ (by decide)]
  intro frames
  exact absurd (frames.exact (lengthLine 0) (by simp) rfl) (by decide)

/-- In every run, whatever was answered before: the reply to a request is well framed exactly
if the file, and the read of it, are framable; a refusal that is sent as a whole is well
framed, and a refusal for want of a free connection never is.

The bytes of a reply are the text of its response and the file behind it, and are taken apart
in one way, so that what is announced can be compared with what follows. -/
theorem replies_are_framed_iff {shared : Shared} (history : History shared) {descriptor : Nat}
    {trace : List Answer} {before : Worker}
    (run : Runs.Run step Runs.anywhere (start descriptor shared) trace before) :
    (before.phase = .serving → ∀ fresh beyond opening reading path,
      filePath fresh before.request.url = some path →
      Possible (getMimeType (strrchr (readPath path beyond) 46)) opening reading →
      ((∃ bytes, Replies before (.serve fresh beyond opening reading) bytes ∧ WellFramed bytes) ↔
        Framable (getMimeType (strrchr (readPath path beyond) 46)) opening reading)) ∧
    (∀ size, before.phase = .refusing size → ∃ after,
      before.step (.refuse (.took size)) = some after ∧ WellFramed (written after.calls)) ∧
    ¬ WellFramed serviceUnavailable := by
  refine ⟨?_, fun size phase => refusal_is_framed history.sound run phase,
    serviceUnavailable_misframed⟩
  intro phase fresh beyond opening reading path made possible
  rw [← framable_iff (getMimeType_printable _) possible]
  constructor
  · rintro ⟨bytes, replies, framed⟩
    obtain ⟨_, fits, rfl⟩ := (replies_exact history.sound run phase made bytes).mp replies
    exact ⟨fits, framed⟩
  · rintro ⟨fits, framed⟩
    exact ⟨_, (replies_exact history.sound run phase made _).mpr ⟨possible, fits, rfl⟩, framed⟩

/-- A request for an image. -/
def imageHead : CompleteRequest :=
  { rootHead with
    url := ascii "/a.png"
    urlClean := by decide }

/-- It is served under its path. -/
theorem image_served (descriptor : Nat) (shared : Shared) : ∃ trace before,
    Runs.Run step (Delivers (requestStream [imageHead])) (start descriptor shared) trace before ∧
      before.phase = .serving ∧
      ∃ path, filePath (fun _ => 0) before.request.url = some path ∧
        getMimeType (strrchr (readPath path []) 46) =
          ⟨some (ascii ".png"), ascii "image/png", true⟩ := by
  obtain ⟨trace, before, run, serving, paths⟩ := reaches_path imageHead (by decide) (by decide)
    (by decide +kernel) (by decide +kernel) descriptor shared
  obtain ⟨path, made, read⟩ := paths (fun _ => 0)
  exact ⟨trace, before, run, serving, path, made, by rw [read]; decide +kernel⟩

/-- A request for a text. -/
def textHead : CompleteRequest :=
  { rootHead with
    url := ascii "/a.txt"
    urlClean := by decide }

/-- It is served under its path. -/
theorem text_served (descriptor : Nat) (shared : Shared) : ∃ trace before,
    Runs.Run step (Delivers (requestStream [textHead])) (start descriptor shared) trace before ∧
      before.phase = .serving ∧
      ∃ path, filePath (fun _ => 0) before.request.url = some path ∧
        getMimeType (strrchr (readPath path []) 46) =
          ⟨some (ascii ".txt"), ascii "text/plain; charset=utf-8", false⟩ := by
  obtain ⟨trace, before, run, serving, paths⟩ := reaches_path textHead (by decide) (by decide)
    (by decide +kernel) (by decide +kernel) descriptor shared
  obtain ⟨path, made, read⟩ := paths (fun _ => 0)
  exact ⟨trace, before, run, serving, path, made, by rw [read]; decide +kernel⟩

/-- An image of three bytes is replied to as it should be. -/
theorem replies_are_framed_iff_image :
    ∃ trace before bytes, Runs.Run step Runs.anywhere (start 5 Shared.start) trace before ∧
      before.phase = .serving ∧ WellFramed bytes ∧
      Replies before (.serve (fun _ => 0) [] (.opened 6 true (.regular [1, 2, 3])) none) bytes := by
  obtain ⟨trace, before, run, serving, path, made, mime⟩ := image_served 5 Shared.start
  have everywhere := run.weaken (fun _ _ _ => trivial)
  have possible : Possible (getMimeType (strrchr (readPath path []) 46))
      (.opened 6 true (.regular [1, 2, 3])) none := by
    rw [mime]
    exact nofun
  obtain ⟨bytes, replies, framed⟩ := ((replies_are_framed_iff .start everywhere).1 serving _ _ _ _
    path made possible).mpr (by rw [mime]; exact ⟨rfl, by decide⟩)
  exact ⟨trace, before, bytes, everywhere, serving, framed, replies⟩

/-- The reply for an image that cannot be opened still holds a directive. -/
theorem missing_image_is_misframed :
    ∃ trace before bytes, Runs.Run step (Delivers (requestStream [imageHead]))
        (start 5 Shared.start) trace before ∧ before.phase = .serving ∧
      Replies before (.serve (fun _ => 0) [] .failed none) bytes ∧ ¬ WellFramed bytes := by
  obtain ⟨trace, before, run, serving, path, made, mime⟩ := image_served 5 Shared.start
  obtain ⟨possible, fits, _⟩ := missing_response (readPath path []) none
  refine ⟨trace, before, _, run, serving,
    (replies_exact Shared.start_sound run serving made _).mpr ⟨possible, fits, rfl⟩, ?_⟩
  have copied : responseFor (readPath path []) .failed none = .rawNotFound :=
    responseTo_rawNotFound (by rw [mime]) rfl
  rw [copied, Response.framed_iff]
  exact fun ⟨other, _⟩ => other rfl

end VHttp.Worker
