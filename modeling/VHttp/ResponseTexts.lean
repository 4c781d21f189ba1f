import VHttp.RequestBuffer
import VHttp.WorkerSteps

/-!
# The responses of the worker

Every response text is a status line, header lines and the empty line behind them, and for
a file that was read the bytes that strncat takes of it. Which one is built, and which file
is left to sendfile, is decided by the mime mapping, by what open finds, and by how far the
read gets. What the response buffer held before does not matter, as each text is terminated
where it is built.
-/

namespace VHttp.Worker

open VHttpRequest

/-- A header line of a response. -/
def field (key text : Bytes) (named : key ≠ []) (keyClean : 58 ∉ key ∧ 13 ∉ key ∧ 10 ∉ key ∧ 0 ∉ key)
    (textClean : 13 ∉ text ∧ 10 ∉ text ∧ 0 ∉ text) (printed : ∃ byte ∈ text, isSpace byte = false) :
    HeaderLine where
  key := key
  value := 32 :: text
  named := named
  keyClean := keyClean
  valueClean := by simpa using textClean
  printed := by
    obtain ⟨byte, member, visible⟩ := printed
    exact ⟨byte, List.mem_cons_of_mem _ member, visible⟩

/-- "Server: vserve". -/
def serverLine : HeaderLine :=
  field (ascii "Server") (ascii "vserve") (by decide) (by decide) (by decide) (by decide)

/-- "Connection: Keep-Alive". -/
def keepAliveLine : HeaderLine :=
  field (ascii "Connection") (ascii "Keep-Alive") (by decide) (by decide) (by decide) (by decide)

/-- "Connection: close". -/
def closeLine : HeaderLine :=
  field (ascii "Connection") (ascii "close") (by decide) (by decide) (by decide) (by decide)

/-- No byte of a printed int is white space. -/
theorem decimal_visible (value : Int) : ∀ byte ∈ decimal value, isSpace byte = false := by
  have shown : ∀ number, ∀ byte ∈ digits number, isSpace byte = false := by
    intro number byte member
    have range := digits_range number byte member
    simp only [UInt8.le_iff_toNat_le, UInt8.reduceToNat] at range
    have noBlank : byte ≠ 32 := by
      rintro rfl
      simp at range
    simp only [isSpace, noBlank, decide_false, Bool.false_or, Bool.and_eq_false_imp,
      decide_eq_true_eq, decide_eq_false_iff_not, UInt8.le_iff_toNat_le, UInt8.reduceToNat]
    omega
  cases value with
  | ofNat number => exact shown number
  | negSucc below =>
    intro byte member
    rcases List.mem_cons.mp member with rfl | isDigit
    · decide
    · exact shown _ byte isDigit

theorem decimal_nonempty (value : Int) : decimal value ≠ [] := by
  cases value with
  | ofNat number => exact digits_nonempty number
  | negSucc below => exact List.cons_ne_nil _ _

theorem lengthKey_nonempty : ascii "Content-Length" ≠ [] := by decide

theorem lengthKey_clean : 58 ∉ ascii "Content-Length" ∧ 13 ∉ ascii "Content-Length" ∧
    10 ∉ ascii "Content-Length" ∧ 0 ∉ ascii "Content-Length" := by decide

/-- "Content-Length", with an int. -/
def lengthLine (value : Int) : HeaderLine :=
  field (ascii "Content-Length") (decimal value) lengthKey_nonempty lengthKey_clean
    ⟨decimal_clean value 13 (by decide), decimal_clean value 10 (by decide),
      decimal_clean value 0 (by decide)⟩
    ((List.exists_mem_of_ne_nil _ (decimal_nonempty value)).imp
      fun byte member => ⟨member, decimal_visible value byte member⟩)

/-- "Content-Type", with the type of a printable mapping. -/
def typeLine (mime : MimeMapping) (printable : mime.Printable) : HeaderLine :=
  field (ascii "Content-Type") mime.mimeType (by decide) (by decide)
    ⟨printable.clean.2.2.1, printable.clean.2.1, printable.clean.1⟩ printable.visible

/-- "Content-Type", with the directive that nothing has replaced. -/
def rawTypeLine : HeaderLine :=
  field (ascii "Content-Type") (ascii "%s") (by decide) (by decide) (by decide) (by decide)

/-- "Content-Type" of a 403 reply. -/
def htmlTypeLine : HeaderLine :=
  field (ascii "Content-Type") (ascii "text/html; charset=utf-8") (by decide) (by decide)
    (by decide) (by decide)

/-- "Content-Type" of a 400 reply. -/
def plainTypeLine : HeaderLine :=
  field (ascii "Content-Type") (ascii "text/plain") (by decide) (by decide) (by decide) (by decide)

/-- The format of a 200 reply, filled in. -/
theorem okResponse_text (value : Int) (mime : MimeMapping) (printable : mime.Printable) :
    format okResponseFmt [.integer value, .text mime.mimeType] =
      requestBuffer (ascii "HTTP/1.1 200 OK")
        [serverLine, keepAliveLine, lengthLine value, typeLine mime printable] := by
  have parts : okResponseFmt =
      (ascii "HTTP/1.1 200 OK" ++ ascii "\r\n" ++ serverLine.bytes ++ ascii "\r\n" ++
        keepAliveLine.bytes ++ ascii "\r\n" ++ ascii "Content-Length" ++ [58, 32]) ++
      37 :: 100 :: ((ascii "\r\n" ++ ascii "Content-Type" ++ [58, 32]) ++
      37 :: 115 :: (ascii "\r\n\r\n" ++ [])) := by decide
  rw [parts, format_plain _ _ _ (by decide), format_integer, format_plain _ _ _ (by decide),
    format_text, format_plain _ _ _ (by decide)]
  simp [requestBuffer, lengthLine, typeLine, field, HeaderLine.bytes, format]

/-- The format of a 404 reply, filled in. -/
theorem notFoundResponse_text (mime : MimeMapping) (printable : mime.Printable) :
    format notFoundResponseFmt [.text mime.mimeType] =
      requestBuffer (ascii "HTTP/1.1 404 NOT FOUND")
        [serverLine, lengthLine 0, typeLine mime printable, closeLine] := by
  have parts : notFoundResponseFmt =
      (ascii "HTTP/1.1 404 NOT FOUND" ++ ascii "\r\n" ++ serverLine.bytes ++ ascii "\r\n" ++
        (lengthLine 0).bytes ++ ascii "\r\n" ++ ascii "Content-Type" ++ [58, 32]) ++
      37 :: 115 :: ((ascii "\r\n" ++ closeLine.bytes ++ ascii "\r\n\r\n") ++ []) := by decide
  rw [parts, format_plain _ _ _ (by decide), format_text, format_plain _ _ _ (by decide)]
  simp [requestBuffer, typeLine, field, HeaderLine.bytes, format]

/-- The format of a 404 reply, as strncpy copies it. -/
theorem notFoundResponseFmt_text : notFoundResponseFmt =
    requestBuffer (ascii "HTTP/1.1 404 NOT FOUND")
      [serverLine, lengthLine 0, rawTypeLine, closeLine] := by decide

/-- The text of a 403 reply. -/
theorem forbiddenResponse_text :
    format forbiddenResponseFmt
        [.integer 45, .text (ascii "text/html; charset=utf-8"), .text forbiddenHtml] =
      requestBuffer (ascii "HTTP/1.1 403 FORBIDDEN")
        [serverLine, lengthLine 45, htmlTypeLine, closeLine] ++ forbiddenHtml := by
  decide +kernel

/-- The text of a 400 reply. -/
theorem badRequest_text : badRequest =
    requestBuffer (ascii "HTTP/1.1 400 BAD REQUEST")
      [serverLine, lengthLine 0, plainTypeLine, closeLine] := by decide

/-- The responses to a request that was parsed: a 404 or a file that was read, with the bytes
that the read stored if it did not fail, or a 404, a 200 and a 403 of the other path. -/
inductive Response where
  | notFound (mime : MimeMapping) (printable : mime.Printable)
  | readFile (mime : MimeMapping) (printable : mime.Printable) (stored : Option Bytes)
  | rawNotFound
  | sentFile (mime : MimeMapping) (printable : mime.Printable) (file : VFile)
  | forbidden

namespace Response

/-- The status line. -/
def statusLine : Response → Bytes
  | notFound _ _ | rawNotFound => ascii "HTTP/1.1 404 NOT FOUND"
  | readFile _ _ _ | sentFile _ _ _ => ascii "HTTP/1.1 200 OK"
  | forbidden => ascii "HTTP/1.1 403 FORBIDDEN"

/-- The number that is printed as the content length. -/
def announced : Response → Int
  | notFound _ _ | rawNotFound => 0
  | readFile _ _ stored => asInt ((stored.map List.length).getD minusOne)
  | sentFile _ _ file => asInt file.info.size
  | forbidden => 45

/-- The header lines. -/
def headers (response : Response) : List HeaderLine :=
  match response with
  | notFound mime printable =>
    [serverLine, lengthLine response.announced, typeLine mime printable, closeLine]
  | readFile mime printable _ | sentFile mime printable _ =>
    [serverLine, keepAliveLine, lengthLine response.announced, typeLine mime printable]
  | rawNotFound => [serverLine, lengthLine response.announced, rawTypeLine, closeLine]
  | forbidden => [serverLine, lengthLine response.announced, htmlTypeLine, closeLine]

/-- What stands behind the header lines in the response buffer: of the bytes of a file,
those in front of the first NUL. -/
def content : Response → Bytes
  | readFile _ _ (some stored) => (CString.read stored).1
  | forbidden => forbiddenHtml
  | _ => []

/-- The text in the response buffer. -/
def text (response : Response) : Bytes :=
  requestBuffer response.statusLine response.headers ++ response.content

/-- The file that is left to sendfile. -/
def sent : Response → Option VFile
  | sentFile _ _ file => some file
  | _ => none

theorem text_clean (response : Response) : 0 ∉ response.text := by
  have head : ∀ line headers, 0 ∉ line → 0 ∉ requestBuffer line headers := by
    intro line headers clean member
    simp only [requestBuffer, List.mem_append, List.mem_flatMap] at member
    rcases member with (inLine | ⟨header, _, inEnd | inHeader⟩) | inEnd
    · exact clean inLine
    · exact absurd inEnd (by decide)
    · exact header.bytes_clean.2.2 inHeader
    · exact absurd inEnd (by decide)
  rw [text, List.mem_append, not_or]
  constructor
  · refine head _ _ ?_
    cases response <;> rw [statusLine] <;> decide
  · cases response with
    | readFile _ _ stored =>
      cases stored with
      | none => simp [content]
      | some stored => exact (CString.read stored).2
    | forbidden => decide
    | _ => simp [content]

end Response

/-- The response to a request, by the mime mapping, what open finds, and how far read gets. -/
def responseTo (mime : MimeMapping) (printable : mime.Printable) (opening : Opening)
    (reading : Option Nat) : Response :=
  let file := vFileOpen opening
  if mime.useSendfile then
    if file.fileDescriptor = none then .rawNotFound
    else if file.getType = some .regular then .sentFile mime printable file
    else .forbidden
  else
    if file.fileDescriptor = none then .notFound mime printable
    else if file.getType ≠ some .regular then .notFound mime printable
    else match reading with
      | none => .readFile mime printable none
      | some 0 => .notFound mime printable
      | some read => .readFile mime printable (some (file.content.take read))

theorem field_length (key text : Bytes) (named : key ≠ [])
    (keyClean : 58 ∉ key ∧ 13 ∉ key ∧ 10 ∉ key ∧ 0 ∉ key) (textClean : 13 ∉ text ∧ 10 ∉ text ∧ 0 ∉ text)
    (printed : ∃ byte ∈ text, isSpace byte = false) :
    (field key text named keyClean textClean printed).bytes.length = key.length + text.length + 2 := by
  simp [field, HeaderLine.bytes]
  omega

theorem requestBuffer_length (line : Bytes) (headers : List HeaderLine) :
    (requestBuffer line headers).length =
      line.length + (headers.map (fun header => header.bytes.length + 2)).sum + 4 := by
  have two : (ascii "\r\n").length = 2 := by decide
  have four : (ascii "\r\n\r\n").length = 4 := by decide
  simp only [requestBuffer, List.length_append, List.length_flatMap, two, four]
  simp [Nat.add_comm 2]

/-- Without the bytes of a file, every response is short. -/
theorem Response.head_short (response : Response) :
    (requestBuffer response.statusLine response.headers).length ≤ 200 := by
  have status : response.statusLine.length ≤ 22 := by
    cases response <;> rw [statusLine] <;> decide
  have fixed : serverLine.bytes.length = 14 ∧ keepAliveLine.bytes.length = 22 ∧
      closeLine.bytes.length = 17 ∧ rawTypeLine.bytes.length = 16 ∧
      htmlTypeLine.bytes.length = 38 := by decide
  have number : ∀ value, (decimal value).length ≤ 11 → (lengthLine value).bytes.length ≤ 27 := by
    intro value short
    have key : (ascii "Content-Length").length = 14 := by decide
    rw [lengthLine, field_length, key]
    omega
  have type : ∀ mime printable, (typeLine mime printable).bytes.length ≤ 46 := by
    intro mime printable
    have key : (ascii "Content-Type").length = 12 := by decide
    have short := printable.short
    rw [typeLine, field_length, key]
    omega
  have announced : (lengthLine response.announced).bytes.length ≤ 27 := by
    refine number _ ?_
    cases response with
    | notFound => exact (by decide : (decimal 0).length ≤ 11)
    | rawNotFound => exact (by decide : (decimal 0).length ≤ 11)
    | readFile => exact decimal_short _
    | sentFile => exact decimal_short _
    | forbidden => exact (by decide : (decimal 45).length ≤ 11)
  obtain ⟨server, keepAlive, close, rawType, htmlType⟩ := fixed
  rw [requestBuffer_length]
  generalize value : response.announced = number at announced
  cases response with
  | notFound mime printable | readFile mime printable | sentFile mime printable =>
    have itsType := type mime printable
    simp only [headers, value, List.map_cons, List.map_nil, List.sum_cons, List.sum_nil, server,
      close, keepAlive]
    omega
  | rawNotFound | forbidden =>
    simp only [headers, value, List.map_cons, List.map_nil, List.sum_cons, List.sum_nil, server,
      close, rawType, htmlType]
    omega

end VHttp.Worker
