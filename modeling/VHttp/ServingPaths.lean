import VHttp.ReplyFraming

/-!
# The two ways of serving a file

A file is read into the string pool and appended to the response, or it is left to sendfile,
as its extension says. With every call succeeding in full, a client gets the same status and
the same body from both for a file that cannot be opened, and for a regular file that is not
empty, has no NUL, and fits the response buffer with its header. A file that is not regular
is not found on one way and forbidden on the other, and an empty one is not found on one of
them only.
-/

namespace VHttp.Worker

open VHttpRequest

/-- The code in a status line: three digits behind the version. -/
def statusCode (line : Bytes) : Bytes := (line.drop 9).take 3

/-- A client receives a status code and body bytes. -/
def Gives (before : Worker) (answer : Answer) (code body : Bytes) : Prop :=
  ∃ line headers, 13 ∉ line ∧ statusCode line = code ∧
    Replies before answer (requestBuffer line headers ++ body)

section Serving

variable {descriptor : Nat} {shared : Shared} {trace : List Answer} {before : Worker}
variable {fresh : Nat → UInt8} {beyond : Bytes} {opening : Opening} {reading : Option Nat}

/-- What a client receives is read off the response. -/
theorem gives_iff (sound : shared.Sound)
    (run : Runs.Run step Runs.anywhere (start descriptor shared) trace before)
    (phase : before.phase = .serving) {path : VString}
    (made : filePath fresh before.request.url = some path) (code body : Bytes) :
    Gives before (.serve fresh beyond opening reading) code body ↔
      Possible (getMimeType (strrchr (readPath path beyond) 46)) opening reading ∧
      (responseFor (readPath path beyond) opening reading).text.length < responseMaxLen ∧
      statusCode (responseFor (readPath path beyond) opening reading).statusLine = code ∧
      (responseFor (readPath path beyond) opening reading).body = body := by
  constructor
  · rintro ⟨line, headers, oneLine, rfl, replies⟩
    obtain ⟨possible, fits, same⟩ := (replies_exact sound run phase made _).mp replies
    rw [Response.written_eq] at same
    obtain ⟨rfl, _, rfl⟩ := requestBuffer_unique oneLine (Response.oneLine _) same
    exact ⟨possible, fits, rfl, rfl⟩
  · rintro ⟨possible, fits, rfl, rfl⟩
    refine ⟨_, (responseFor (readPath path beyond) opening reading).headers, Response.oneLine _,
      rfl, ?_⟩
    rw [← Response.written_eq]
    exact (replies_exact sound run phase made _).mpr ⟨possible, fits, rfl⟩

end Serving

/-- The files that both ways serve alike; the first one prints the header with the type of
its mapping. -/
def ServedAlike (mime : MimeMapping) (opening : Opening) : Prop :=
  let file := vFileOpen opening
  file.fileDescriptor = none ∨
    file.getType = some .regular ∧ file.content ≠ [] ∧ 0 ∉ file.content ∧
      (format okResponseFmt [.integer (asInt file.content.length), .text mime.mimeType]).length +
        file.content.length < responseMaxLen

section Alike

variable {buffered direct : MimeMapping} {opening : Opening}

/-- A regular file that is read as a whole is served with all of its bytes exactly if it has
no NUL. -/
theorem piece_whole (content : Bytes) : piece content content.length = content ↔ 0 ∉ content := by
  rw [piece, List.take_length]
  constructor
  · intro same
    exact same ▸ (CString.read content).2
  · intro clean
    have read := CString.read_append content [] clean
    simpa [CString.read] using read

/-- The responses that the two ways build for one file. -/
theorem responses_agree_iff (printable : buffered.Printable) (other : direct.Printable)
    (read : buffered.useSendfile = false) (sends : direct.useSendfile = true)
    (reading : Option Nat) :
    let first := responseTo buffered printable opening (some (vFileOpen opening).info.size)
    let second := responseTo direct other opening reading
    (first.text.length < responseMaxLen ∧ second.text.length < responseMaxLen ∧
      statusCode first.statusLine = statusCode second.statusLine ∧ first.body = second.body) ↔
      ServedAlike buffered opening := by
  intro first second
  have missing : (vFileOpen opening).fileDescriptor = none →
      (vFileOpen opening).getType ≠ some .regular :=
    fun closed isRegular => regular_opened isRegular closed
  by_cases isRegular : (vFileOpen opening).getType = some .regular
  · have size := regular_size isRegular
    have sent : second = .sentFile direct other (vFileOpen opening) :=
      responseTo_sentFile sends isRegular
    simp only [ServedAlike, regular_opened isRegular, isRegular, false_or, true_and]
    by_cases empty : (vFileOpen opening).content = []
    · have nothing : first = .notFound buffered printable := by
        refine responseTo_notFound read (Or.inr ?_)
        rw [size, empty]
        rfl
      refine iff_of_false ?_ (fun alike => alike.1 empty)
      rw [nothing, sent]
      rintro ⟨_, _, codes, _⟩
      change statusCode (ascii "HTTP/1.1 404 NOT FOUND") = statusCode (ascii "HTTP/1.1 200 OK")
        at codes
      exact absurd codes (by decide)
    · have positive : (vFileOpen opening).info.size ≠ 0 := by
        rw [size]
        simpa using empty
      have whole : first = .readFile buffered printable (some (vFileOpen opening).content) := by
        have taken : first = .readFile buffered printable
            (some ((vFileOpen opening).content.take (vFileOpen opening).info.size)) :=
          responseTo_readFile read isRegular positive
        rwa [size, List.take_length] at taken
      have short := (Response.sentFile direct other (vFileOpen opening)).text_short
        (Nat.zero_le _)
      have bodies : (Response.readFile buffered printable (some (vFileOpen opening).content)).body =
          (Response.sentFile direct other (vFileOpen opening)).body ↔
            0 ∉ (vFileOpen opening).content := by
        rw [← piece_whole, piece, List.take_length]
        simp [Response.body, Response.content, Response.sent, fileBytes]
      rw [whole, sent, bodies, text_readFile]
      simp only [short, Response.statusLine, Option.map_some, Option.getD_some,
        List.length_append, true_and, ne_eq, empty, not_false_eq_true]
      rw [and_comm]
      refine and_congr_right fun clean => ?_
      have content : (Response.readFile buffered printable
          (some (vFileOpen opening).content)).content = (vFileOpen opening).content := by
        have same := (piece_whole (vFileOpen opening).content).mpr clean
        rwa [piece, List.take_length] at same
      rw [content]
  · have nothing : first = .notFound buffered printable :=
      responseTo_notFound read (Or.inl isRegular)
    have firstShort := (Response.notFound buffered printable).text_short (Nat.zero_le _)
    simp only [ServedAlike, isRegular, false_and, or_false]
    by_cases closed : (vFileOpen opening).fileDescriptor = none
    · have copied : second = .rawNotFound := responseTo_rawNotFound sends closed
      refine iff_of_true ?_ closed
      rw [nothing, copied]
      exact ⟨firstShort, Response.rawNotFound.text_short (Nat.zero_le _), rfl, rfl⟩
    · have refused : second = .forbidden := responseTo_forbidden sends closed isRegular
      refine iff_of_false ?_ closed
      rw [nothing, refused]
      rintro ⟨_, _, codes, _⟩
      change statusCode (ascii "HTTP/1.1 404 NOT FOUND") =
        statusCode (ascii "HTTP/1.1 403 FORBIDDEN") at codes
      exact absurd codes (by decide)

end Alike

/-- Two workers, whatever was answered before, serve the same file, one from the string pool
and one by sendfile, with a read of the whole file: both replies have the same status code and
the same body exactly if the file cannot be opened, or is regular, not empty, without a NUL,
and fits the response buffer with its header.

What a client receives is read off the two responses, which are then compared case by case. -/
theorem two_ways_agree_iff {first second : Shared} (history : History first)
    (other : History second) {descriptor peer : Nat} {trace more : List Answer}
    {before twin : Worker}
    (run : Runs.Run step Runs.anywhere (start descriptor first) trace before)
    (also : Runs.Run step Runs.anywhere (start peer second) more twin)
    (serving : before.phase = .serving) (servingToo : twin.phase = .serving)
    {fresh again : Nat → UInt8} {path same : VString}
    (made : filePath fresh before.request.url = some path)
    (remade : filePath again twin.request.url = some same) {beyond behind : Bytes}
    (read : (getMimeType (strrchr (readPath path beyond) 46)).useSendfile = false)
    (sends : (getMimeType (strrchr (readPath same behind) 46)).useSendfile = true)
    (opening : Opening) (reading : Option Nat) :
    (∃ code body,
      Gives before (.serve fresh beyond opening (some (vFileOpen opening).info.size)) code body ∧
      Gives twin (.serve again behind opening reading) code body) ↔
      ServedAlike (getMimeType (strrchr (readPath path beyond) 46)) opening := by
  refine Iff.trans ?_ (responses_agree_iff (getMimeType_printable _) (getMimeType_printable _) read
    sends reading)
  have whole : Possible (getMimeType (strrchr (readPath path beyond) 46)) opening
      (some (vFileOpen opening).info.size) := by
    rintro _ _ _ ⟨⟩
    exact le_rfl
  have unread : Possible (getMimeType (strrchr (readPath same behind) 46)) opening reading := by
    intro buffered
    rw [sends] at buffered
    cases buffered
  constructor
  · rintro ⟨code, body, given, givenToo⟩
    obtain ⟨_, fits, codes, bodies⟩ :=
      (gives_iff history.sound run serving made code body).mp given
    obtain ⟨_, fitsToo, codesToo, bodiesToo⟩ :=
      (gives_iff other.sound also servingToo remade code body).mp givenToo
    exact ⟨fits, fitsToo, codes.trans codesToo.symm, bodies.trans bodiesToo.symm⟩
  · rintro ⟨fits, fitsToo, codes, bodies⟩
    exact ⟨_, _, (gives_iff history.sound run serving made _ _).mpr ⟨whole, fits, rfl, rfl⟩,
      (gives_iff other.sound also servingToo remade _ _).mpr
        ⟨unread, fitsToo, codes.symm, bodies.symm⟩⟩

/-- A file of three bytes is served alike, as a text and as an image. -/
theorem two_ways_agree_iff_three : ∃ before twin code body,
    Gives before (.serve (fun _ => 0) [] (.opened 7 true (.regular [1, 2, 3])) (some 3)) code body ∧
      Gives twin (.serve (fun _ => 0) [] (.opened 7 true (.regular [1, 2, 3])) none) code body := by
  obtain ⟨trace, before, run, serving, path, made, mime⟩ := text_served 5 Shared.start
  obtain ⟨more, twin, also, servingToo, same, remade, direct⟩ := image_served 6 Shared.start
  obtain ⟨code, body, given, givenToo⟩ := (two_ways_agree_iff .start .start
    (run.weaken (fun _ _ _ => trivial)) (also.weaken (fun _ _ _ => trivial)) serving servingToo
    made remade (by rw [mime]) (by rw [direct]) (.opened 7 true (.regular [1, 2, 3])) none).mpr
    (Or.inr (by rw [mime]; decide +kernel))
  exact ⟨before, twin, code, body, given, givenToo⟩

/-- An empty file is not found as a text, and is served as an image. -/
theorem empty_file_differs : ∃ trace more before twin body,
    Runs.Run step (Delivers (requestStream [textHead])) (start 5 Shared.start) trace before ∧
      Runs.Run step (Delivers (requestStream [imageHead])) (start 6 Shared.start) more twin ∧
      Gives before (.serve (fun _ => 0) [] (.opened 7 true (.regular [])) (some 0))
        (ascii "404") body ∧
      Gives twin (.serve (fun _ => 0) [] (.opened 7 true (.regular [])) none)
        (ascii "200") body ∧
      ¬ ∃ code body,
        Gives before (.serve (fun _ => 0) [] (.opened 7 true (.regular [])) (some 0)) code body ∧
        Gives twin (.serve (fun _ => 0) [] (.opened 7 true (.regular [])) none) code body := by
  obtain ⟨trace, before, run, serving, path, made, mime⟩ := text_served 5 Shared.start
  obtain ⟨more, twin, also, servingToo, same, remade, direct⟩ := image_served 6 Shared.start
  have missing : responseFor (readPath path []) (.opened 7 true (.regular [])) (some 0) =
      .notFound _ (getMimeType_printable _) :=
    responseTo_notFound (by rw [mime]) (Or.inr rfl)
  have sent : responseFor (readPath same []) (.opened 7 true (.regular [])) none =
      .sentFile _ (getMimeType_printable _) (vFileOpen (.opened 7 true (.regular []))) :=
    responseTo_sentFile (by rw [direct]) rfl
  have text : ∀ code body,
      Gives before (.serve (fun _ => 0) [] (.opened 7 true (.regular [])) (some 0)) code body ↔
        ascii "404" = code ∧ [] = body := by
    intro code body
    rw [gives_iff Shared.start_sound (run.weaken (fun _ _ _ => trivial)) serving made, missing]
    have possible : Possible (getMimeType (strrchr (readPath path []) 46))
        (.opened 7 true (.regular [])) (some 0) := by
      rintro _ _ _ ⟨⟩
      exact le_rfl
    exact ⟨fun given => given.2.2, fun given => ⟨possible, Response.text_short _ (Nat.zero_le _),
      given⟩⟩
  have image : ∀ code body,
      Gives twin (.serve (fun _ => 0) [] (.opened 7 true (.regular [])) none) code body ↔
        ascii "200" = code ∧ [] = body := by
    intro code body
    rw [gives_iff Shared.start_sound (also.weaken (fun _ _ _ => trivial)) servingToo remade, sent]
    have possible : Possible (getMimeType (strrchr (readPath same []) 46))
        (.opened 7 true (.regular [])) none := by
      rw [direct]
      exact nofun
    exact ⟨fun given => given.2.2, fun given => ⟨possible, Response.text_short _ (Nat.zero_le _),
      given⟩⟩
  refine ⟨trace, more, before, twin, [], run, also, (text _ _).mpr ⟨rfl, rfl⟩,
    (image _ _).mpr ⟨rfl, rfl⟩, ?_⟩
  rintro ⟨code, body, given, givenToo⟩
  have codes := ((text code body).mp given).1.trans ((image code body).mp givenToo).1.symm
  exact absurd codes (by decide)

end VHttp.Worker
