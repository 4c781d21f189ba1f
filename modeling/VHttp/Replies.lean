import VHttp.ResponseSending

/-!
# The reply to a request

A worker that serves a request opens a path, builds a response and sends it. Whether it
does is decided by the file, by how far a read of it gets, and by the size of the response
buffer alone. When it does and no send would block, it has written the text of the response
and the file that is sent behind it, and nothing else.
-/

namespace VHttp.Worker

open VHttpRequest

/-- The bytes that a worker replies when its call is answered: it can return without a send
that would block, and whenever it does, it has written these. -/
structure Replies (before : Worker) (answer : Answer) (bytes : Bytes) : Prop where
  returns : ∃ trace final, Runs.Run step Runs.anywhere before (answer :: trace) final ∧
    ¬ Stalled trace ∧ final.phase = .returned
  writes : ∀ trace final, Runs.Run step Runs.anywhere before (answer :: trace) final →
    ¬ Stalled trace → final.phase = .returned → written final.calls = bytes

/-- A worker replies in one way. -/
theorem Replies.unique {before : Worker} {answer : Answer} {first second : Bytes}
    (replies : Replies before answer first) (also : Replies before answer second) :
    first = second := by
  obtain ⟨trace, final, run, smooth, returned⟩ := replies.returns
  exact (replies.writes trace final run smooth returned).symm.trans
    (also.writes trace final run smooth returned)

/-- A request whose url decodes to a short text without a NUL is served under the path that
the text names. -/
theorem reaches_path (request : CompleteRequest) (fits : request.bytes.length ≤ poolCapacity)
    (few : ((readHeaders request.headers).map HeaderLine.name).toFinset.card ≤ 32)
    (clean : 0 ∉ percentDecode request.url)
    (short : appRoot.length + (percentDecode request.url).length < VString.initTextSize)
    (descriptor : Nat) (shared : Shared) :
    ∃ trace before, Runs.Run step (Delivers (requestStream [request])) (start descriptor shared)
        trace before ∧ before.phase = .serving ∧
      ∀ fresh, ∃ path, filePath fresh before.request.url = some path ∧
        ∀ beyond, readPath path beyond = appRoot ++ percentDecode request.url := by
  obtain ⟨trace, before, run, serving, reading⟩ :=
    reaches_serving request fits few descriptor shared
  have url : before.request.url.content = percentDecode request.url := by
    rw [reading.url]
    simp
  have valid := reading.strings.url
  have length : before.request.url.length = (percentDecode request.url).length := by
    rw [← valid.content_length, url]
  refine ⟨trace, before, run, serving, fun fresh => ?_⟩
  have small : VString.initTextSize < 2 ^ 31 := by decide
  obtain ⟨path, made⟩ := filePath_returns fresh valid (by omega)
  refine ⟨path, made, fun beyond => ?_⟩
  rw [readPath_short made (by decide) (url ▸ clean) (length ▸ short), url]

section Serving

variable {descriptor : Nat} {shared : Shared} {admitted : Worker → Answer → Prop}
variable {trace : List Answer} {before : Worker}
variable {fresh : Nat → UInt8} {beyond : Bytes} {opening : Opening} {reading : Option Nat}

/-- Behind the answer to a request, the response that is noted is that to its path. -/
theorem served_response (sound : shared.Sound)
    (run : Runs.Run step admitted (start descriptor shared) trace before)
    (phase : before.phase = .serving) {path : VString}
    (made : filePath fresh before.request.url = some path) {middle after : Worker}
    {rest : List Answer} (served : before.step (.serve fresh beyond opening reading) = some middle)
    (further : Runs.Run step Runs.anywhere middle rest after)
    {response : Bytes} {file : Option VFile} (noted : responses after.calls = [(response, file)]) :
    response = (responseFor (readPath path beyond) opening reading).text ∧
      file = (responseFor (readPath path beyond) opening reading).sent := by
  have ready := run_ready sound run
  have free : responses before.calls = [] := by
    cases run_progress run with
    | before _ _ _ free => exact free
    | refusing other | sending _ _ _ other | sendingFile _ _ _ _ other | returned _ _ _ _ other
    | cleanedUp other => simp [phase] at other
  have stepped := served
  unfold Worker.step at stepped
  rw [phase] at stepped
  obtain ⟨same, built, isPath, _, _, rfl⟩ := serve_exact ready.sound (ready.cleared phase) stepped
  obtain rfl := Option.some.inj (isPath.symm.trans made)
  obtain ⟨later, extended⟩ := run_extends further
  rw [← extended, responses_append, responses_append, free] at noted
  simp only [responses_cons, responses_nil, Call.response, Option.toList_none, Option.toList_some,
    List.nil_append, List.cons_append, List.cons.injEq, Prod.mk.injEq] at noted
  exact ⟨noted.1.1.symm, noted.1.2.symm⟩

/-- The reply to a request: the read must be possible and the response must fit the buffer,
and then the response and its file are written. -/
theorem replies_exact (sound : shared.Sound)
    (run : Runs.Run step admitted (start descriptor shared) trace before)
    (phase : before.phase = .serving) {path : VString}
    (made : filePath fresh before.request.url = some path) (bytes : Bytes) :
    Replies before (.serve fresh beyond opening reading) bytes ↔
      Possible (getMimeType (strrchr (readPath path beyond) 46)) opening reading ∧
      (responseFor (readPath path beyond) opening reading).text.length < responseMaxLen ∧
      bytes = (responseFor (readPath path beyond) opening reading).text ++
        fileBytes (responseFor (readPath path beyond) opening reading).sent := by
  have ready := run_ready sound run
  have smooth : ¬ Stalled trace := by
    cases run_progress run with
    | before _ smooth _ _ => exact smooth
    | refusing other | sending _ _ _ other | sendingFile _ _ _ _ other | returned _ _ _ _ other
    | cleanedUp other => simp [phase] at other
  have writes : ∀ more final,
      Runs.Run step Runs.anywhere before (.serve fresh beyond opening reading :: more) final →
      ¬ Stalled more → final.phase = .returned →
      written final.calls = (responseFor (readPath path beyond) opening reading).text ++
        fileBytes (responseFor (readPath path beyond) opening reading).sent := by
    intro more final further moreSmooth returned
    obtain ⟨middle, served, rest⟩ := further.first
    have whole := (run.weaken (fun _ _ _ => trivial)).append further
    have unstalled : ¬ Stalled (trace ++ .serve fresh beyond opening reading :: more) := by
      simp only [Stalled, List.mem_append, List.mem_cons, reduceCtorEq, false_or, not_or]
      exact ⟨smooth, moreSmooth⟩
    rcases (run_progress whole).verdict with ⟨_, _, other⟩ | ⟨response, file, noted, _, complete⟩
    · exact absurd returned other
    · obtain ⟨rfl, rfl⟩ := served_response sound run phase made served rest noted
      exact (complete returned).mpr unstalled
  constructor
  · intro replies
    obtain ⟨more, final, further, moreSmooth, returned⟩ := replies.returns
    obtain ⟨middle, served, _⟩ := further.first
    unfold Worker.step at served
    rw [phase] at served
    obtain ⟨same, isPath, possible, fits⟩ :=
      serve_possible ready.sound (ready.cleared phase) served
    obtain rfl := Option.some.inj (isPath.symm.trans made)
    exact ⟨possible, fits, (replies.writes more final further moreSmooth returned).symm.trans
      (writes more final further moreSmooth returned)⟩
  · rintro ⟨possible, fits, rfl⟩
    obtain ⟨middle, served⟩ := ready.serves phase made possible fits
    have stepped := served
    unfold Worker.step at stepped
    rw [phase] at stepped
    obtain ⟨_, _, _, _, _, same⟩ := serve_exact ready.sound (ready.cleared phase) stepped
    obtain ⟨more, final, sends, returned, taking⟩ :=
      (ready.step served).returns (by rw [same]) (Nat.zero_le _)
    refine ⟨⟨more, final, ?_, ?_, returned⟩, writes⟩
    · exact (Runs.Run.next .start trivial served).append (Runs.Run.of_foldlM sends)
    · exact fun stalled => taking _ stalled

end Serving

end VHttp.Worker
