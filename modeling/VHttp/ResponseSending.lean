import VHttp.RequestStream
import VHttp.ServedResponses

/-!
# What has been written of a response

The header and the file of a response are sent by two loops. The first one stops for good
when a send would block, and the second one then sends the file behind what there is of the
header. So the bytes written are a prefix of the two as long as no send would block, and
a worker that returns has written everything exactly if none did. An error of sendfile is
tried again at the same offset, which loses nothing.
-/

namespace VHttp.Worker

@[simp] theorem written_nil : written [] = [] := rfl

@[simp] theorem written_cons (call : Call) (rest : List Call) :
    written (call :: rest) = call.written ++ written rest := rfl

@[simp] theorem written_append (first second : List Call) :
    written (first ++ second) = written first ++ written second := List.flatMap_append

@[simp] theorem responses_nil : responses [] = [] := rfl

@[simp] theorem responses_cons (call : Call) (rest : List Call) :
    responses (call :: rest) = call.response.toList ++ responses rest := by
  cases call <;> rfl

@[simp] theorem responses_append (first second : List Call) :
    responses (first ++ second) = responses first ++ responses second := List.filterMap_append

/-- A send of the response that would have blocked. -/
def Stalled (trace : List Answer) : Prop := .send (.failed .again) ∈ trace

/-- The calls of the receive loop write nothing and build no response. -/
theorem inLoopCalls_quiet {descriptor : Nat} {calls : List Call}
    (heard : ∀ call ∈ calls, InLoopCall descriptor call) :
    written calls = [] ∧ responses calls = [] := by
  induction calls with
  | nil => exact ⟨rfl, rfl⟩
  | cons call rest inductionHypothesis =>
    obtain ⟨silent, free⟩ := inductionHypothesis
      (fun other member => heard other (List.mem_cons_of_mem _ member))
    have first := heard call List.mem_cons_self
    rw [written_cons, responses_cons, silent, free]
    cases call with
    | peeked | received | parsed => exact ⟨rfl, rfl⟩
    | opened | responded | sent | sentFile | closed => exact absurd first id

/-- A file that is left to sendfile is known with its size. -/
theorem reply_file {malloced : Memory} {pool : VString} {mime : MimeMapping}
    {fresh : Nat → UInt8} {opening : Opening} {reading : Option Nat} {built : Reply}
    (replied : reply malloced pool mime fresh opening reading = some built) :
    ∀ file, built.file = some file → file.info.size = file.content.length := by
  intro file isFile
  rw [reply] at replied
  split at replied
  · simp only [serveSendfile] at replied
    split at replied
    · simp only [Option.bind_eq_bind, Option.bind_eq_some_iff, Option.pure_def,
        Option.some.injEq] at replied
      obtain ⟨_, _, rfl⟩ := replied
      simp at isFile
    · split at replied
      · rename_i isRegular
        simp only [Option.bind_eq_bind, Option.bind_eq_some_iff, Option.pure_def,
          Option.some.injEq] at replied
        obtain ⟨_, _, rfl⟩ := replied
        obtain rfl := Option.some.inj isFile
        exact regular_size isRegular
      · simp only [Option.bind_eq_bind, Option.bind_eq_some_iff, Option.pure_def,
          Option.some.injEq] at replied
        obtain ⟨_, _, rfl⟩ := replied
        simp at isFile
  · simp only [serveRead, Option.bind_eq_bind, Option.bind_eq_some_iff] at replied
    obtain ⟨entire, _, replied⟩ := replied
    split at replied <;>
      simp only [Option.bind_eq_some_iff, Option.pure_def, Option.some.injEq] at replied
    · obtain ⟨_, _, rfl⟩ := replied
      simp at isFile
    · obtain ⟨_, _, _, _, rfl⟩ := replied
      simp at isFile

/-- How much of a response and of the file behind it has been written. -/
structure Owed (worker : Worker) (response : Bytes) (file : Option VFile)
    (totalSent sended : Nat) : Prop where
  noted : responses worker.calls = [(response, file)]
  written : written worker.calls = response.take totalSent ++ (fileBytes file).take sended
  within : totalSent ≤ response.length
  whole : ∀ more, file = some more → more.info.size = more.content.length

/-- Where a worker stands with its response. -/
inductive Progress (trace : List Answer) (worker : Worker) : Prop where
  | before (phase : worker.phase.InLoop ∨ worker.phase = .serving) (smooth : ¬ Stalled trace)
      (silent : written worker.calls = []) (free : responses worker.calls = [])
  | refusing (phase : worker.phase = .refusing badRequest.length) (smooth : ¬ Stalled trace)
      (held : worker.shared.responseMalloced.take badRequest.length = badRequest)
      (silent : written worker.calls = []) (refusal : responses worker.calls = [(badRequest, none)])
  | sending (response : Bytes) (file : Option VFile) (totalSent : Nat)
      (phase : worker.phase = .sending response.length totalSent file)
      (short : totalSent < response.length) (smooth : ¬ Stalled trace)
      (held : worker.shared.responseMalloced.take response.length = response)
      (owed : Owed worker response file totalSent 0)
  | sendingFile (response : Bytes) (file : VFile) (totalSent sended : Nat)
      (phase : worker.phase = .sendingFile response.length file sended)
      (owed : Owed worker response (some file) totalSent sended)
      (stalled : Stalled trace ↔ totalSent < response.length)
  | returned (response : Bytes) (file : Option VFile) (totalSent sended : Nat)
      (phase : worker.phase = .returned) (owed : Owed worker response file totalSent sended)
      (complete : (fileBytes file).length ≤ sended)
      (stalled : Stalled trace ↔ totalSent < response.length)
  | cleanedUp (phase : worker.phase = .cleanedUp)
      (begun : (responses worker.calls = [] ∧ written worker.calls = []) ∨
        ∃ response file, responses worker.calls = [(response, file)] ∧
          written worker.calls <+: response ++ fileBytes file)

section Progress

variable {worker after : Worker} {trace : List Answer}

/-- The test of the second loop. -/
theorem Owed.sendFileOn {response : Bytes} {file : Option VFile} {totalSent sended : Nat}
    (owed : Owed worker response file totalSent sended)
    (stalled : Stalled trace ↔ totalSent < response.length)
    (sent : worker.sendFileOn response.length file sended = some after) :
    Progress trace after := by
  rcases sendFileOn_cases sent with ⟨more, rfl, _, rfl⟩ | ⟨complete, finished⟩
  · exact .sendingFile response more totalSent sended rfl
      ⟨owed.noted, owed.written, owed.within, owed.whole⟩ stalled
  · obtain ⟨malloced, _, rfl⟩ := finish_cases finished
    refine .returned response file totalSent sended rfl
      ⟨owed.noted, owed.written, owed.within, owed.whole⟩ ?_ stalled
    cases file with
    | none => exact Nat.zero_le _
    | some more => exact (owed.whole more rfl) ▸ complete more rfl

/-- The test of the first loop. -/
theorem Owed.sendOn {response : Bytes} {file : Option VFile} {totalSent : Nat}
    (owed : Owed worker response file totalSent 0) (smooth : ¬ Stalled trace)
    (held : worker.shared.responseMalloced.take response.length = response)
    (sent : worker.sendOn response.length totalSent file = some after) : Progress trace after := by
  rcases sendOn_cases sent with ⟨short, rfl⟩ | ⟨complete, sent⟩
  · exact .sending response file totalSent rfl short smooth held
      ⟨owed.noted, owed.written, owed.within, owed.whole⟩
  · refine owed.sendFileOn ⟨fun stalled => absurd stalled smooth, fun short => ?_⟩ sent
    omega

/-- A step of the receive loop. -/
theorem LoopStep.progress (step : LoopStep worker after) (smooth : ¬ Stalled trace)
    (silent : written worker.calls = []) (free : responses worker.calls = []) :
    Progress trace after := by
  obtain ⟨heard, all, looped⟩ := step.looped
  obtain ⟨quiet, fair⟩ := inLoopCalls_quiet all
  cases looped with
  | stays inLoop calls _ =>
    exact .before (Or.inl inLoop) smooth (by simp [calls, silent, quiet]) (by simp [calls, free, fair])
  | leaves serving calls _ _ _ =>
    exact .before (Or.inr serving) smooth (by simp [calls, silent, quiet])
      (by simp [calls, free, fair])
  | refuses refusing calls built _ =>
    refine .refusing refusing smooth ?_ ?_ ?_
    · exact snprintf_take built (by decide)
    · simp [calls, silent, quiet, Call.written]
    · simp [calls, free, fair, Call.response]
  | cleans cleanedUp calls _ =>
    refine .cleanedUp cleanedUp (Or.inl ⟨?_, ?_⟩)
    · simp [calls, free, fair, Call.response]
    · simp [calls, silent, quiet, Call.written]

/-- Reading more of the buffer continues what was sent of the response. -/
theorem take_sent {buffer : Memory} {response bytes : Bytes} (totalSent : Nat) {count : Nat}
    (held : buffer.take response.length = response) (bounded : count ≤ response.length - totalSent)
    (read : buffer.readRange totalSent count = some bytes) :
    response.take (totalSent + count) = response.take totalSent ++ bytes := by
  rw [Memory.readRange, Option.ite_none_right_eq_some, Option.some.injEq] at read
  obtain ⟨_, rfl⟩ := read
  have same : (response.drop totalSent).take count = (buffer.drop totalSent).take count := by
    conv_lhs => rw [← held]
    rw [List.drop_take, List.take_take, Nat.min_eq_left bounded]
  rw [List.take_add, same]

theorem stalled_append (answer : Answer) :
    Stalled (trace ++ [answer]) ↔ Stalled trace ∨ answer = .send (.failed .again) := by
  simp [Stalled, eq_comm]

/-- The answer to a request. -/
theorem serve_progress {fresh : Nat → UInt8} {beyond : Bytes} {opening : Opening}
    {reading : Option Nat} (smooth : ¬ Stalled trace) (silent : written worker.calls = [])
    (free : responses worker.calls = [])
    (served : worker.serve fresh beyond opening reading = some after) : Progress trace after := by
  obtain ⟨path, built, responseLen, _, replied, measured, sent⟩ := serve_cases served
  have bounded : responseLen < built.responseMalloced.length :=
    (List.findIdx?_eq_some_iff_findIdx_eq.mp measured).1
  have size : (built.responseMalloced.take responseLen).length = responseLen := by
    rw [List.length_take]
    omega
  rw [← size] at sent
  refine Owed.sendOn ⟨?_, ?_, Nat.zero_le _, reply_file replied⟩ smooth ?_ sent
  · simp [free, size, Call.response]
  · simp [silent, Call.written]
  · rw [size]

/-- One send of the response. -/
theorem send_progress {response : Bytes} {file : Option VFile} {totalSent : Nat} {result : Sent}
    (short : totalSent < response.length) (smooth : ¬ Stalled trace)
    (held : worker.shared.responseMalloced.take response.length = response)
    (owed : Owed worker response file totalSent 0)
    (sent : worker.send response.length totalSent file result = some after) :
    Progress (trace ++ [.send result]) after := by
  rcases send_cases sent with ⟨rfl, sent⟩ | ⟨⟨errno, other, rfl⟩, rfl⟩ |
    ⟨count, bytes, rfl, bounded, read, sent⟩
  · exact owed.sendFileOn (iff_of_true ((stalled_append _).mpr (Or.inr rfl)) short) sent
  · refine .cleanedUp rfl (Or.inr ⟨response, file, ?_, ?_⟩)
    · simp [cleanup, log, owed.noted, Call.response]
    · have part := (List.take_prefix totalSent response).trans (List.prefix_append _ (fileBytes file))
      simpa [cleanup, log, owed.written, Call.written] using part
  · have still : ¬ Stalled (trace ++ [.send (.took count)]) := by
      simpa [stalled_append] using smooth
    have further : Owed (worker.log [.sent worker.fileDescriptor bytes]) response file
        (totalSent + count) 0 := by
      refine ⟨?_, ?_, by omega, owed.whole⟩
      · simp [log, owed.noted, Call.response]
      · rw [take_sent totalSent held bounded read]
        simp [log, owed.written, Call.written]
    exact further.sendOn still held sent

/-- One sendfile. -/
theorem sendfile_progress {response : Bytes} {file : VFile} {totalSent sended : Nat}
    {result : Option Nat} (owed : Owed worker response (some file) totalSent sended)
    (stalled : Stalled trace ↔ totalSent < response.length)
    (sent : worker.sendfile response.length file sended result = some after) :
    Progress (trace ++ [.sendfile result]) after := by
  have still : Stalled (trace ++ [.sendfile result]) ↔ totalSent < response.length := by
    rw [stalled_append, stalled]
    simp
  rcases sendfile_cases sent with ⟨rfl, sent⟩ | ⟨count, rfl, _, sent⟩
  · exact owed.sendFileOn still sent
  · have further : Owed (worker.log [.sentFile worker.fileDescriptor
        ((file.content.drop sended).take count)]) response (some file) totalSent (sended + count) := by
      refine ⟨?_, ?_, owed.within, owed.whole⟩
      · simp [log, owed.noted, Call.response]
      · simp [log, owed.written, Call.written, fileBytes, List.take_add]
    exact further.sendFileOn still sent

/-- A refusal, of which a part is sent. -/
theorem sendRefusal_progress {result : Sent}
    (held : worker.shared.responseMalloced.take badRequest.length = badRequest)
    (silent : written worker.calls = []) (refusal : responses worker.calls = [(badRequest, none)])
    (sent : worker.sendRefusal badRequest.length result = some after) : Progress trace after := by
  obtain ⟨taken, bytes, bounded, read, _, cleanedUp, calls, _⟩ := sendRefusal_cases sent
  have part := take_sent 0 held bounded read
  rw [Nat.zero_add, List.take_zero, List.nil_append] at part
  refine .cleanedUp cleanedUp (Or.inr ⟨badRequest, none, ?_, ?_⟩)
  · simp [calls, refusal, Call.response]
  · have begun := (List.take_prefix taken badRequest).trans (List.prefix_append _ (fileBytes none))
    simpa [calls, silent, Call.written, ← part] using begun

/-- Every step keeps account of the response and of what is written. -/
theorem step_progress {answer : Answer} (progress : Progress trace worker)
    (stepped : worker.step answer = some after) : Progress (trace ++ [answer]) after := by
  have still : ¬ Stalled trace → (∀ result, answer ≠ .send result) →
      ¬ Stalled (trace ++ [answer]) := by
    intro smooth noSend stalled
    exact ((stalled_append answer).mp stalled).elim smooth (noSend _)
  cases step_taken stepped with
  | looping phase noSend step =>
    cases progress with
    | before _ smooth silent free => exact step.progress (still smooth noSend) silent free
    | refusing other | sending _ _ _ other | sendingFile _ _ _ _ other | returned _ _ _ _ other
    | cleanedUp other => exact absurd phase (by simp [other, Phase.InLoop])
  | refusing phase step =>
    cases progress with
    | refusing other smooth held silent refusal =>
      obtain rfl := Phase.refusing.inj (phase.symm.trans other)
      exact sendRefusal_progress held silent refusal step
    | before other => simp [phase, Phase.InLoop] at other
    | sending _ _ _ other | sendingFile _ _ _ _ other | returned _ _ _ _ other | cleanedUp other =>
      simp [phase] at other
  | serving phase step =>
    cases progress with
    | before _ smooth silent free =>
      have smoothOn := still smooth (fun _ same => by cases same)
      exact serve_progress smoothOn silent free step
    | refusing other | sending _ _ _ other | sendingFile _ _ _ _ other | returned _ _ _ _ other
    | cleanedUp other => simp [phase] at other
  | sending phase step =>
    cases progress with
    | sending response file totalSent other short smooth held owed =>
      obtain ⟨rfl, rfl, rfl⟩ := Phase.sending.inj (phase.symm.trans other)
      exact send_progress short smooth held owed step
    | before other => simp [phase, Phase.InLoop] at other
    | refusing other | sendingFile _ _ _ _ other | returned _ _ _ _ other | cleanedUp other =>
      simp [phase] at other
  | sendingFile phase step =>
    cases progress with
    | sendingFile response file totalSent sended other owed stalled =>
      obtain ⟨rfl, rfl, rfl⟩ := Phase.sendingFile.inj (phase.symm.trans other)
      exact sendfile_progress owed stalled step
    | before other => simp [phase, Phase.InLoop] at other
    | refusing other | sending _ _ _ other | returned _ _ _ _ other | cleanedUp other =>
      simp [phase] at other

/-- What has been written, read off from where the worker stands. -/
theorem Progress.verdict (progress : Progress trace worker) :
    (responses worker.calls = [] ∧ written worker.calls = [] ∧ worker.phase ≠ .returned) ∨
    ∃ response file, responses worker.calls = [(response, file)] ∧
      (¬ Stalled trace → written worker.calls <+: response ++ fileBytes file) ∧
      (worker.phase = .returned →
        (written worker.calls = response ++ fileBytes file ↔ ¬ Stalled trace)) := by
  cases progress with
  | before phase _ silent free =>
    refine Or.inl ⟨free, silent, ?_⟩
    rintro returned
    simp [returned, Phase.InLoop] at phase
  | refusing phase _ _ silent refusal =>
    refine Or.inr ⟨badRequest, none, refusal, fun _ => ?_, by simp [phase]⟩
    rw [silent]
    exact List.nil_prefix
  | sending response file totalSent phase _ _ _ owed =>
    refine Or.inr ⟨response, file, owed.noted, fun _ => ?_, by simp [phase]⟩
    rw [owed.written, List.take_zero, List.append_nil]
    exact (List.take_prefix _ _).trans (List.prefix_append _ _)
  | sendingFile response file totalSent sended phase owed stalled =>
    refine Or.inr ⟨response, some file, owed.noted, fun smooth => ?_, by simp [phase]⟩
    have complete : response.length ≤ totalSent := Nat.le_of_not_lt (smooth ∘ stalled.mpr)
    rw [owed.written, List.take_of_length_le complete]
    exact (List.prefix_append_right_inj _).mpr (List.take_prefix _ _)
  | returned response file totalSent sended phase owed complete stalled =>
    have within := owed.within
    have whole : written worker.calls = response ++ fileBytes file ↔ ¬ Stalled trace := by
      rw [owed.written, List.take_of_length_le complete, List.append_cancel_right_eq,
        List.take_eq_self_iff, stalled]
      omega
    exact Or.inr ⟨response, file, owed.noted, fun smooth => whole.mpr smooth ▸ List.prefix_rfl,
      fun _ => whole⟩
  | cleanedUp phase begun =>
    rcases begun with ⟨free, silent⟩ | ⟨response, file, noted, begun⟩
    · exact Or.inl ⟨free, silent, by simp [phase]⟩
    · exact Or.inr ⟨response, file, noted, fun _ => begun, by simp [phase]⟩

end Progress

/-- Every run keeps account of the response and of what is written. -/
theorem run_progress {descriptor : Nat} {shared : Shared} {trace : List Answer} {worker : Worker}
    {admitted : Worker → Answer → Prop}
    (run : Runs.Run step admitted (start descriptor shared) trace worker) : Progress trace worker := by
  have initial : Progress [] (start descriptor shared) :=
    .before (Or.inl trivial) (by simp [Stalled]) rfl rfl
  exact run.induct Progress initial
    (fun _ _ _ _ _ progress _ stepped => step_progress progress stepped)

/-- In every run of the worker, at most one response is built. As long as no send would
block, the bytes written are a prefix of that response followed by the file that is sent
behind it; and a worker that has returned with the connection open has written all of that
exactly if no send would block.

Each step keeps account of how much of the response and of the file has been written. A
send that would block leaves the first loop with a part of the response unsent, and nothing
sends it afterwards. -/
theorem response_is_written {descriptor : Nat} {shared : Shared} {trace : List Answer}
    {worker : Worker} (run : Runs.Run step Runs.anywhere (start descriptor shared) trace worker) :
    (responses worker.calls = [] ∧ written worker.calls = [] ∧ worker.phase ≠ .returned) ∨
    ∃ response file, responses worker.calls = [(response, file)] ∧
      (.send (.failed .again) ∉ trace → written worker.calls <+: response ++ fileBytes file) ∧
      (worker.phase = .returned →
        (written worker.calls = response ++ fileBytes file ↔
          .send (.failed .again) ∉ trace)) := (run_progress run).verdict

/-- A file that cannot be opened is answered with a short text. -/
theorem missing_response (path : Bytes) (reading : Option Nat) :
    Possible (getMimeType (strrchr path 46)) .failed reading ∧
      (responseFor path .failed reading).text.length < responseMaxLen ∧
      (responseFor path .failed reading).sent = none := by
  refine ⟨by simp [Possible, vFileOpen, VFile.getType], ?_, ?_⟩
  · refine Response.text_short _ ?_
    simp only [responseFor, responseTo, vFileOpen, ↓reduceIte]
    split <;> exact Nat.zero_le _
  · simp only [responseFor, responseTo, vFileOpen, ↓reduceIte]
    split <;> rfl

/-- A worker that serves can answer that there is no such file. -/
theorem Ready.serves_missing {worker : Worker} (ready : Ready worker)
    (phase : worker.phase = .serving) (valid : worker.request.url.Valid)
    (short : worker.request.url.length < 2 ^ 31) :
    ∃ after response, worker.step (.serve (fun _ => 0) [] .failed none) = some after ∧
      after.phase = .sending response 0 none := by
  obtain ⟨path, made⟩ := filePath_returns (fun _ => 0) valid short
  obtain ⟨possible, fits, unsent⟩ := missing_response (readPath path []) none
  obtain ⟨after, served⟩ := ready.serves phase made possible fits
  have stepped := served
  unfold Worker.step at stepped
  rw [phase] at stepped
  obtain ⟨same, built, isPath, _, _, rfl⟩ := serve_exact ready.sound (ready.cleared phase) stepped
  obtain rfl := Option.some.inj (isPath.symm.trans made)
  exact ⟨_, _, served, by rw [unsent]⟩

/-- A worker that is about to send the answer to a request for the root. -/
theorem root_sending : ∃ trace worker response,
    Runs.Run step (Delivers (requestStream [rootHead])) (start 5 Shared.start) trace worker ∧
      worker.phase = .sending response 0 none ∧ Ready worker := by
  obtain ⟨trace, before, run, phase, reading⟩ :=
    reaches_serving rootHead (by decide) (by decide) 5 Shared.start
  have ready := run_ready Shared.start_sound run
  have length : before.request.url.length = 1 := by
    rw [← reading.strings.url.content_length, reading.url]
    decide
  obtain ⟨worker, response, served, sending⟩ :=
    ready.serves_missing phase reading.strings.url (by rw [length]; decide)
  have allowed : Delivers (requestStream [rootHead]) before
      (.serve (fun _ => 0) [] .failed none) := by
    simp only [Delivers, phase]
  exact ⟨_, worker, response, .next run allowed served, sending, ready.step served⟩

/-- A request for the root that is answered in full. -/
theorem response_is_written_root :
    ∃ trace worker, Runs.Run step Runs.anywhere (start 5 Shared.start) trace worker ∧
      worker.phase = .returned ∧
      ((responses worker.calls = [] ∧ written worker.calls = [] ∧ worker.phase ≠ .returned) ∨
      ∃ response file, responses worker.calls = [(response, file)] ∧
        (.send (.failed .again) ∉ trace → written worker.calls <+: response ++ fileBytes file) ∧
        (worker.phase = .returned →
          (written worker.calls = response ++ fileBytes file ↔
            .send (.failed .again) ∉ trace))) := by
  obtain ⟨first, middle, response, run, sending, ready⟩ := root_sending
  obtain ⟨second, worker, sends, returned, _⟩ := ready.returns sending (Nat.zero_le _)
  have whole := (run.weaken (fun _ _ _ => trivial)).append (Runs.Run.of_foldlM sends)
  exact ⟨_, worker, whole, returned, response_is_written whole⟩

/-- A send that would block: the worker returns with the connection open, and its response
is not written. -/
theorem stalled_response_is_lost :
    ∃ trace worker, Runs.Run step (Delivers (requestStream [rootHead])) (start 5 Shared.start) trace
        worker ∧ worker.phase = .returned ∧
      ∃ response file, responses worker.calls = [(response, file)] ∧
        written worker.calls ≠ response ++ fileBytes file := by
  obtain ⟨trace, middle, response, run, sending, ready⟩ := root_sending
  obtain ⟨worker, finished, returned⟩ :=
    finish_returns ready.sound (ready.bounded response (by rw [sending]; rfl))
  have stalls : middle.step (.send (.failed .again)) = some worker := by
    unfold Worker.step
    rw [sending]
    exact finished
  have allowed : Delivers (requestStream [rootHead]) middle (.send (.failed .again)) := by
    simp [Delivers, sending]
  have whole := Runs.Run.next run allowed stalls
  refine ⟨_, worker, whole, returned, ?_⟩
  rcases (run_progress whole).verdict with ⟨_, _, other⟩ | ⟨response, file, noted, _, complete⟩
  · exact absurd returned other
  · refine ⟨response, file, noted, fun all => ?_⟩
    exact (complete returned).mp all (List.mem_append_right _ List.mem_cons_self)

end VHttp.Worker
