import VHttp.FilePaths
import VHttp.ResponseBuilding

/-!
# Serving from the shared buffer

The response buffer and the length of the last response are handed from one run of the
worker to the next. Every step keeps the size of the buffer and the bound on the length, so
that each run finds a buffer that its response can be built in, and the clearing behind the
response, which goes by the length of the one before, stays inside it.
-/

namespace VHttp.Worker

open VHttpRequest

/-- The shared state as every run finds it. -/
structure Shared.Sound (shared : Shared) : Prop where
  size : shared.responseMalloced.length = responseMaxLen
  last : shared.lastResponseLength < responseMaxLen

theorem Shared.start_sound : Shared.start.Sound := ⟨List.length_replicate, by decide⟩

/-- The length of the response that is being sent. -/
def Phase.responseLength : Phase → Option Nat
  | .sending responseLen _ _ | .sendingFile responseLen _ _ => some responseLen
  | _ => none

/-- A worker whose shared state is sound, whose string pool is cleared when it serves, and
whose response fits the buffer. -/
structure Ready (worker : Worker) : Prop where
  sound : worker.shared.Sound
  cleared : worker.phase = .serving → Cleared worker.stringPool
  bounded : ∀ responseLen, worker.phase.responseLength = some responseLen →
    responseLen < responseMaxLen

theorem start_ready {shared : Shared} (sound : shared.Sound) (descriptor : Nat) :
    Ready (start descriptor shared) := ⟨sound, nofun, nofun⟩

/-- The response to a path. -/
def responseFor (path : Bytes) (opening : Opening) (reading : Option Nat) : Response :=
  responseTo (getMimeType (strrchr path 46)) (getMimeType_printable _) opening reading

section Ready

variable {worker after : Worker}

theorem finish_ready {responseLen : Nat} (sound : worker.shared.Sound)
    (bounded : responseLen < responseMaxLen) (finished : worker.finish responseLen = some after) :
    Ready after := by
  obtain ⟨malloced, cleared, rfl⟩ := finish_cases finished
  exact ⟨⟨(writeRange_length cleared).trans sound.size, bounded⟩, nofun, nofun⟩

theorem sendFileOn_ready {responseLen sended : Nat} {file : Option VFile}
    (sound : worker.shared.Sound) (bounded : responseLen < responseMaxLen)
    (sent : worker.sendFileOn responseLen file sended = some after) : Ready after := by
  rcases sendFileOn_cases sent with ⟨more, _, _, rfl⟩ | ⟨_, finished⟩
  · exact ⟨sound, nofun, fun _ same => Option.some.inj same ▸ bounded⟩
  · exact finish_ready sound bounded finished

theorem sendOn_ready {responseLen totalSent : Nat} {file : Option VFile}
    (sound : worker.shared.Sound) (bounded : responseLen < responseMaxLen)
    (sent : worker.sendOn responseLen totalSent file = some after) : Ready after := by
  rcases sendOn_cases sent with ⟨_, rfl⟩ | ⟨_, sent⟩
  · exact ⟨sound, nofun, fun _ same => Option.some.inj same ▸ bounded⟩
  · exact sendFileOn_ready sound bounded sent

theorem Response.text_positive (response : Response) : 0 < response.text.length := by
  simp only [Response.text, requestBuffer, List.length_append]
  have four : (ascii "\r\n\r\n").length = 4 := by decide
  omega

/-- The answer to a request: the response to its path is in the buffer, and is sent next. -/
theorem serve_exact {fresh : Nat → UInt8} {beyond : Bytes} {opening : Opening}
    {reading : Option Nat} (sound : worker.shared.Sound) (cleared : Cleared worker.stringPool)
    (served : worker.serve fresh beyond opening reading = some after) :
    ∃ path built, filePath fresh worker.request.url = some path ∧
      reply worker.shared.responseMalloced worker.stringPool
        (getMimeType (strrchr (readPath path beyond) 46)) fresh opening reading = some built ∧
      Holds (responseFor (readPath path beyond) opening reading) built ∧
      after = { worker with
        shared := ⟨built.responseMalloced, worker.shared.lastResponseLength⟩
        stringPool := built.stringPool
        openFile := built.leftOpen
        calls := worker.calls ++ [.opened (readPath path beyond) opening,
          .responded (responseFor (readPath path beyond) opening reading).text
            (responseFor (readPath path beyond) opening reading).sent]
        phase := .sending (responseFor (readPath path beyond) opening reading).text.length 0
          (responseFor (readPath path beyond) opening reading).sent } := by
  obtain ⟨path, built, responseLen, concatenated, replied, measured, sent⟩ := serve_cases served
  have holds : Holds (responseFor (readPath path beyond) opening reading) built :=
    reply_holds sound.size cleared replied
  have length := measured.symm.trans (strlen_terminated holds.terminated)
  obtain rfl := Option.some.inj length
  rw [holds.terminated.take, holds.sent] at sent
  refine ⟨path, built, concatenated, replied, holds, ?_⟩
  rcases sendOn_cases sent with ⟨_, rfl⟩ | ⟨empty, _⟩
  · rfl
  · have positive := (responseFor (readPath path beyond) opening reading).text_positive
    omega

/-- A request is answered if the read is possible and the response fits the buffer. -/
theorem Ready.serves (ready : Ready worker) (phase : worker.phase = .serving)
    {fresh : Nat → UInt8} {path : VString} (made : filePath fresh worker.request.url = some path)
    {beyond : Bytes} {opening : Opening} {reading : Option Nat}
    (possible : Possible (getMimeType (strrchr (readPath path beyond) 46)) opening reading)
    (fits : (responseFor (readPath path beyond) opening reading).text.length < responseMaxLen) :
    ∃ after, worker.step (.serve fresh beyond opening reading) = some after := by
  obtain ⟨built, replied, holds⟩ := (reply_exact fresh ready.sound.size (ready.cleared phase)
    possible).1 fits
  have measured := strlen_terminated holds.terminated
  have positive := (responseFor (readPath path beyond) opening reading).text_positive
  unfold Worker.step
  rw [phase]
  simp only [serve, made, replied, measured, Option.bind_eq_bind, Option.bind_some, sendOn]
  rw [responseFor] at positive
  rw [if_pos positive]
  exact ⟨_, rfl⟩

/-- And only then. -/
theorem serve_possible {fresh : Nat → UInt8} {beyond : Bytes} {opening : Opening}
    {reading : Option Nat} (sound : worker.shared.Sound) (cleared : Cleared worker.stringPool)
    (served : worker.serve fresh beyond opening reading = some after) :
    ∃ path, filePath fresh worker.request.url = some path ∧
      Possible (getMimeType (strrchr (readPath path beyond) 46)) opening reading ∧
      (responseFor (readPath path beyond) opening reading).text.length < responseMaxLen := by
  obtain ⟨path, built, made, replied, holds, _⟩ := serve_exact sound cleared served
  exact ⟨path, made, reply_possible replied, holds.size ▸ holds.terminated.short⟩

/-- Every step keeps a worker ready. -/
theorem Ready.step {answer : Answer} (ready : Ready worker)
    (stepped : worker.step answer = some after) : Ready after := by
  obtain ⟨sound, isCleared, isBounded⟩ := ready
  cases step_taken stepped with
  | looping phase noSend step =>
    obtain ⟨heard, _, looped⟩ := step.looped
    cases looped with
    | stays inLoop calls shared =>
      refine ⟨shared ▸ sound, fun serving => ?_, fun responseLen sending => ?_⟩
      · rw [serving] at inLoop
        exact absurd inLoop id
      · cases here : after.phase <;> rw [here] at inLoop sending <;>
          first | exact absurd inLoop id | cases sending
    | leaves serving calls blocked cleared shared =>
      exact ⟨shared ▸ sound, fun _ => cleared, by simp [serving, Phase.responseLength]⟩
    | refuses refusing calls built last =>
      exact ⟨⟨(writeRange_length built).trans sound.size, last ▸ sound.last⟩, by simp [refusing],
        by simp [refusing, Phase.responseLength]⟩
    | cleans cleanedUp calls shared =>
      exact ⟨shared ▸ sound, by simp [cleanedUp], by simp [cleanedUp, Phase.responseLength]⟩
  | refusing phase step =>
    obtain ⟨_, _, _, _, _, cleanedUp, _, cleared, last, _⟩ := sendRefusal_cases step
    exact ⟨⟨(writeRange_length cleared).trans sound.size, last ▸ sound.last⟩, by simp [cleanedUp],
      by simp [cleanedUp, Phase.responseLength]⟩
  | serving phase step =>
    obtain ⟨path, built, _, _, holds, rfl⟩ := serve_exact sound (isCleared phase) step
    refine ⟨⟨holds.size, sound.last⟩, nofun, fun _ same => ?_⟩
    have short := holds.terminated.short
    rw [holds.size] at short
    exact Option.some.inj same ▸ short
  | sending phase step =>
    have bounded := isBounded _ (by rw [phase]; rfl)
    rcases send_cases step with ⟨_, sent⟩ | ⟨_, rfl⟩ | ⟨_, _, _, _, _, sent⟩
    · exact sendFileOn_ready sound bounded sent
    · exact ⟨sound, nofun, nofun⟩
    · have logged : ∀ calls, (worker.log calls).shared.Sound := fun _ => sound
      exact sendOn_ready (logged _) bounded sent
  | sendingFile phase step =>
    have bounded := isBounded _ (by rw [phase]; rfl)
    rcases sendfile_cases step with ⟨_, sent⟩ | ⟨_, _, _, sent⟩
    · exact sendFileOn_ready sound bounded sent
    · have logged : ∀ calls, (worker.log calls).shared.Sound := fun _ => sound
      exact sendFileOn_ready (logged _) bounded sent

/-- So does every run. -/
theorem run_ready {descriptor : Nat} {shared : Shared} {trace : List Answer}
    {admitted : Worker → Answer → Prop} (sound : shared.Sound)
    (run : Runs.Run step admitted (start descriptor shared) trace worker) : Ready worker :=
  run.invariant Ready (start_ready sound descriptor)
    (fun _ _ _ ready _ stepped => ready.step stepped)

/-- The shared state between two runs of the worker: as `main` sets it up, or as a run has
left it. -/
inductive History : Shared → Prop where
  | start : History Shared.start
  | next {shared : Shared} {descriptor : Nat} {trace : List Answer} {worker : Worker}
      (earlier : History shared)
      (run : Runs.Run Worker.step Runs.anywhere (Worker.start descriptor shared) trace worker)
      (ended : worker.phase = .returned ∨ worker.phase = .cleanedUp) : History worker.shared

theorem History.sound {shared : Shared} (history : History shared) : shared.Sound := by
  induction history with
  | start => exact Shared.start_sound
  | next _ run _ sound => exact (run_ready sound run).sound

/-- A send or a sendfile that takes bytes. -/
def Taking : Answer → Prop
  | .send (.took _) | .sendfile (some _) => True
  | _ => False

theorem finish_returns {responseLen : Nat} (sound : worker.shared.Sound)
    (bounded : responseLen < responseMaxLen) :
    ∃ final, worker.finish responseLen = some final ∧ final.phase = .returned := by
  have inside : (if worker.shared.lastResponseLength = 0 then responseLen
      else worker.shared.lastResponseLength) ≤ worker.shared.responseMalloced.length := by
    have last := sound.last
    rw [sound.size]
    split <;> omega
  obtain ⟨malloced, cleared, _⟩ := clearFront_some worker.shared.responseMalloced _ inside
  refine ⟨{ worker with shared := ⟨malloced, responseLen⟩, phase := .returned }, ?_, rfl⟩
  simp only [finish, cleared, Option.bind_eq_bind, Option.bind_some, Option.pure_def]

/-- What is left of a file is sent by one sendfile. -/
theorem sendfile_returns (sound : worker.shared.Sound) {responseLen sended : Nat} {file : VFile}
    (bounded : responseLen < responseMaxLen)
    (phase : worker.phase = .sendingFile responseLen file sended) :
    ∃ final, worker.step (.sendfile (some (file.info.size - sended))) = some final ∧
      final.phase = .returned := by
  have logged : ∀ calls, (worker.log calls).shared.Sound := fun _ => sound
  obtain ⟨final, finish, returned⟩ := finish_returns (logged [.sentFile worker.fileDescriptor
    ((file.content.drop sended).take (file.info.size - sended))]) bounded
  have complete : ¬ sended + (file.info.size - sended) < file.info.size := by omega
  refine ⟨final, ?_, returned⟩
  unfold Worker.step
  rw [phase]
  simp only [sendfile, guard, le_refl, ↓reduceIte, Option.bind_eq_bind, Option.pure_def,
    Option.bind_some, sendFileOn, complete]
  exact finish

theorem sendFileOn_returns {responseLen : Nat} (sound : worker.shared.Sound)
    (bounded : responseLen < responseMaxLen) (file : Option VFile) :
    ∃ (next : Worker) (trace : List Answer) (final : Worker),
      worker.sendFileOn responseLen file 0 = some next ∧
      trace.foldlM Worker.step next = some final ∧ final.phase = .returned ∧
      ∀ answer ∈ trace, Taking answer := by
  have finished := finish_returns sound bounded
  cases file with
  | none =>
    obtain ⟨final, finish, returned⟩ := finished
    exact ⟨final, [], final, finish, rfl, returned, by simp⟩
  | some file =>
    by_cases unsent : 0 < file.info.size
    · have sending : ({ worker with phase := .sendingFile responseLen file 0 } : Worker).phase =
          .sendingFile responseLen file 0 := rfl
      obtain ⟨final, sends, returned⟩ := sendfile_returns (by exact sound) bounded sending
      refine ⟨{ worker with phase := .sendingFile responseLen file 0 },
        [.sendfile (some (file.info.size - 0))], final, ?_, ?_, returned, by simp [Taking]⟩
      · rw [sendFileOn, if_pos unsent]
      · rw [List.foldlM_cons, sends]
        rfl
    · obtain ⟨final, finish, returned⟩ := finished
      exact ⟨final, [], final, by rw [sendFileOn, if_neg unsent]; exact finish, rfl, returned,
        by simp⟩

/-- A ready worker that sends its response can return. -/
theorem Ready.returns (ready : Ready worker) {responseLen totalSent : Nat} {file : Option VFile}
    (phase : worker.phase = .sending responseLen totalSent file) (within : totalSent ≤ responseLen) :
    ∃ (trace : List Answer) (final : Worker), trace.foldlM Worker.step worker = some final ∧
      final.phase = .returned ∧ ∀ answer ∈ trace, Taking answer := by
  have bounded := ready.bounded responseLen (by rw [phase]; rfl)
  have total : totalSent + (responseLen - totalSent) = responseLen := by omega
  have inside : totalSent + (responseLen - totalSent) ≤
      worker.shared.responseMalloced.length := by
    rw [total, ready.sound.size]
    exact bounded.le
  obtain ⟨bytes, read⟩ : ∃ bytes, Memory.readRange worker.shared.responseMalloced totalSent
      (responseLen - totalSent) = some bytes :=
    ⟨_, by rw [Memory.readRange, if_pos inside]⟩
  have logged : ∀ calls, (worker.log calls).shared.Sound := fun _ => ready.sound
  obtain ⟨next, trace, final, sent, rest, returned, taking⟩ :=
    sendFileOn_returns (logged [.sent worker.fileDescriptor bytes]) bounded file
  refine ⟨.send (.took (responseLen - totalSent)) :: trace, final, ?_, returned, ?_⟩
  · have first : worker.step (.send (.took (responseLen - totalSent))) = some next := by
      unfold Worker.step
      rw [phase]
      simp only [send, guard, le_refl, ↓reduceIte, Option.bind_eq_bind, Option.pure_def,
        Option.bind_some, read, sendOn, total, lt_irrefl]
      exact sent
    rw [List.foldlM_cons, first]
    exact rest
  · intro answer member
    rcases List.mem_cons.mp member with rfl | later
    · trivial
    · exact taking answer later

end Ready

end VHttp.Worker
