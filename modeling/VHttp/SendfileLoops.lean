import VHttp.WorkerSteps

/-!
# The two sending loops

`ThreadSendfile` and the loop at the end of `EpollHttpWorker` send a file with one sendfile
after another, each from the offset that the one before has left. The first gives up at an
error behind which the peer or the descriptor is gone. The second does not look at the result,
and goes on asking for the same bytes.

A loop is run on the results of its calls, in order: how many bytes the kernel could take, of
which it takes no more than it is asked for, or an error. Where the results end before the loop
does, it waits for another one.
-/

namespace VHttp.Sendfile

/-- The errors of sendfile: those that `ThreadSendfile` gives up at, EAGAIN and EWOULDBLOCK,
and any other one. -/
inductive Errno where
  | epipe
  | ebadf
  | econnreset
  | espipe
  | again
  | other
  deriving DecidableEq

/-- `err == EPIPE || err == EBADF || err == ECONNRESET || err == ESPIPE`. -/
def Errno.permanent : Errno → Bool
  | .epipe | .ebadf | .econnreset | .espipe => true
  | .again | .other => false

/-- The result of sendfile. -/
inductive Result where
  | took (count : Nat)
  | failed (errno : Errno)
  deriving DecidableEq

/-- What a loop has done: the bytes that each call of sendfile has sent, the descriptors closed,
and whether the loop has ended. -/
structure Sending where
  sent : List Bytes
  closed : List Nat
  stopped : Bool
  deriving DecidableEq

/-- A loop that waits for a result. -/
def Sending.waiting : Sending := ⟨[], [], false⟩

/-- A loop that ends. -/
def Sending.stopping (closed : List Nat) : Sending := ⟨[], closed, true⟩

/-- A call in front of the others. -/
def Sending.behind (sending : Sending) (bytes : Bytes) : Sending :=
  { sending with sent := bytes :: sending.sent }

/-- How many bytes a call at an offset sends. -/
def taken (file : VFile) (sended : Nat) : Result → Nat
  | .took count => min count (file.info.size - sended)
  | .failed _ => 0

/-- These bytes. -/
def portion (file : VFile) (sended : Nat) (result : Result) : Bytes :=
  (file.content.drop sended).take (taken file sended result)

/-- The sending loop of `EpollHttpWorker`, from an offset. -/
def inlineLoop (file : VFile) : Nat → List Result → Sending
  | sended, [] => if sended < file.info.size then .waiting else .stopping []
  | sended, result :: rest =>
    if sended < file.info.size then
      (inlineLoop file (sended + taken file sended result) rest).behind (portion file sended result)
    else .stopping []

/-- The loop of `ThreadSendfile`, and the close of the file behind it. -/
def threadSendfile (fileDescriptor : Nat) (file : VFile) : Nat → List Result → Sending
  | sended, [] =>
    if sended < file.info.size then .waiting else .stopping file.fileDescriptor.toList
  | sended, result :: rest =>
    if sended < file.info.size then
      match result with
      | .failed errno =>
        if errno.permanent then
          (Sending.stopping (fileDescriptor :: file.fileDescriptor.toList)).behind []
        else (threadSendfile fileDescriptor file sended rest).behind []
      | .took count =>
        (threadSendfile fileDescriptor file (sended + taken file sended (.took count)) rest).behind
          (portion file sended (.took count))
    else .stopping file.fileDescriptor.toList

/-- The offset behind some results. -/
def reached (file : VFile) (sended : Nat) (results : List Result) : Nat :=
  results.foldl (fun offset result => offset + taken file offset result) sended

/-- An error at which `ThreadSendfile` gives up, before the whole file is sent. -/
def Broken (file : VFile) (sended : Nat) (results : List Result) : Prop :=
  ∃ front errno behind, results = front ++ .failed errno :: behind ∧ errno.permanent = true ∧
    reached file sended front < file.info.size

/-- The inline loop makes the calls of `ThreadSendfile`, each sends the same bytes, and the one
has ended if the other has. -/
structure SendsAlike (fileDescriptor : Nat) (file : VFile) (results : List Result) : Prop where
  sent : (inlineLoop file 0 results).sent = (threadSendfile fileDescriptor file 0 results).sent
  stopped : (inlineLoop file 0 results).stopped =
    (threadSendfile fileDescriptor file 0 results).stopped

section Loops

variable {fileDescriptor sended : Nat} {file : VFile} {result : Result} {rest : List Result}

theorem reached_cons (file : VFile) (sended : Nat) (result : Result) (rest : List Result) :
    reached file sended (result :: rest) =
      reached file (sended + taken file sended result) rest := rfl

/-- A file that is sent stays sent. -/
theorem reached_whole (whole : file.info.size ≤ sended) (results : List Result) :
    reached file sended results = sended := by
  induction results with
  | nil => rfl
  | cons result rest inductionHypothesis =>
    have nothing : taken file sended result = 0 := by
      cases result with
      | took count =>
        rw [taken]
        omega
      | failed errno => rfl
    rw [reached_cons, nothing, Nat.add_zero, inductionHypothesis]

/-- Nothing breaks behind the whole file. -/
theorem not_broken_whole (whole : file.info.size ≤ sended) (results : List Result) :
    ¬ Broken file sended results := by
  rintro ⟨front, errno, behind, _, _, short⟩
  rw [reached_whole whole] at short
  omega

theorem not_broken_nil : ¬ Broken file sended [] := by
  rintro ⟨front, errno, behind, split, _⟩
  simp at split

/-- The first result breaks the loop, or one behind it does. -/
theorem broken_cons (more : sended < file.info.size) : Broken file sended (result :: rest) ↔
    (∃ errno, result = .failed errno ∧ errno.permanent = true) ∨
      Broken file (sended + taken file sended result) rest := by
  constructor
  · rintro ⟨front, errno, behind, split, permanent, short⟩
    cases front with
    | nil => exact Or.inl ⟨errno, (List.cons.inj split).1, permanent⟩
    | cons first front =>
      obtain ⟨rfl, tail⟩ := List.cons.inj split
      exact Or.inr ⟨front, errno, behind, tail, permanent, short⟩
  · rintro (⟨errno, rfl, permanent⟩ | ⟨front, errno, behind, rfl, permanent, short⟩)
    · exact ⟨[], errno, rest, rfl, permanent, more⟩
    · exact ⟨result :: front, errno, behind, rfl, permanent, short⟩

/-- `ThreadSendfile` goes on behind every result but a permanent error. -/
theorem threadSendfile_onward (more : sended < file.info.size)
    (onward : ∀ errno, result = .failed errno → errno.permanent = false) :
    threadSendfile fileDescriptor file sended (result :: rest) =
      (threadSendfile fileDescriptor file (sended + taken file sended result) rest).behind
        (portion file sended result) := by
  cases result with
  | took count => simp only [threadSendfile, more, ↓reduceIte]
  | failed errno =>
    have passing := onward errno rfl
    simp only [threadSendfile, more, passing, ↓reduceIte, Bool.false_eq_true, taken, portion,
      Nat.add_zero, List.take_zero]

/-- `ThreadSendfile` ends when the whole file is sent, or at a permanent error before. -/
theorem threadSendfile_stopped_iff (fileDescriptor : Nat) (file : VFile) (sended : Nat)
    (results : List Result) : (threadSendfile fileDescriptor file sended results).stopped = true ↔
      file.info.size ≤ reached file sended results ∨ Broken file sended results := by
  induction results generalizing sended with
  | nil =>
    by_cases more : sended < file.info.size
    · simp [threadSendfile, more, Sending.waiting, reached, not_broken_nil]
    · simp [threadSendfile, more, Sending.stopping, reached, Nat.le_of_not_lt more]
  | cons result rest inductionHypothesis =>
    by_cases more : sended < file.info.size
    · rw [reached_cons, broken_cons more]
      by_cases gone : ∃ errno, result = .failed errno ∧ errno.permanent = true
      · obtain ⟨errno, rfl, permanent⟩ := gone
        have ended : (threadSendfile fileDescriptor file sended (.failed errno :: rest)).stopped =
            true := by
          simp only [threadSendfile, more, permanent, ↓reduceIte]
          rfl
        exact iff_of_true ended (Or.inr (Or.inl ⟨errno, rfl, permanent⟩))
      · have onward : ∀ errno, result = .failed errno → errno.permanent = false := by
          intro errno same
          exact Bool.eq_false_iff.mpr fun permanent => gone ⟨errno, same, permanent⟩
        rw [threadSendfile_onward more onward]
        simp only [gone, false_or]
        exact inductionHypothesis _
    · have whole := Nat.le_of_not_lt more
      rw [reached_whole whole]
      simp only [threadSendfile, more, ↓reduceIte]
      exact iff_of_true rfl (Or.inl whole)

/-- The inline loop ends when the whole file is sent. -/
theorem inlineLoop_stopped_iff (file : VFile) (sended : Nat) (results : List Result) :
    (inlineLoop file sended results).stopped = true ↔
      file.info.size ≤ reached file sended results := by
  induction results generalizing sended with
  | nil =>
    by_cases more : sended < file.info.size
    · simp [inlineLoop, more, Sending.waiting, reached]
    · simp [inlineLoop, more, Sending.stopping, reached, Nat.le_of_not_lt more]
  | cons result rest inductionHypothesis =>
    by_cases more : sended < file.info.size
    · simp only [inlineLoop, more, ↓reduceIte]
      exact inductionHypothesis _
    · have whole := Nat.le_of_not_lt more
      rw [reached_whole whole]
      simp only [inlineLoop, more, ↓reduceIte]
      exact iff_of_true rfl whole

/-- Before the whole file is sent, the inline loop has not ended without another call. -/
theorem inlineLoop_goes_on (more : sended < file.info.size) (results : List Result) :
    ¬ ((inlineLoop file sended results).sent = [] ∧
      (inlineLoop file sended results).stopped = true) := by
  rintro ⟨silent, stopped⟩
  cases results with
  | nil =>
    have short := (inlineLoop_stopped_iff file sended []).mp stopped
    exact absurd more (Nat.not_lt.mpr short)
  | cons result rest =>
    simp only [inlineLoop, more, ↓reduceIte] at silent
    exact List.cons_ne_nil _ _ silent

/-- From any offset, the loops send alike exactly if nothing breaks the one. -/
theorem alike_from_iff (fileDescriptor : Nat) (file : VFile) (sended : Nat)
    (results : List Result) :
    ((inlineLoop file sended results).sent =
        (threadSendfile fileDescriptor file sended results).sent ∧
      (inlineLoop file sended results).stopped =
        (threadSendfile fileDescriptor file sended results).stopped) ↔
      ¬ Broken file sended results := by
  induction results generalizing sended with
  | nil =>
    refine iff_of_true ?_ not_broken_nil
    by_cases more : sended < file.info.size
    · simp only [inlineLoop, threadSendfile, more, ↓reduceIte, and_self]
    · simp only [inlineLoop, threadSendfile, more, ↓reduceIte, Sending.stopping, and_self]
  | cons result rest inductionHypothesis =>
    by_cases more : sended < file.info.size
    · rw [broken_cons more]
      by_cases gone : ∃ errno, result = .failed errno ∧ errno.permanent = true
      · -- `ThreadSendfile` gives up; the inline loop asks again, or waits to
        refine iff_of_false ?_ (not_not_intro (Or.inl gone))
        obtain ⟨errno, rfl, permanent⟩ := gone
        simp only [inlineLoop, threadSendfile, more, permanent, ↓reduceIte, taken, portion,
          Nat.add_zero, List.take_zero]
        rintro ⟨sameSent, sameStopped⟩
        exact inlineLoop_goes_on more rest ⟨(List.cons.inj sameSent).2, sameStopped⟩
      · have onward : ∀ errno, result = .failed errno → errno.permanent = false := by
          intro errno same
          exact Bool.eq_false_iff.mpr fun permanent => gone ⟨errno, same, permanent⟩
        rw [threadSendfile_onward more onward]
        simp only [gone, false_or, inlineLoop, more, ↓reduceIte, Sending.behind,
          List.cons.injEq, true_and]
        exact inductionHypothesis _
    · refine iff_of_true ?_ (not_broken_whole (Nat.le_of_not_lt more) _)
      simp only [inlineLoop, threadSendfile, more, ↓reduceIte, Sending.stopping, and_self]

end Loops

/-- For every file and all results, the inline loop sends what `ThreadSendfile` sends and ends
where it ends, exactly if no EPIPE, EBADF, ECONNRESET or ESPIPE comes before the whole file is
sent. -/
theorem sends_alike_iff (fileDescriptor : Nat) (file : VFile) (results : List Result) :
    SendsAlike fileDescriptor file results ↔ ¬ Broken file 0 results := by
  rw [← alike_from_iff fileDescriptor]
  exact ⟨fun alike => ⟨alike.sent, alike.stopped⟩, fun ⟨sent, stopped⟩ => ⟨sent, stopped⟩⟩

/-- The peer of a file with one byte has gone: `ThreadSendfile` ends, the inline loop does
not. -/
theorem broken_pipe_goes_on : ¬ ∀ (fileDescriptor : Nat) (file : VFile) (results : List Result),
    SendsAlike fileDescriptor file results := by
  intro always
  have alike := always 5 ⟨some 7, ⟨some .regular, 1⟩, [120]⟩ [.failed .epipe]
  exact absurd alike.stopped (by decide)

section Worker

open Worker

/-- What a worker is told of a result. -/
def answer (file : VFile) (sended : Nat) : Result → Answer
  | .took count => .sendfile (some (taken file sended (.took count)))
  | .failed _ => .sendfile none

/-- What it is told of one result after another. -/
def answers (file : VFile) : Nat → List Result → List Answer
  | _, [] => []
  | sended, result :: rest =>
    answer file sended result :: answers file (sended + taken file sended result) rest

variable {worker after : Worker} {responseLen sended : Nat} {file : VFile}

/-- A worker told of a result sends what the result takes, and tests its loop. -/
theorem sendfile_step (phase : worker.phase = .sendingFile responseLen file sended)
    {result : Result} (stepped : worker.step (answer file sended result) = some after) :
    ∃ calls, written calls = portion file sended result ∧
      (worker.log calls).sendFileOn responseLen (some file) (sended + taken file sended result) =
        some after := by
  unfold step at stepped
  rw [phase] at stepped
  cases result with
  | failed errno =>
    refine ⟨[], by simp [written, portion, taken], ?_⟩
    rw [log, List.append_nil]
    exact stepped
  | took count =>
    rcases sendfile_cases stepped with ⟨absent, _⟩ | ⟨_, same, _, sent⟩
    · cases absent
    · obtain rfl := Option.some.inj same
      exact ⟨_, List.append_nil _, sent⟩

/-- The worker of the event loop sends a file by the inline loop: it writes the same bytes, and
it returns when the loop ends. -/
theorem worker_sends (phase : worker.phase = .sendingFile responseLen file sended)
    (more : sended < file.info.size) {results : List Result}
    (ran : (answers file sended results).foldlM step worker = some after) :
    written after.calls = written worker.calls ++ (inlineLoop file sended results).sent.flatten ∧
      ((inlineLoop file sended results).stopped = true → after.phase = .returned) ∧
      ((inlineLoop file sended results).stopped = false →
        after.phase = .sendingFile responseLen file (reached file sended results)) := by
  induction results generalizing worker sended with
  | nil =>
    obtain rfl := Option.some.inj ran
    simp only [inlineLoop, more, ↓reduceIte]
    refine ⟨(List.append_nil _).symm, fun stopped => ?_, fun _ => phase⟩
    exact absurd stopped Bool.false_ne_true
  | cons result rest inductionHypothesis =>
    simp only [answers, List.foldlM_cons, Option.bind_eq_bind, Option.bind_eq_some_iff] at ran
    obtain ⟨middle, stepped, ran⟩ := ran
    obtain ⟨calls, sent, tested⟩ := sendfile_step phase stepped
    simp only [inlineLoop, more, ↓reduceIte]
    rcases sendFileOn_cases tested with ⟨_, same, onward, rfl⟩ | ⟨whole, finished⟩
    · obtain rfl := Option.some.inj same
      obtain ⟨bytes, ends, stays⟩ := inductionHypothesis rfl onward ran
      refine ⟨?_, ends, stays⟩
      rw [bytes]
      simp only [log, written, List.flatMap_append, Sending.behind, List.flatten_cons,
        List.append_assoc]
      rw [← sent, written]
    · obtain ⟨_, _, rfl⟩ := finish_cases finished
      cases rest with
      | nil =>
        obtain rfl := Option.some.inj ran
        have ended : inlineLoop file (sended + taken file sended result) [] = .stopping [] := by
          rw [inlineLoop, if_neg (Nat.not_lt.mpr (whole _ rfl))]
        rw [ended]
        refine ⟨?_, fun _ => rfl, fun waits => absurd waits.symm Bool.false_ne_true⟩
        simp only [log, written, List.flatMap_append, Sending.behind, Sending.stopping,
          List.flatten_cons, List.flatten_nil, List.append_nil]
        rw [← sent, written]
      | cons next rest =>
        -- a worker that has returned is told nothing more
        simp only [answers, List.foldlM_cons, Option.bind_eq_bind, Option.bind_eq_some_iff] at ran
        obtain ⟨_, impossible, _⟩ := ran
        cases next <;> cases impossible

end Worker

end VHttp.Sendfile
