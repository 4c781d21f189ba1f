import VHttp.CrowdedTables
import VHttp.FileDescriptors
import VHttp.OpenedPaths
import VHttp.ReceiveLoop
import VHttp.WholeServer

/-!
# What is left to do in a call

Each call of the receive loop takes bytes off the socket, counts one of five tries, or comes nearer
to a call that does. Behind the loop there is a response that fits the buffer, and a file. So what
is left of a call of the worker is a number, and every step leaves less. A call that stands still
has ended, or its parser does not return, or the path it is to open is longer than an int counts.
-/

namespace VHttp.Worker

/-- What send, sendfile and the file system have to keep to: a send or a sendfile that does not
fail takes a byte, no sendfile fails, and files are no longer than a limit. -/
def Progresses (limit : Nat) : Answer → Prop
  | .serve _ _ opening _ => (vFileOpen opening).info.size ≤ limit
  | .send (.took count) => 0 < count
  | .sendfile result => ∃ count, result = some count ∧ 0 < count
  | _ => True

/-- The size of the file that is sent behind a response. -/
def fileSize : Option VFile → Nat
  | none => 0
  | some file => file.info.size

/-- What may come behind the receive loop: a response, a file, and four calls. -/
def tail (limit : Nat) : Nat := responseMaxLen + limit + 4

/-- What is left to do in a call, with so many bytes waiting on its socket. -/
def work (limit waiting : Nat) (worker : Worker) : Nat :=
  match worker.phase with
  | .peeking | .discarding _ | .parsing | .receivingBody =>
    4 * (waiting + (5 - worker.tries)) + worker.phase.rank + tail limit
  | .serving => responseMaxLen + limit + 3
  | .refusing _ => 1
  | .sending responseLen totalSent file => responseLen - totalSent + fileSize file + 2
  | .sendingFile _ file sended => file.info.size - sended + 1
  | .returned | .cleanedUp => 0

section Work

variable {worker after : Worker} {answer : Answer} {limit waiting : Nat}

theorem receiveFailed_leaves {errno : Errno} (failed : worker.receiveFailed errno = some after) :
    ¬ after.phase.InLoop := by
  cases errno with
  | again =>
    rcases leaveLoop_cases failed with ⟨_, rfl⟩ | ⟨_, _, _, rfl⟩
    · exact id
    · exact id
  | dead =>
    obtain rfl := Option.some.inj failed
    exact id
  | other =>
    obtain rfl := Option.some.inj failed
    exact id

theorem refuse_leaves (refused : worker.refuse = some after) : ¬ after.phase.InLoop := by
  rw [(refuse_cases refused).1]
  exact id

/-- A search that stays in the loop has found the end of a head, or has counted a try that was
not the fifth. -/
theorem search_stays {behind : Bytes} (searched : worker.search behind = some after)
    (still : after.phase.InLoop) :
    (∃ size, after = { worker with phase := .discarding size }) ∨
      (worker.tries + 1 ≠ 5 ∧ after = { worker with tries := worker.tries + 1 }) := by
  simp only [search, Option.bind_eq_bind, Option.bind_eq_some_iff, Option.pure_def] at searched
  obtain ⟨size, _, searched⟩ := searched
  split at searched
  · exact Or.inl ⟨size, (Option.some.inj searched).symm⟩
  · split at searched
    · exact absurd still (refuse_leaves searched)
    · rename_i more
      exact Or.inr ⟨more, (Option.some.inj searched).symm⟩

/-- The steps that stay in the receive loop. -/
inductive Remains (worker : Worker) (answer : Answer) (after : Worker) : Prop where
  | found (byte : UInt8) (bytes behind : Bytes) (size : Nat) (phase : worker.phase = .peeking)
      (peeked : answer = .peek (.data (byte :: bytes)) behind) (next : after.phase = .discarding size)
      (tries : after.tries = worker.tries)
  | tried (result : Received) (behind : Bytes) (phase : worker.phase = .peeking)
      (peeked : answer = .peek result behind) (next : after.phase = .peeking)
      (tries : after.tries = worker.tries + 1) (more : worker.tries + 1 ≠ 5)
  | takes (bytes : Bytes) (size : Nat) (phase : worker.phase = .discarding size)
      (discarded : answer = .discard (.data bytes)) (next : after.phase = .parsing)
      (tries : after.tries = worker.tries)
  | parses (result : VHttpRequest.Parsed) (phase : worker.phase = .parsing)
      (parsed : answer = .parse result)
      (next : after.phase = .receivingBody ∨ after.phase = .peeking)
      (tries : after.tries = worker.tries)
  | drains (phase : worker.phase = .receivingBody) (next : after.phase = .peeking)
      (tries : after.tries = worker.tries)

theorem step_remains (stepped : worker.step answer = some after) (still : after.phase.InLoop) :
    Remains worker answer after := by
  cases phase : worker.phase with
  | peeking =>
    obtain ⟨result, behind, rfl, peeked⟩ := step_peeking phase stepped
    cases result with
    | failed errno => exact absurd still (receiveFailed_leaves peeked)
    | data bytes =>
      cases bytes with
      | nil =>
        obtain rfl := Option.some.inj peeked
        exact absurd still id
      | cons byte bytes =>
        simp only [peek, Option.bind_eq_bind, Option.bind_eq_some_iff] at peeked
        obtain ⟨_, _, block, _, searched⟩ := peeked
        rcases search_stays searched still with ⟨size, rfl⟩ | ⟨more, rfl⟩
        · exact .found byte bytes behind size phase rfl rfl rfl
        · exact .tried _ behind phase rfl phase rfl more
  | discarding size =>
    obtain ⟨result, rfl, discarded⟩ := step_discarding phase stepped
    cases result with
    | failed errno => exact absurd still (receiveFailed_leaves discarded)
    | data bytes =>
      simp only [discard, Option.bind_eq_bind, Option.bind_eq_some_iff, Option.pure_def,
        Option.some.injEq] at discarded
      obtain ⟨_, _, rfl⟩ := discarded
      exact .takes bytes size phase rfl rfl rfl
  | parsing =>
    obtain ⟨result, rfl, parsed⟩ := step_parsing phase stepped
    simp only [parse, Option.bind_eq_bind, Option.bind_eq_some_iff, Option.pure_def] at parsed
    obtain ⟨_, _, parsed⟩ := parsed
    split at parsed
    · split at parsed
      · obtain rfl := Option.some.inj parsed
        exact .parses result phase rfl (Or.inl rfl) rfl
      · obtain rfl := Option.some.inj parsed
        exact .parses result phase rfl (Or.inr rfl) rfl
    · exact absurd still (refuse_leaves parsed)
  | receivingBody =>
    unfold Worker.step at stepped
    rw [phase] at stepped
    cases answer with
    | body fresh result =>
      obtain rfl := Option.some.inj stepped
      exact .drains phase rfl rfl
    | _ => cases stepped
  | _ =>
    have outside : ¬ worker.phase.InLoop := by
      rw [phase]
      exact id
    exact absurd still (answer_quiet outside stepped).beyond.1

/-- Such a step is taken in the loop. -/
theorem Remains.inside (remains : Remains worker answer after) : worker.phase.InLoop := by
  cases remains with
  | found _ _ _ _ phase | tried _ _ phase | takes _ _ phase | parses _ phase | drains phase =>
    rw [phase]
    trivial

/-- The tries stay below five. -/
theorem Remains.few (remains : Remains worker answer after) (few : worker.tries < 5) :
    after.tries < 5 := by
  cases remains with
  | tried _ _ _ _ _ tries more => omega
  | found _ _ _ _ _ _ _ tries | takes _ _ _ _ _ tries | parses _ _ _ _ tries | drains _ _ tries =>
    omega

/-- A step that stays in the loop takes a byte off the socket, counts a try, or brings the call
nearer to one of these. -/
theorem Remains.lower (remains : Remains worker answer after) (few : worker.tries < 5)
    (takes : ∀ bytes, answer = .discard (.data bytes) → 0 < bytes.length)
    (waits : answer.taken.length ≤ waiting) :
    4 * (waiting - answer.taken.length + (5 - after.tries)) + after.phase.rank <
      4 * (waiting + (5 - worker.tries)) + worker.phase.rank := by
  cases remains with
  | found _ _ _ size phase _ next tries =>
    rw [phase, next, tries]
    simp only [Phase.rank]
    omega
  | tried _ _ phase _ next tries more =>
    rw [phase, next, tries]
    simp only [Phase.rank]
    omega
  | takes bytes size phase discarded next tries =>
    have some := takes bytes discarded
    rw [phase, next, tries]
    subst discarded
    have inside : bytes.length ≤ waiting := waits
    simp only [Answer.taken, Phase.rank]
    omega
  | parses result phase parsed next tries =>
    rw [phase, tries]
    subst parsed
    rcases next with next | next
    all_goals
      rw [next]
      simp only [Answer.taken, List.length_nil, Phase.rank]
      omega
  | drains phase next tries =>
    rw [phase, next, tries]
    simp only [Phase.rank]
    omega

/-- The descriptor that the file system opens for an answer. -/
def Answer.opened : Answer → Option Nat
  | .serve _ _ (.opened descriptor _ _) _ => some descriptor
  | _ => none

/-- What is left open of a file was opened for it. -/
theorem Served.leftOpen_opened {served : Served} {descriptor : Nat}
    (left : leftOpen served.calls = some descriptor) :
    (vFileOpen served.opening).fileDescriptor = some descriptor := by
  cases opened : (vFileOpen served.opening).fileDescriptor with
  | none =>
    rw [Served.calls_unopened opened] at left
    cases left
  | some other =>
    by_cases closed : served.Closes
    · rw [Served.calls_closed opened closed] at left
      cases left
    · rw [Served.calls_left opened closed] at left
      exact left

/-- A step leaves no other file open than the one it has opened. -/
theorem step_openFile (stepped : worker.step answer = some after) :
    ∀ descriptor ∈ after.openFile, descriptor ∈ worker.openFile ∨ descriptor ∈ answer.opened := by
  intro descriptor left
  cases step_descriptors stepped with
  | serves served isServed openFile _ _ =>
    cases answer with
    | serve fresh beyond opening reading =>
      simp only [servedBy, Option.map_eq_some_iff] at isServed
      obtain ⟨path, _, rfl⟩ := isServed
      rw [openFile] at left
      have opened := Served.leftOpen_opened left
      cases opening with
      | failed => cases opened
      | opened number info content => exact Or.inr opened
    | _ => cases isServed
  | keeps _ untouched => exact Or.inl (untouched.openFile ▸ left)
  | cleans _ cleansUp => exact Or.inl (cleansUp.openFile ▸ left)

/-- A worker that stands at sendfile has something to send. -/
theorem step_unfinished (stepped : worker.step answer = some after) {responseLen sended : Nat}
    {file : VFile} (phase : after.phase = .sendingFile responseLen file sended) :
    sended < file.info.size := by
  have sendsFile : ∀ (other : Worker) (length offset : Nat) (sent : Option VFile),
      other.sendFileOn length sent offset = some after → sended < file.info.size := by
    intro other length offset sent step
    rcases sendFileOn_cases step with ⟨more, rfl, short, rfl⟩ | ⟨_, finished⟩
    · obtain ⟨rfl, rfl, rfl⟩ := Phase.sendingFile.inj phase
      exact short
    · obtain ⟨_, _, rfl⟩ := finish_cases finished
      cases phase
  have sends : ∀ (other : Worker) (length total : Nat) (sent : Option VFile),
      other.sendOn length total sent = some after → sended < file.info.size := by
    intro other length total sent step
    rcases sendOn_cases step with ⟨_, rfl⟩ | ⟨_, further⟩
    · cases phase
    · exact sendsFile other length 0 sent further
  cases step_taken stepped with
  | looping _ _ step =>
    obtain ⟨heard, _, looped⟩ := step.looped
    cases looped with
    | stays inLoop _ _ => simp [phase, Phase.InLoop] at inLoop
    | leaves other _ _ _ _ => simp [phase] at other
    | refuses other _ _ _ => simp [phase] at other
    | cleans other _ _ => simp [phase] at other
  | refusing _ step =>
    obtain ⟨_, _, _, _, _, cleanedUp, _⟩ := sendRefusal_cases step
    simp [phase] at cleanedUp
  | serving _ step =>
    obtain ⟨_, _, _, _, _, _, sent⟩ := serve_cases step
    exact sends _ _ _ _ sent
  | sending _ step =>
    rcases send_cases step with ⟨_, sent⟩ | ⟨_, rfl⟩ | ⟨_, _, _, _, _, sent⟩
    · exact sendsFile _ _ _ _ sent
    · cases phase
    · exact sends _ _ _ _ sent
  | sendingFile _ step =>
    rcases sendfile_cases step with ⟨_, sent⟩ | ⟨_, _, _, sent⟩
    · exact sendsFile _ _ _ _ sent
    · exact sendsFile _ _ _ _ sent

/-- The parser answers where it was called. -/
theorem parse_phase {result : VHttpRequest.Parsed}
    (stepped : worker.step (.parse result) = some after) : worker.phase = .parsing := by
  unfold Worker.step at stepped
  cases phase : worker.phase with
  | parsing => rfl
  | _ =>
    rw [phase] at stepped
    cases stepped

/-- What an answer takes off the socket was waiting there. -/
theorem taken_waits {socket : Socket} (answered : socket.Answers worker answer)
    (stepped : worker.step answer = some after) : answer.taken <+: socket.waiting := by
  unfold Worker.step at stepped
  cases answer with
  | discard result =>
    cases result with
    | data bytes =>
      cases phase : worker.phase with
      | discarding size =>
        simp only [Socket.Answers, phase] at answered
        exact answered.1
      | _ =>
        rw [phase] at stepped
        cases stepped
    | failed errno => exact List.nil_prefix
  | body fresh result =>
    cases result with
    | data bytes =>
      cases phase : worker.phase with
      | receivingBody =>
        simp only [Socket.Answers, phase] at answered
        exact answered.1
      | _ =>
        rw [phase] at stepped
        cases stepped
    | failed errno => exact List.nil_prefix
  | _ => exact List.nil_prefix

/-- A refusal goes out, or fails to. -/
theorem sendRefusal_ends (sound : worker.shared.Sound) {size : Nat} (fits : size ≤ responseMaxLen) :
    ∃ after, worker.sendRefusal size (.failed .other) = some after := by
  obtain ⟨malloced, cleared, _⟩ := clearFront_some worker.shared.responseMalloced size
    (sound.size.symm ▸ fits)
  have read : Memory.readRange worker.shared.responseMalloced 0 0 = some [] := by
    simp [Memory.readRange]
  simp only [sendRefusal, guard, Nat.zero_le, ↓reduceIte, Option.pure_def, Option.bind_eq_bind,
    Option.bind_some, read, cleared]
  exact ⟨_, rfl⟩

/-- Bytes that come in behind the others add four calls each, to a call that is still receiving. -/
theorem work_arrives {before now more : Nat} (limit : Nat) (worker : Worker)
    (arrive : now ≤ before + more) :
    work limit now worker ≤ work limit before worker + 4 * more := by
  unfold work
  cases worker.phase with
  | peeking | discarding _ | parsing | receivingBody =>
    simp only
    omega
  | _ => exact Nat.le_add_right _ _

end Work

end VHttp.Worker
