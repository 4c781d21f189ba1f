import Mathlib.Data.Finset.Insert
import VHttp.ReplyFraming

/-!
# What a request does to the open descriptors

The file of a request is opened in one of two functions. `VString_ReadEntireFile` closes it when it
is not regular, or was read as a whole; behind the `VFile_Open` of `EpollHttpWorker` no close
stands on any way. And the cleanup label closes descriptor 1.

The worker's model notes the file it has left open. Here the calls that open and close descriptors
are followed one by one, for a whole request and for one request after another, with the set of
the descriptors that are open and no client's.
-/

namespace VHttp.Worker

/-- A call that opens a descriptor or closes one. -/
inductive DescriptorCall where
  | opened (descriptor : Nat)
  | closed (descriptor : Nat)
  deriving DecidableEq

/-- What answers a request: the mime type of its path, the file, and how far a read of it gets. -/
structure Served where
  mime : MimeMapping
  opening : Opening
  reading : Option Nat

/-- The calls of `VString_ReadEntireFile`. -/
def readEntireFileCalls (opening : Opening) (reading : Option Nat) : List DescriptorCall :=
  let file := vFileOpen opening
  match file.fileDescriptor with
  | none => []
  | some descriptor =>
    if file.getType ≠ some .regular then [.opened descriptor, .closed descriptor]
    else if reading ≠ some file.info.size then [.opened descriptor]
    else [.opened descriptor, .closed descriptor]

/-- The calls for the file of a request. -/
def Served.calls (served : Served) : List DescriptorCall :=
  if served.mime.useSendfile then
    (vFileOpen served.opening).fileDescriptor.toList.map .opened
  else readEntireFileCalls served.opening served.reading

/-- The closes among the calls of a worker. -/
def closes (calls : List Call) : List DescriptorCall :=
  calls.filterMap fun
    | .closed descriptor => some (.closed descriptor)
    | _ => none

/-- The descriptor that some calls have opened and left open. -/
def leftOpen : List DescriptorCall → Option Nat
  | [.opened descriptor] => some descriptor
  | _ => none

/-- A worker, and what it has answered its request with. -/
structure Tracked where
  worker : Worker
  served : Option Served

/-- What a worker answers its request with when it is served. -/
def servedBy (worker : Worker) : Answer → Option Served
  | .serve fresh beyond opening reading =>
    (filePath fresh worker.request.url).map fun path =>
      ⟨getMimeType (strrchr (readPath path beyond) 46), opening, reading⟩
  | _ => none

namespace Tracked

/-- A step of the worker. -/
def step (tracked : Tracked) (answer : Answer) : Option Tracked := do
  let worker ← tracked.worker.step answer
  pure ⟨worker, (servedBy tracked.worker answer).or tracked.served⟩

/-- The calls for the file, if one was tried. -/
def fileCalls (tracked : Tracked) : List DescriptorCall :=
  (tracked.served.map Served.calls).getD []

/-- All calls of a request: the cleanup label comes behind the file. -/
def descriptorCalls (tracked : Tracked) : List DescriptorCall :=
  tracked.fileCalls ++ closes tracked.worker.calls

end Tracked

/-- `EpollHttpWorker` has returned, behind a response or behind its cleanup label. -/
def Phase.ended : Phase → Bool
  | .returned | .cleanedUp => true
  | _ => false

/-- What is shared by the requests, the open descriptors that are no client's, and the calls of
each request so far. -/
structure Process where
  shared : Shared
  opened : Finset Nat
  requests : List (List DescriptorCall)

/-- A request: the client it comes from, and the results of the worker's calls. -/
structure Request where
  client : Nat
  answers : List Answer

namespace Process

/-- The kernel opens a descriptor that is not open; a close of one that is not does nothing. -/
def track (opened : Finset Nat) : DescriptorCall → Option (Finset Nat)
  | .opened descriptor => if descriptor ∉ opened then some (insert descriptor opened) else none
  | .closed descriptor => some (opened.erase descriptor)

/-- The worker with the results of its calls. -/
def work (process : Process) (request : Request) : Option Tracked :=
  request.answers.foldlM Tracked.step ⟨start request.client process.shared, none⟩

/-- A request, after which the worker returns. -/
def step (process : Process) (request : Request) : Option Process := do
  let tracked ← process.work request
  guard tracked.worker.phase.ended
  let opened ← tracked.descriptorCalls.foldlM track process.opened
  pure ⟨tracked.worker.shared, opened, process.requests ++ [tracked.descriptorCalls]⟩

/-- The same descriptors are open, and each request has closed once what it opened. -/
structure Balanced (opened : Finset Nat) (process : Process) : Prop where
  same : process.opened = opened
  once : ∀ calls ∈ process.requests, ∀ descriptor, .opened descriptor ∈ calls →
    calls.count (.closed descriptor) = 1

end Process

/-- A file that `VString_ReadEntireFile` opens and closes again: fstat does not tell that it is
regular, or it is read as a whole. -/
def Served.Closes (served : Served) : Prop :=
  served.mime.useSendfile = false ∧ ((vFileOpen served.opening).getType ≠ some .regular ∨
    served.reading = some (vFileOpen served.opening).info.size)

/-- When a request leaves the descriptors as they were. The file, if one is opened, is closed by
its reader; and a worker that cleans up does so where descriptor 1 is not open and was not the
file's. Or the file is left open under descriptor 1, and the worker cleans up. -/
def Keeps (opened : Finset Nat) (served : Option Served) (cleaned : Prop) : Prop :=
  match served.bind fun served => (vFileOpen served.opening).fileDescriptor.map (served, ·) with
  | none => cleaned → 1 ∉ opened
  | some (served, descriptor) =>
    (served.Closes ∧ (cleaned → 1 ∉ opened ∧ descriptor ≠ 1)) ∨
      (¬ served.Closes ∧ cleaned ∧ descriptor = 1)

/-- A request that leaves the descriptors as they were. -/
def KeepsDescriptors (process : Process) (request : Request) : Prop :=
  ∀ tracked, process.work request = some tracked →
    Keeps process.opened tracked.served (tracked.worker.phase = .cleanedUp)

section Files

variable {served : Served} {descriptor : Nat}

theorem Served.calls_unopened (failed : (vFileOpen served.opening).fileDescriptor = none) :
    served.calls = [] := by
  rw [Served.calls, readEntireFileCalls]
  simp only [failed]
  split
  · rfl
  · rfl

theorem Served.calls_closed (opened : (vFileOpen served.opening).fileDescriptor = some descriptor)
    (closed : served.Closes) : served.calls = [.opened descriptor, .closed descriptor] := by
  obtain ⟨direct, special | whole⟩ := closed
  · simp only [Served.calls, direct, readEntireFileCalls, opened, special, Bool.false_eq_true,
      ↓reduceIte, ne_eq, not_false_eq_true]
  · simp only [Served.calls, direct, readEntireFileCalls, opened, whole, Bool.false_eq_true,
      ↓reduceIte, ne_eq, not_true_eq_false, ite_self]

theorem Served.calls_left (opened : (vFileOpen served.opening).fileDescriptor = some descriptor)
    (left : ¬ served.Closes) : served.calls = [.opened descriptor] := by
  rw [Served.Closes, not_and, not_or, not_not] at left
  cases direct : served.mime.useSendfile with
  | true =>
    simp only [Served.calls, direct, opened, ↓reduceIte, Option.toList_some, List.map_cons,
      List.map_nil]
  | false =>
    obtain ⟨regular, short⟩ := left direct
    simp only [Served.calls, direct, readEntireFileCalls, opened, regular, short,
      Bool.false_eq_true, ↓reduceIte, ne_eq, not_true_eq_false, not_false_eq_true]

/-- The reader leaves open what its calls leave open. -/
theorem readEntireFile_leftOpen {fresh : Nat → UInt8} {string : VString} {opening : Opening}
    {reading : Option Nat} {file : EntireFile}
    (done : readEntireFile fresh string opening reading = some file) :
    file.leftOpen = leftOpen (readEntireFileCalls opening reading) := by
  rw [readEntireFile] at done
  rw [readEntireFileCalls]
  cases opened : (vFileOpen opening).fileDescriptor with
  | none =>
    simp only [opened, ↓reduceIte, Option.some.injEq] at done
    exact done ▸ rfl
  | some descriptor =>
    simp only [opened, reduceCtorEq, ↓reduceIte] at done ⊢
    by_cases regular : (vFileOpen opening).getType = some .regular
    · simp only [regular, ne_eq, not_true_eq_false, ↓reduceIte] at done ⊢
      cases reading with
      | none =>
        obtain rfl := Option.some.inj done
        simp [leftOpen]
      | some read =>
        simp only [guard, Option.bind_eq_bind, Option.bind_eq_some_iff] at done
        obtain ⟨_, _, block, _, done⟩ := done
        by_cases whole : read = (vFileOpen opening).info.size
        · simp only [whole, not_true_eq_false, ↓reduceIte, Option.pure_def,
            Option.some.injEq] at done ⊢
          exact done ▸ rfl
        · simp only [whole, not_false_eq_true, ↓reduceIte, Option.pure_def,
            Option.some.injEq] at done ⊢
          exact done ▸ rfl
    · simp only [regular, ne_eq, not_false_eq_true, ↓reduceIte, Option.some.injEq] at done ⊢
      exact done ▸ rfl

/-- So does the worker that builds a reply. -/
theorem reply_leftOpen {malloced : Memory} {pool : VString} {mime : MimeMapping}
    {fresh : Nat → UInt8} {opening : Opening} {reading : Option Nat} {built : Reply}
    (replied : reply malloced pool mime fresh opening reading = some built) :
    built.leftOpen = leftOpen (Served.calls ⟨mime, opening, reading⟩) := by
  rw [reply] at replied
  rw [Served.calls]
  split at replied
  · rename_i direct
    rw [if_pos direct]
    rw [serveSendfile] at replied
    cases opened : (vFileOpen opening).fileDescriptor with
    | none =>
      simp only [opened, ↓reduceIte, Option.bind_eq_bind, Option.bind_eq_some_iff, Option.pure_def,
        Option.some.injEq] at replied
      obtain ⟨_, _, rfl⟩ := replied
      rfl
    | some descriptor =>
      simp only [opened, reduceCtorEq, ↓reduceIte, Option.bind_eq_bind] at replied
      split at replied
      · simp only [Option.bind_eq_some_iff, Option.pure_def, Option.some.injEq] at replied
        obtain ⟨_, _, rfl⟩ := replied
        rfl
      · simp only [Option.bind_eq_some_iff, Option.pure_def, Option.some.injEq] at replied
        obtain ⟨_, _, rfl⟩ := replied
        rfl
  · rename_i indirect
    rw [if_neg indirect]
    simp only [serveRead, Option.bind_eq_bind, Option.bind_eq_some_iff, Option.pure_def] at replied
    obtain ⟨file, done, replied⟩ := replied
    have same := readEntireFile_leftOpen done
    split at replied
    · simp only [Option.bind_eq_some_iff, Option.some.injEq] at replied
      obtain ⟨_, _, rfl⟩ := replied
      exact same
    · simp only [Option.bind_eq_some_iff, Option.some.injEq] at replied
      obtain ⟨_, _, _, _, rfl⟩ := replied
      exact same

end Files

section Steps

variable {worker after : Worker} {answer : Answer}

theorem closes_append (first second : List Call) :
    closes (first ++ second) = closes first ++ closes second := List.filterMap_append

/-- Something that a worker does without opening or closing a descriptor. -/
structure Untouched (before after : Worker) : Prop where
  openFile : after.openFile = before.openFile
  closes : closes after.calls = closes before.calls
  onward : after.phase ≠ .cleanedUp

theorem sendFileOn_untouched {responseLen sended : Nat} {file : Option VFile}
    (sent : worker.sendFileOn responseLen file sended = some after) : Untouched worker after := by
  rcases sendFileOn_cases sent with ⟨_, _, _, rfl⟩ | ⟨_, finished⟩
  · exact ⟨rfl, rfl, nofun⟩
  · obtain ⟨_, _, rfl⟩ := finish_cases finished
    exact ⟨rfl, rfl, nofun⟩

theorem sendOn_untouched {responseLen totalSent : Nat} {file : Option VFile}
    (sent : worker.sendOn responseLen totalSent file = some after) : Untouched worker after := by
  rcases sendOn_cases sent with ⟨_, rfl⟩ | ⟨_, sent⟩
  · exact ⟨rfl, rfl, nofun⟩
  · exact sendFileOn_untouched sent

/-- A send in front of it closes nothing. -/
theorem Untouched.behind {calls : List Call} (untouched : Untouched (worker.log calls) after)
    (silent : Worker.closes calls = []) : Untouched worker after := by
  refine ⟨untouched.openFile, ?_, untouched.onward⟩
  rw [untouched.closes, log, closes_append, silent, List.append_nil]

/-- A step to the cleanup label closes descriptor 1. -/
structure CleansUp (before after : Worker) : Prop where
  openFile : after.openFile = before.openFile
  closes : closes after.calls = closes before.calls ++ [.closed 1]
  cleanedUp : after.phase = .cleanedUp

/-- The calls of the receive loop close nothing. -/
theorem closes_inLoop {descriptor : Nat} {heard : List Call}
    (all : ∀ call ∈ heard, InLoopCall descriptor call) : closes heard = [] := by
  rw [closes, List.filterMap_eq_nil_iff]
  intro call member
  have inLoop := all call member
  cases call with
  | closed descriptor => exact absurd inLoop id
  | _ => rfl

theorem LoopStep.descriptors (step : LoopStep worker after) :
    Untouched worker after ∨ CleansUp worker after := by
  obtain ⟨⟨heard, all, looped⟩, _, file⟩ := step
  have silent := closes_inLoop all
  have onward : ∀ {phase : Phase}, after.phase = phase → phase ≠ .cleanedUp →
      after.phase ≠ .cleanedUp := fun same other => same ▸ other
  cases looped with
  | stays inLoop calls _ =>
    refine Or.inl ⟨file, ?_, fun cleanedUp => ?_⟩
    · rw [calls, closes_append, silent, List.append_nil]
    · rw [cleanedUp] at inLoop
      exact inLoop
  | leaves serving calls _ _ _ =>
    refine Or.inl ⟨file, ?_, onward serving nofun⟩
    rw [calls, closes_append, silent, List.append_nil]
  | refuses refusing calls _ _ =>
    refine Or.inl ⟨file, ?_, onward refusing nofun⟩
    rw [calls, closes_append, closes_append, silent, List.append_nil]
    exact List.append_nil _
  | cleans cleanedUp calls _ =>
    refine Or.inr ⟨file, ?_, cleanedUp⟩
    rw [calls, closes_append, closes_append, silent, List.append_nil]
    rfl

/-- What answers a request opens the file and leaves it open or not, and no other step has to do
with it. -/
inductive Descriptors (before after : Worker) (answer : Answer) : Prop where
  | serves (served : Served) (isServed : servedBy before answer = some served)
      (openFile : after.openFile = leftOpen served.calls)
      (closes : closes after.calls = closes before.calls) (onward : after.phase ≠ .cleanedUp)
  | keeps (unserved : servedBy before answer = none) (untouched : Untouched before after)
  | cleans (unserved : servedBy before answer = none) (cleansUp : CleansUp before after)

theorem step_descriptors (stepped : worker.step answer = some after) :
    Descriptors worker after answer := by
  have taken := step_taken stepped
  cases taken with
  | looping phase noSend step =>
    have unserved : servedBy worker answer = none := by
      cases answer with
      | serve fresh beyond opening reading =>
        cases atPhase : worker.phase with
        | peeking | discarding _ | parsing | receivingBody =>
          unfold Worker.step at stepped
          rw [atPhase] at stepped
          cases stepped
        | _ =>
          rw [atPhase] at phase
          exact absurd phase id
      | _ => rfl
    rcases step.descriptors with untouched | cleansUp
    · exact .keeps unserved untouched
    · exact .cleans unserved cleansUp
  | refusing phase step =>
    obtain ⟨_, _, _, _, _, cleanedUp, calls, _, _, _, file⟩ := sendRefusal_cases step
    refine .cleans rfl ⟨file, ?_, cleanedUp⟩
    rw [calls, closes_append]
    rfl
  | serving phase step =>
    obtain ⟨path, built, responseLen, made, replied, _, sent⟩ := serve_cases step
    have untouched := sendOn_untouched sent
    refine .serves _ (by rw [servedBy, made]; rfl) ?_ ?_ untouched.onward
    · exact untouched.openFile.trans (reply_leftOpen replied)
    · rw [untouched.closes, closes_append]
      exact List.append_nil _
  | sending phase step =>
    rcases send_cases step with ⟨_, sent⟩ | ⟨_, rfl⟩ | ⟨_, _, _, _, _, sent⟩
    · exact .keeps rfl (sendFileOn_untouched sent)
    · exact .cleans rfl ⟨rfl, closes_append _ _, rfl⟩
    · exact .keeps rfl ((sendOn_untouched sent).behind rfl)
  | sendingFile phase step =>
    rcases sendfile_cases step with ⟨_, sent⟩ | ⟨_, _, _, sent⟩
    · exact .keeps rfl (sendFileOn_untouched sent)
    · exact .keeps rfl ((sendFileOn_untouched sent).behind rfl)

/-- What is followed of a worker agrees with the file that it notes to have left open, and its
cleanup label is all it has closed besides. -/
structure Tracked.Sound (tracked : Tracked) : Prop where
  openFile : tracked.worker.openFile = leftOpen tracked.fileCalls
  closes : (tracked.worker.phase = .cleanedUp ∧ closes tracked.worker.calls = [.closed 1]) ∨
    (tracked.worker.phase ≠ .cleanedUp ∧ closes tracked.worker.calls = [])

theorem Tracked.Sound.step {before after : Tracked} (sound : before.Sound)
    (stepped : before.step answer = some after) : after.Sound := by
  simp only [Tracked.step, Option.bind_eq_bind, Option.bind_eq_some_iff, Option.pure_def,
    Option.some.injEq] at stepped
  obtain ⟨worker, taken, rfl⟩ := stepped
  -- a worker that has cleaned up takes no step
  have silent : Worker.closes before.worker.calls = [] := by
    rcases sound.closes with ⟨cleanedUp, _⟩ | ⟨_, silent⟩
    · unfold Worker.step at taken
      rw [cleanedUp] at taken
      cases taken
    · exact silent
  cases step_descriptors taken with
  | serves served isServed openFile closes onward =>
    refine ⟨?_, Or.inr ⟨onward, closes.trans silent⟩⟩
    simp only [Tracked.fileCalls, isServed, Option.some_or, Option.map_some, Option.getD_some]
    exact openFile
  | keeps unserved untouched =>
    refine ⟨?_, Or.inr ⟨untouched.onward, untouched.closes.trans silent⟩⟩
    simp only [Tracked.fileCalls, unserved, Option.none_or]
    exact untouched.openFile.trans sound.openFile
  | cleans unserved cleansUp =>
    refine ⟨?_, Or.inl ⟨cleansUp.cleanedUp, ?_⟩⟩
    · simp only [Tracked.fileCalls, unserved, Option.none_or]
      exact cleansUp.openFile.trans sound.openFile
    · rw [cleansUp.closes, silent]
      rfl

/-- So it is for a request as a whole. -/
theorem Process.work_sound {process : Process} {request : Request} {tracked : Tracked}
    (worked : process.work request = some tracked) : tracked.Sound := by
  have peeking : Phase.peeking ≠ .cleanedUp := nofun
  exact (Runs.Run.of_foldlM worked).invariant Tracked.Sound ⟨rfl, Or.inr ⟨peeking, rfl⟩⟩
    (fun _ _ _ sound _ stepped => sound.step stepped)

end Steps

section Requests

variable {opened after : Finset Nat} {served : Option Served}

/-- The calls for the file of a request, and what is asked of them. -/
theorem keeps_cases (opened : Finset Nat) (served : Option Served) (cleaned : Prop) :
    ((served.map Served.calls).getD [] = [] ∧
      (Keeps opened served cleaned ↔ (cleaned → 1 ∉ opened))) ∨
    (∃ descriptor, (served.map Served.calls).getD [] = [.opened descriptor, .closed descriptor] ∧
      (Keeps opened served cleaned ↔ (cleaned → 1 ∉ opened ∧ descriptor ≠ 1))) ∨
    ∃ descriptor, (served.map Served.calls).getD [] = [.opened descriptor] ∧
      (Keeps opened served cleaned ↔ cleaned ∧ descriptor = 1) := by
  cases served with
  | none => exact Or.inl ⟨rfl, Iff.rfl⟩
  | some served =>
    simp only [Option.map_some, Option.getD_some, Keeps, Option.bind_some]
    cases isOpen : (vFileOpen served.opening).fileDescriptor with
    | none => exact Or.inl ⟨Served.calls_unopened isOpen, Iff.rfl⟩
    | some descriptor =>
      by_cases closed : served.Closes
      · refine Or.inr (Or.inl ⟨descriptor, Served.calls_closed isOpen closed, ?_⟩)
        simp only [Option.map_some, closed, true_and, not_true_eq_false, false_and, or_false]
      · refine Or.inr (Or.inr ⟨descriptor, Served.calls_left isOpen closed, ?_⟩)
        simp only [Option.map_some, closed, false_and, not_false_eq_true, true_and, false_or]

/-- The kernel does not open a descriptor that is open. -/
theorem track_opened {descriptor : Nat} {rest : List DescriptorCall}
    (tracked : (.opened descriptor :: rest).foldlM Process.track opened = some after) :
    descriptor ∉ opened ∧ rest.foldlM Process.track (insert descriptor opened) = some after := by
  rw [List.foldlM_cons, Process.track] at tracked
  split at tracked
  · exact ⟨‹_›, tracked⟩
  · cases tracked

/-- Whether the calls of one request leave the descriptors as they were, by what was served and
whether the worker cleaned up. -/
theorem keeps_iff {closings : List DescriptorCall} {cleaned : Prop}
    (isClosings : (cleaned ∧ closings = [.closed 1]) ∨ (¬ cleaned ∧ closings = []))
    (tracked : ((served.map Served.calls).getD [] ++ closings).foldlM Process.track opened =
      some after) :
    (after = opened ∧ ∀ descriptor,
      .opened descriptor ∈ (served.map Served.calls).getD [] ++ closings →
        ((served.map Served.calls).getD [] ++ closings).count (.closed descriptor) = 1) ↔
      Keeps opened served cleaned := by
  rcases keeps_cases opened served cleaned with ⟨files, keeps⟩ | ⟨descriptor, files, keeps⟩ |
    ⟨descriptor, files, keeps⟩
  · rw [files] at tracked ⊢
    rw [keeps]
    rcases isClosings with ⟨cleaned, rfl⟩ | ⟨kept, rfl⟩
    · obtain rfl := Option.some.inj tracked
      simp [cleaned]
    · obtain rfl := Option.some.inj tracked
      simp [kept]
  · rw [files] at tracked ⊢
    rw [keeps]
    obtain ⟨fresh, closing⟩ := track_opened tracked
    rcases isClosings with ⟨cleaned, rfl⟩ | ⟨kept, rfl⟩
    · obtain rfl := Option.some.inj closing
      rw [Finset.erase_insert fresh, Finset.erase_eq_self]
      simp only [cleaned, true_implies]
      refine and_congr_right fun _ => ?_
      by_cases one : descriptor = 1
      · simp [one]
      · simp [one]
    · obtain rfl := Option.some.inj closing
      rw [Finset.erase_insert fresh]
      simp [kept]
  · rw [files] at tracked ⊢
    rw [keeps]
    obtain ⟨fresh, closing⟩ := track_opened tracked
    rcases isClosings with ⟨cleaned, rfl⟩ | ⟨kept, rfl⟩
    · obtain rfl := Option.some.inj closing
      by_cases one : descriptor = 1
      · subst one
        rw [Finset.erase_insert fresh]
        simp [cleaned]
      · refine iff_of_false ?_ (fun both => one both.2)
        rintro ⟨same, _⟩
        have member : descriptor ∈ (insert descriptor opened).erase 1 := by simp [one]
        exact fresh (same ▸ member)
    · obtain rfl := Option.some.inj closing
      refine iff_of_false ?_ (fun both => kept both.1)
      rintro ⟨same, _⟩
      exact fresh (same ▸ Finset.mem_insert_self descriptor opened)

/-- A request leaves the descriptors as they were, exactly if it keeps them. -/
theorem step_balanced_iff {before next : Process} {request : Request}
    (balanced : before.Balanced opened) (stepped : before.step request = some next) :
    next.Balanced opened ↔ KeepsDescriptors before request := by
  simp only [Process.step, Option.bind_eq_bind, Option.bind_eq_some_iff, Option.guard_eq_some',
    Option.pure_def, Option.some.injEq] at stepped
  obtain ⟨tracked, worked, _, _, reached, calls, rfl⟩ := stepped
  have sound := Process.work_sound worked
  have keeps := keeps_iff sound.closes calls
  have only : KeepsDescriptors before request ↔
      Keeps before.opened tracked.served (tracked.worker.phase = .cleanedUp) := by
    refine ⟨fun all => all tracked worked, fun here other also => ?_⟩
    obtain rfl := Option.some.inj (worked.symm.trans also)
    exact here
  rw [only, ← keeps, balanced.same]
  constructor
  · rintro ⟨same, once⟩
    exact ⟨same, once _ (List.mem_append_right _ List.mem_cons_self)⟩
  · rintro ⟨same, once⟩
    refine ⟨same, fun earlier member => ?_⟩
    rcases List.mem_append.mp member with known | new
    · exact balanced.once earlier known
    · rw [List.mem_singleton.mp new]
      exact once

end Requests

/-- For every server and all requests after which the worker returns, with all results of its
calls: the open descriptors that are no client's stay the same, and each request closes once what
it has opened, all along a run, exactly if every request of the run keeps its descriptors. -/
theorem descriptors_balanced_iff {shared : Shared} {opened : Finset Nat} {trace : List Request}
    {process : Process}
    (run : Runs.Run Process.step Runs.anywhere ⟨shared, opened, []⟩ trace process) :
    (∀ earlier reached, earlier <+: trace →
      Runs.Run Process.step Runs.anywhere ⟨shared, opened, []⟩ earlier reached →
      reached.Balanced opened) ↔
    Runs.Run Process.step KeepsDescriptors ⟨shared, opened, []⟩ trace process :=
  run.always_iff (Process.Balanced opened) (Process.Balanced opened) ⟨rfl, by simp⟩
    (fun _ balanced => balanced)
    (fun _ _ _ balanced keeps stepped => (step_balanced_iff balanced stepped).mpr keeps)
    (fun _ _ _ balanced stepped after => (step_balanced_iff balanced stepped).mp after)

/-- What a worker does is followed to its end; sends leave what was served. -/
theorem tracked_reaches {worker final : Worker} {answers : List Answer}
    (executed : answers.foldlM Worker.step worker = some final) (served : Option Served) :
    ∃ last, answers.foldlM Tracked.step ⟨worker, served⟩ = some ⟨final, last⟩ ∧
      ((∀ answer ∈ answers, Taking answer) → last = served) := by
  induction answers generalizing worker served with
  | nil =>
    obtain rfl := Option.some.inj executed
    exact ⟨served, rfl, fun _ => rfl⟩
  | cons answer rest inductionHypothesis =>
    simp only [List.foldlM_cons, Option.bind_eq_bind, Option.bind_eq_some_iff] at executed
    obtain ⟨middle, taken, remaining⟩ := executed
    obtain ⟨last, reached, same⟩ :=
      inductionHypothesis remaining ((servedBy worker answer).or served)
    refine ⟨last, ?_, fun taking => ?_⟩
    · rw [List.foldlM_cons, Tracked.step, taken]
      exact reached
    · obtain ⟨first, others⟩ := List.forall_mem_cons.mp taking
      rw [same others]
      cases answer with
      | serve fresh beyond opening reading => exact absurd first id
      | _ => rfl

/-- A request that is served under a path of this mime type is answered to the end. -/
theorem served_answered {request : VHttpRequest.CompleteRequest} {mime : MimeMapping} {opening : Opening}
    {reading : Option Nat}
    (reaches : ∃ trace before,
      Runs.Run Worker.step (Delivers (requestStream [request])) (start 5 Shared.start) trace before ∧
        before.phase = .serving ∧ ∃ path, filePath (fun _ => 0) before.request.url = some path ∧
          getMimeType (strrchr (readPath path []) 46) = mime)
    (possible : Possible mime opening reading)
    (fits : ∀ printable, (responseTo mime printable opening reading).text.length < responseMaxLen)
    (opened : Finset Nat) :
    ∃ answers tracked, Process.work ⟨Shared.start, opened, []⟩ ⟨5, answers⟩ = some tracked ∧
      tracked.worker.phase = .returned ∧ tracked.served = some ⟨mime, opening, reading⟩ ∧
      closes tracked.worker.calls = [] := by
  obtain ⟨trace, before, run, serving, path, made, rfl⟩ := reaches
  have ready := run_ready Shared.start_sound run
  obtain ⟨middle, served⟩ := ready.serves serving made possible (fits _)
  have sends := served
  unfold Worker.step at sends
  rw [serving] at sends
  obtain ⟨_, _, _, _, _, isMiddle⟩ := serve_exact ready.sound (ready.cleared serving) sends
  obtain ⟨more, final, finishes, returned, taking⟩ :=
    (ready.step served).returns (by rw [isMiddle]) (Nat.zero_le _)
  -- the receive loop, the answer, and the sends
  obtain ⟨early, reached, _⟩ := tracked_reaches run.executed none
  obtain ⟨last, ended, same⟩ := tracked_reaches finishes (some
    ⟨getMimeType (strrchr (readPath path []) 46), opening, reading⟩)
  have worked : Process.work ⟨Shared.start, opened, []⟩
      ⟨5, trace ++ .serve (fun _ => 0) [] opening reading :: more⟩ = some ⟨final, last⟩ := by
    rw [Process.work, List.foldlM_append, reached, Option.bind_eq_bind, Option.bind_some,
      List.foldlM_cons, Tracked.step, served]
    simp only [servedBy, made, Option.map_some, Option.some_or, Option.bind_eq_bind,
      Option.bind_some, Option.pure_def]
    exact ended
  refine ⟨_, _, worked, returned, same taking, ?_⟩
  rcases (Process.work_sound worked).closes with ⟨cleanedUp, _⟩ | ⟨_, silent⟩
  · rw [returned] at cleanedUp
    cases cleanedUp
  · exact silent

/-- A text is opened on descriptor 7, read as a whole and closed. -/
theorem descriptors_balanced_iff_text : ∃ answers process,
    Runs.Run Process.step Runs.anywhere ⟨Shared.start, {2}, []⟩ [⟨5, answers⟩] process ∧
      process.requests = [[.opened 7, .closed 7]] ∧ process.Balanced {2} := by
  have isText : (vFileOpen (.opened 7 true (.regular [1, 2, 3]))).getType = some .regular := rfl
  obtain ⟨answers, tracked, worked, returned, served, silent⟩ := served_answered
    (text_served 5 Shared.start)
    (show Possible _ (.opened 7 true (.regular [1, 2, 3])) (some 3) by
      rintro _ _ _ ⟨⟩
      exact le_rfl)
    (fun printable => by
      rw [responseTo_readFile rfl isText (by decide)]
      exact Response.text_short _ (show ([1, 2, 3] : Bytes).length ≤ 44 by decide)) {2}
  have calls : tracked.descriptorCalls = [.opened 7, .closed 7] := by
    rw [Tracked.descriptorCalls, Tracked.fileCalls, silent, served]
    rfl
  have stepped : Process.step ⟨Shared.start, {2}, []⟩ ⟨5, answers⟩ =
      some ⟨tracked.worker.shared, {2}, [[.opened 7, .closed 7]]⟩ := by
    simp only [Process.step, worked, returned, Phase.ended, guard, ↓reduceIte, calls,
      Option.bind_eq_bind, Option.bind_some, Option.pure_def]
    rfl
  have keeps : KeepsDescriptors ⟨Shared.start, {2}, []⟩ ⟨5, answers⟩ := by
    intro other again
    obtain rfl := Option.some.inj (worked.symm.trans again)
    rw [served]
    exact Or.inl ⟨⟨rfl, Or.inr rfl⟩, fun _ => by decide⟩
  have run : Runs.Run Process.step Runs.anywhere ⟨Shared.start, {2}, []⟩ ([] ++ [⟨5, answers⟩]) _ :=
    Runs.Run.next Runs.Run.start trivial stepped
  have kept : Runs.Run Process.step KeepsDescriptors ⟨Shared.start, {2}, []⟩
      ([] ++ [⟨5, answers⟩]) _ := Runs.Run.next Runs.Run.start keeps stepped
  exact ⟨answers, _, run, rfl, (descriptors_balanced_iff run).mpr kept _ _ List.prefix_rfl run⟩

/-- An image is opened for sendfile and never closed: with every request for it one more
descriptor is open. -/
theorem image_is_left_open : ¬ ∀ (shared : Shared) (opened : Finset Nat) (trace : List Request)
    (process : Process), History shared →
      Runs.Run Process.step Runs.anywhere ⟨shared, opened, []⟩ trace process →
      process.Balanced opened := by
  intro always
  have isImage : (vFileOpen (.opened 7 true (.regular [1, 2, 3]))).getType = some .regular := rfl
  obtain ⟨answers, tracked, worked, returned, served, silent⟩ := served_answered
    (image_served 5 Shared.start)
    (show Possible _ (.opened 7 true (.regular [1, 2, 3])) none by exact nofun)
    (fun printable => by
      rw [responseTo_sentFile rfl isImage]
      exact Response.text_short _ (Nat.zero_le _)) ∅
  have calls : tracked.descriptorCalls = [.opened 7] := by
    rw [Tracked.descriptorCalls, Tracked.fileCalls, silent, served]
    rfl
  have stepped : Process.step ⟨Shared.start, ∅, []⟩ ⟨5, answers⟩ =
      some ⟨tracked.worker.shared, {7}, [[.opened 7]]⟩ := by
    simp only [Process.step, worked, returned, Phase.ended, guard, ↓reduceIte, calls,
      Option.bind_eq_bind, Option.bind_some, Option.pure_def]
    rfl
  have balanced := always Shared.start ∅ ([] ++ [⟨5, answers⟩]) _ .start
    (Runs.Run.next Runs.Run.start trivial stepped)
  exact Finset.singleton_ne_empty 7 balanced.same

end VHttp.Worker
