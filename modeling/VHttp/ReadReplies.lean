import VHttp.BatchedRequests
import VHttp.Foundations.PrefixCodes
import VHttp.ReplyFraming

/-!
# What a client reads back

A client finds in what it is sent the replies to its batches if it can tell where each of them
ends. Well-framed replies state their lengths, so none of them begins another one, and a client
that takes them off one by one finds each answer as it was written. The first answer that is not
well framed is where it may go astray; what it has read before that stands.
-/

namespace VHttp.Worker

open VHttpRequest

/-- A batch whose answer can be read back: whatever file its urls name, the response to it can be
built, and the file is framable. -/
structure Batch.Readable (batch : Batch) : Prop where
  possible : ∀ path, BatchPath batch.requests path →
    Possible (getMimeType (strrchr path 46)) (batch.files path).1 (batch.files path).2
  framable : ∀ path, BatchPath batch.requests path →
    Framable (getMimeType (strrchr path 46)) (batch.files path).1 (batch.files path).2

/-- Its answer is well framed. -/
theorem Batch.Readable.framed {batch : Batch} (readable : batch.Readable) {bytes : Bytes}
    (answer : batch.Answer bytes) : WellFramed bytes := by
  obtain ⟨path, isPath, rfl⟩ := answer
  have framable := readable.framable path isPath
  exact ((framable_iff (getMimeType_printable _) (readable.possible path isPath)).mpr framable).2

end VHttp.Worker
