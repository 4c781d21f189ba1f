import VHttp.RequestStream
import VHttp.ServedResponses

/-!
# The receive loop ends

What a peer sends is a finite stream, and recv may hand it over in any way: a peek tells some of
the bytes that are waiting, a recv takes some of them, and each may fail instead. The string pool
may hold anything at the start, and a search may find the end of a head in what is stale there.

Whatever happens, a pass through the loop that comes back to the peek has taken a byte off the
socket, or it has counted one more of the five tries. The bytes that are waiting and the tries that
are left therefore bound the passes.
-/

namespace VHttp.Worker

/-- A worker at its first peek, whose string pool is not cleared. -/
def startWith (fileDescriptor : Nat) (stale : Memory) (shared : Shared) : Worker :=
  { start fileDescriptor shared with stringPool := ⟨stale, 0⟩ }

/-- The ways in which recv hands over a stream, and in which the parser returns. A peek tells
waiting bytes, and so few that they fit the string pool, or that the peer has closed; the three
bytes behind the pool can be read. Behind a peek that told something, a recv that does not fail
takes a byte at least. The parser leaves the string pool its size. -/
def Hands (stream : Bytes) (worker : Worker) (answer : Answer) : Prop :=
  match worker.phase, answer with
  | .peeking, .peek (.failed _) _ => True
  | .peeking, .peek (.data bytes) behind =>
    bytes <+: waiting stream worker.calls ∧ bytes.length ≤ poolCapacity ∧ 3 ≤ behind.length
  | .discarding _, .discard (.failed _) => True
  | .discarding requestSize, .discard (.data bytes) =>
    bytes ≠ [] ∧ bytes <+: waiting stream worker.calls ∧ bytes.length ≤ requestSize
  | .parsing, .parse result => result.memory.length = worker.stringPool.capacity
  | .receivingBody, .body _ (.failed _) => True
  | .receivingBody, .body _ (.data bytes) =>
    bytes <+: waiting stream worker.calls ∧ bytes.length ≤ worker.request.contentLength
  | _, _ => False

/-- How often the loop was begun: every pass begins with a peek. -/
def passes (calls : List Call) : Nat :=
  calls.countP fun
    | .peeked _ _ => true
    | _ => false

/-- The passes that a step from here begins. -/
def Phase.begins : Phase → Nat
  | .peeking => 1
  | _ => 0

/-- What a step of the receive loop does to the waiting bytes and the tries: it leaves the loop, or
it goes on to the next call. -/
inductive Passed (stream : Bytes) (before after : Worker) : Prop where
  | left (outside : ¬ after.phase.InLoop)
  | tried (peeking : before.phase = .peeking) (again : after.phase = .peeking)
      (waits : waiting stream after.calls = waiting stream before.calls)
      (tries : after.tries = before.tries + 1) (few : after.tries < 5)
  | found (peeking : before.phase = .peeking) (requestSize : Nat)
      (discarding : after.phase = .discarding requestSize)
      (waits : waiting stream after.calls = waiting stream before.calls)
      (tries : after.tries = before.tries)
  | takes (requestSize : Nat) (discarding : before.phase = .discarding requestSize)
      (parsing : after.phase = .parsing)
      (fewer : (waiting stream after.calls).length < (waiting stream before.calls).length)
      (tries : after.tries = before.tries)
  | parses (parsing : before.phase = .parsing)
      (onward : after.phase = .receivingBody ∨ after.phase = .peeking)
      (waits : waiting stream after.calls = waiting stream before.calls)
      (tries : after.tries = before.tries)
  | drains (receiving : before.phase = .receivingBody) (peeking : after.phase = .peeking)
      (fewer : (waiting stream after.calls).length ≤ (waiting stream before.calls).length)
      (tries : after.tries = before.tries)

/-- A worker whose string pool keeps its size, and that is ready to refuse a request. -/
structure Pooled (worker : Worker) : Prop where
  ready : Ready worker
  capacity : worker.stringPool.block.length = poolCapacity
  length : worker.stringPool.length ≤ poolCapacity

/-- The result of a step of the receive loop that recv and the parser let it take. -/
structure Pass (stream : Bytes) (before after : Worker) : Prop where
  passed : Passed stream before after
  begun : passes after.calls = passes before.calls + before.phase.begins
  capacity : after.phase.InLoop → after.stringPool.block.length = poolCapacity
  length : after.phase.InLoop → after.stringPool.length ≤ poolCapacity

/-- A pass that is begun and has taken nothing yet. -/
def Phase.begun : Phase → Nat
  | .discarding _ => 1
  | _ => 0

/-- Every pass since some state of the loop was paid for, by a byte that does not wait any more or
by a try; the last one may still be begun. -/
def Charged (stream : Bytes) (origin worker : Worker) : Prop :=
  passes worker.calls + (waiting stream worker.calls).length + origin.tries ≤
    passes origin.calls + (waiting stream origin.calls).length + worker.tries + worker.phase.begun

/-- A worker in its receive loop, where the tries stay below five. -/
structure Receiving (stream : Bytes) (origin worker : Worker) : Prop where
  pooled : Pooled worker
  few : worker.tries < 5
  charged : Charged stream origin worker

/-- How far a call is from the next byte or try. -/
def Phase.rank : Phase → Nat
  | .parsing => 3
  | .receivingBody => 2
  | .peeking => 1
  | _ => 0

/-- What is left to do: the bytes that wait and the tries that are left, at four calls each. -/
def remaining (stream : Bytes) (worker : Worker) : Nat :=
  4 * ((waiting stream worker.calls).length + (5 - worker.tries)) + worker.phase.rank

/-- What holds of a worker until its receive loop is left, and a bound on its passes. -/
def Accounted (stream : Bytes) (origin worker : Worker) : Prop :=
  (worker.phase.InLoop → Receiving stream origin worker) ∧
    passes worker.calls ≤ passes origin.calls + (waiting stream origin.calls).length + 5

/-- The receive loop is at its peek again, one pass later. -/
structure OncePassed (before after : Worker) : Prop where
  peeking : before.phase = .peeking
  again : after.phase = .peeking
  once : passes after.calls = passes before.calls + 1

section Passes

variable {stream : Bytes} {origin worker after : Worker}

@[simp] theorem passes_append (first second : List Call) :
    passes (first ++ second) = passes first + passes second := List.countP_append

/-- What is waiting behind more calls. -/
theorem waiting_append (stream : Bytes) (calls more : List Call) :
    waiting stream (calls ++ more) =
      (waiting stream calls).drop (piecesTaken more).flatten.length := by
  rw [waiting, waiting, piecesTaken_append, List.flatten_append, List.length_append, List.drop_drop]

/-- The end of the loop when a recv would block: the request is served, or nothing was received. -/
theorem leaveLoop_ends (fits : worker.stringPool.length ≤ worker.stringPool.block.length) :
    ∃ after, worker.leaveLoop = some after ∧ ¬ after.phase.InLoop ∧
      passes after.calls = passes worker.calls := by
  rw [leaveLoop]
  split
  · exact ⟨worker.cleanup, rfl, id, passes_append _ _⟩
  · obtain ⟨block, cleared, _⟩ := clearFront_some worker.stringPool.block _ fits
    exact ⟨{ worker with stringPool := ⟨block, 0⟩, phase := .serving }, by rw [cleared]; rfl, id,
      rfl⟩

/-- A recv that fails ends the loop. -/
theorem receiveFailed_ends (fits : worker.stringPool.length ≤ worker.stringPool.block.length)
    (errno : Errno) : ∃ after, worker.receiveFailed errno = some after ∧ ¬ after.phase.InLoop ∧
      passes after.calls = passes worker.calls := by
  cases errno with
  | again => exact leaveLoop_ends fits
  | dead => exact ⟨worker.cleanup, rfl, id, passes_append _ _⟩
  | other => exact ⟨worker.cleanup, rfl, id, passes_append _ _⟩

/-- A refusal ends the loop. -/
theorem refuse_ends (sound : worker.shared.Sound) : ∃ after, worker.refuse = some after ∧
    ¬ after.phase.InLoop ∧ passes after.calls = passes worker.calls := by
  have short : badRequest.length < responseMaxLen := by decide
  have clean : 0 ∉ badRequest := by decide
  obtain ⟨malloced, built, _⟩ := snprintf_terminated worker.shared.responseMalloced responseMaxLen
    clean short (sound.size ▸ short)
  rw [badRequest] at built
  have refused : ∃ after, worker.refuse = some after := by
    simp only [refuse, built, Option.bind_eq_bind, Option.bind_some, Option.pure_def]
    exact ⟨_, rfl⟩
  obtain ⟨after, refused⟩ := refused
  obtain ⟨refusing, calls, _⟩ := refuse_cases refused
  refine ⟨after, refused, ?_, ?_⟩
  · rw [refusing]
    exact id
  · rw [calls, passes_append]
    rfl

/-- The search in what was peeked has a result, whatever is stale behind it: a head is found, or a
try is counted, or it was the last one. -/
theorem search_ends (pooled : Pooled worker) {behind : Bytes} (readable : 3 ≤ behind.length) :
    ∃ after, worker.search behind = some after ∧
      ((∃ requestSize, after = { worker with phase := .discarding requestSize }) ∨
        (worker.tries + 1 ≠ 5 ∧ after = { worker with tries := worker.tries + 1 }) ∨
        (¬ after.phase.InLoop ∧ passes after.calls = passes worker.calls)) := by
  have inside : 0 + worker.stringPool.length + (ascii "\r\n\r\n").length ≤
      (worker.stringPool.block ++ behind).length + 1 := by
    have four : (ascii "\r\n\r\n").length = 4 := by decide
    have length := pooled.length
    rw [four, List.length_append, pooled.capacity]
    omega
  have total : ∃ requestSize, findSubstring (worker.stringPool.block ++ behind)
      ⟨0, worker.stringPool.length⟩ (ascii "\r\n\r\n") = some requestSize :=
    findSubstring_total inside
  obtain ⟨requestSize, found⟩ := total
  simp only [search, found, Option.bind_eq_bind, Option.bind_some, Option.pure_def]
  by_cases positive : requestSize > 0
  · rw [if_pos positive]
    exact ⟨_, rfl, Or.inl ⟨requestSize, rfl⟩⟩
  · rw [if_neg positive]
    by_cases last : worker.tries + 1 = 5
    · rw [if_pos last]
      have sound : ({ worker with tries := worker.tries + 1 } : Worker).shared.Sound :=
        pooled.ready.sound
      obtain ⟨after, refused, outside, same⟩ := refuse_ends sound
      exact ⟨after, refused, Or.inr (Or.inr ⟨outside, same⟩)⟩
    · rw [if_neg last]
      exact ⟨_, rfl, Or.inr (Or.inl ⟨last, rfl⟩)⟩

/-- A step that leaves the loop. -/
theorem Pass.leaving (outside : ¬ after.phase.InLoop)
    (begun : passes after.calls = passes worker.calls + worker.phase.begins) :
    Pass stream worker after :=
  ⟨.left outside, begun, fun inside => absurd inside outside, fun inside => absurd inside outside⟩

theorem Pooled.peek (pooled : Pooled worker) (peeking : worker.phase = .peeking)
    (few : worker.tries < 5) {result : Received} {behind : Bytes}
    (handed : Hands stream worker (.peek result behind)) :
    ∃ after, worker.peek result behind = some after ∧ Pass stream worker after := by
  have begins : worker.phase.begins = 1 := by
    rw [peeking]
    rfl
  have logged : passes (worker.log [.peeked worker.fileDescriptor result]).calls =
      passes worker.calls + worker.phase.begins := by
    rw [begins, log, passes_append]
    rfl
  cases result with
  | failed errno =>
    have fits : worker.stringPool.length ≤ worker.stringPool.block.length :=
      pooled.capacity.symm ▸ pooled.length
    obtain ⟨after, failed, outside, same⟩ := @receiveFailed_ends
      (worker.log [.peeked worker.fileDescriptor (.failed errno)]) fits errno
    exact ⟨after, failed, .leaving outside (same.trans logged)⟩
  | data bytes =>
    simp only [Hands, peeking] at handed
    obtain ⟨_, fit, readable⟩ := handed
    by_cases nonempty : bytes = []
    · subst nonempty
      refine ⟨_, rfl, .leaving id ?_⟩
      rw [cleanup, log, passes_append, logged]
      rfl
    · -- what is behind the bytes in the pool stays as stale as it was
      rw [peek_data nonempty fit pooled.capacity]
      have size : (bytes ++ worker.stringPool.block.drop bytes.length).length = poolCapacity := by
        rw [List.length_append, List.length_drop, pooled.capacity]
        omega
      have kept : Pooled { worker.log [.peeked worker.fileDescriptor (.data bytes)] with
          stringPool := ⟨bytes ++ worker.stringPool.block.drop bytes.length, bytes.length⟩ } :=
        ⟨⟨pooled.ready.sound, fun serving => Phase.noConfusion (peeking.symm.trans serving),
          pooled.ready.bounded⟩, size, fit⟩
      have waits : waiting stream (worker.log [.peeked worker.fileDescriptor (.data bytes)]).calls =
          waiting stream worker.calls := by
        rw [log, waiting_append]
        rfl
      obtain ⟨after, searched, outcome⟩ := search_ends kept readable
      refine ⟨after, searched, ?_⟩
      rcases outcome with ⟨requestSize, rfl⟩ | ⟨more, rfl⟩ | ⟨outside, same⟩
      · exact ⟨.found peeking requestSize rfl waits rfl, logged, fun _ => size, fun _ => fit⟩
      · have fewer : worker.tries + 1 < 5 := by
          have other : worker.tries + 1 ≠ 5 := more
          omega
        exact ⟨.tried peeking peeking waits rfl fewer, logged, fun _ => size, fun _ => fit⟩
      · exact .leaving outside (same.trans logged)

theorem Pooled.discard (pooled : Pooled worker) {requestSize : Nat}
    (discarding : worker.phase = .discarding requestSize) {result : Received}
    (handed : Hands stream worker (.discard result)) :
    ∃ after, worker.discard requestSize result = some after ∧ Pass stream worker after := by
  have begins : worker.phase.begins = 0 := by
    rw [discarding]
    rfl
  cases result with
  | failed errno =>
    have fits : worker.stringPool.length ≤ worker.stringPool.block.length :=
      pooled.capacity.symm ▸ pooled.length
    obtain ⟨after, failed, outside, same⟩ := @receiveFailed_ends
      (worker.log [.received worker.fileDescriptor (.failed errno)]) fits errno
    refine ⟨after, failed, .leaving outside ?_⟩
    rw [same, begins, log, passes_append]
    rfl
  | data bytes =>
    simp only [Hands, discarding] at handed
    obtain ⟨nonempty, front, bounded⟩ := handed
    refine ⟨{ worker.log [.received worker.fileDescriptor (.data bytes),
      .parsed worker.stringPool.content] with phase := .parsing }, ?_,
      .takes requestSize discarding rfl ?_ rfl, ?_, fun _ => pooled.capacity,
      fun _ => pooled.length⟩
    · simp [Worker.discard, guard, log, bounded]
    · have some := List.length_pos_iff.mpr nonempty
      have enough := front.length_le
      simp only [log, waiting_append, List.length_drop, piecesTaken_cons, Call.taken,
        Option.toList_some, Option.toList_none, piecesTaken_nil, List.append_nil,
        List.flatten_singleton]
      omega
    · rw [begins, log, passes_append]
      rfl

theorem Pooled.parse (pooled : Pooled worker) (parsing : worker.phase = .parsing)
    {result : VHttpRequest.Parsed} (handed : Hands stream worker (.parse result)) :
    ∃ after, worker.parse result = some after ∧ Pass stream worker after := by
  have begins : worker.phase.begins = 0 := by
    rw [parsing]
    rfl
  simp only [Hands, parsing] at handed
  have size : result.memory.length = poolCapacity := handed.trans pooled.capacity
  simp only [Worker.parse, guard, handed, ↓reduceIte, Option.bind_eq_bind, Option.pure_def,
    Option.bind_some]
  split
  · split
    · exact ⟨_, rfl, .parses parsing (Or.inl rfl) rfl rfl, begins.symm ▸ rfl, fun _ => size,
        fun _ => pooled.length⟩
    · exact ⟨_, rfl, .parses parsing (Or.inr rfl) rfl rfl, begins.symm ▸ rfl, fun _ => size,
        fun _ => pooled.length⟩
  · have sound : ({ worker with
        request := result.request
        stringPool := { worker.stringPool with block := result.memory } } : Worker).shared.Sound :=
      pooled.ready.sound
    obtain ⟨after, refused, outside, same⟩ := refuse_ends sound
    exact ⟨after, refused, .leaving outside (begins.symm ▸ same)⟩

theorem body_passes (pooled : Pooled worker) (receiving : worker.phase = .receivingBody)
    (fresh : Nat → UInt8) (result : Received) : Pass stream worker (worker.body fresh result) := by
  have begins : worker.phase.begins = 0 := by
    rw [receiving]
    rfl
  refine ⟨.drains receiving rfl ?_ rfl, ?_, fun _ => pooled.capacity, fun _ => pooled.length⟩
  · simp only [body, log, waiting_append, List.length_drop]
    omega
  · rw [begins, body, log, passes_append]
    rfl

/-- Every call of the receive loop that recv or the parser answers makes a step. -/
theorem Pooled.step {answer : Answer} (pooled : Pooled worker) (inside : worker.phase.InLoop)
    (few : worker.tries < 5) (handed : Hands stream worker answer) :
    ∃ after, worker.step answer = some after ∧ Pass stream worker after := by
  unfold Worker.step
  cases phase : worker.phase with
  | peeking =>
    cases answer with
    | peek result behind => exact pooled.peek phase few handed
    | _ => simp [Hands, phase] at handed
  | discarding requestSize =>
    cases answer with
    | discard result => exact pooled.discard phase handed
    | _ => simp [Hands, phase] at handed
  | parsing =>
    cases answer with
    | parse result => exact pooled.parse phase handed
    | _ => simp [Hands, phase] at handed
  | receivingBody =>
    cases answer with
    | body fresh result => exact ⟨_, rfl, body_passes pooled phase fresh result⟩
    | _ => simp [Hands, phase] at handed
  | _ =>
    rw [phase] at inside
    exact absurd inside id

/-- A pass that goes on keeps its account, and comes nearer to the end. -/
theorem Receiving.onward (receiving : Receiving stream origin worker)
    (pass : Pass stream worker after) (ready : Ready after) (inside : after.phase.InLoop) :
    Receiving stream origin after ∧ remaining stream after < remaining stream worker := by
  have few := receiving.few
  have charged := receiving.charged
  have begun := pass.begun
  have pooled : Pooled after := ⟨ready, pass.capacity inside, pass.length inside⟩
  rw [Charged] at charged
  cases pass.passed with
  | left outside => exact absurd inside outside
  | tried peeking again waits tries fewer =>
    simp only [peeking, Phase.begins, Phase.begun] at begun charged
    refine ⟨⟨pooled, fewer, ?_⟩, ?_⟩
    · simp only [Charged, again, waits, Phase.begun]
      omega
    · simp only [remaining, again, peeking, waits, Phase.rank]
      omega
  | found peeking requestSize discarding waits tries =>
    simp only [peeking, Phase.begins, Phase.begun] at begun charged
    refine ⟨⟨pooled, tries ▸ few, ?_⟩, ?_⟩
    · simp only [Charged, discarding, waits, Phase.begun]
      omega
    · simp only [remaining, discarding, peeking, waits, tries, Phase.rank]
      omega
  | takes requestSize discarding parsing fewer tries =>
    simp only [discarding, Phase.begins, Phase.begun] at begun charged
    refine ⟨⟨pooled, tries ▸ few, ?_⟩, ?_⟩
    · simp only [Charged, parsing, Phase.begun]
      omega
    · simp only [remaining, discarding, parsing, tries, Phase.rank]
      omega
  | parses parsing next waits tries =>
    simp only [parsing, Phase.begins, Phase.begun] at begun charged
    rcases next with next | next
    · refine ⟨⟨pooled, tries ▸ few, ?_⟩, ?_⟩
      · simp only [Charged, next, waits, Phase.begun]
        omega
      · simp only [remaining, parsing, next, waits, tries, Phase.rank]
        omega
    · refine ⟨⟨pooled, tries ▸ few, ?_⟩, ?_⟩
      · simp only [Charged, next, waits, Phase.begun]
        omega
      · simp only [remaining, parsing, next, waits, tries, Phase.rank]
        omega
  | drains body peeking fewer tries =>
    simp only [body, Phase.begins, Phase.begun] at begun charged
    refine ⟨⟨pooled, tries ▸ few, ?_⟩, ?_⟩
    · simp only [Charged, peeking, Phase.begun]
      omega
    · simp only [remaining, body, peeking, tries, Phase.rank]
      omega

/-- The passes begun so far are at most as many as bytes were waiting, and five. -/
theorem Receiving.bound (receiving : Receiving stream origin worker)
    (begun : passes after.calls = passes worker.calls + worker.phase.begins) :
    passes after.calls ≤ passes origin.calls + (waiting stream origin.calls).length + 5 := by
  have few := receiving.few
  have charged := receiving.charged
  have one : worker.phase.begins + worker.phase.begun ≤ 1 := by
    cases worker.phase <;> simp [Phase.begins, Phase.begun]
  rw [Charged] at charged
  omega

/-- A step of the loop has a result, and the loop is kept or left. -/
theorem Receiving.step {answer : Answer} (receiving : Receiving stream origin worker)
    (inside : worker.phase.InLoop) (handed : Hands stream worker answer) :
    ∃ after, worker.step answer = some after ∧ Accounted stream origin after ∧
      (after.phase.InLoop → remaining stream after < remaining stream worker) := by
  obtain ⟨after, stepped, pass⟩ := receiving.pooled.step inside receiving.few handed
  have ready := receiving.pooled.ready.step stepped
  exact ⟨after, stepped, ⟨fun inside => (receiving.onward pass ready inside).1,
    receiving.bound pass.begun⟩, fun inside => (receiving.onward pass ready inside).2⟩

/-- Nothing is handed over outside the loop. -/
theorem Hands.inside {answer : Answer} (handed : Hands stream worker answer) :
    worker.phase.InLoop := by
  cases phase : worker.phase with
  | peeking | discarding _ | parsing | receivingBody => exact trivial
  | _ => simp [Hands, phase] at handed

/-- So do all steps of a run. -/
theorem run_receiving (initial : Receiving stream origin origin) {trace : List Answer}
    (run : Runs.Run step (Hands stream) origin trace worker) (inside : worker.phase.InLoop) :
    Receiving stream origin worker := by
  refine run.invariant (fun reached => reached.phase.InLoop → Receiving stream origin reached)
    (fun _ => initial) ?_ inside
  intro before answer reached receiving handed stepped
  obtain ⟨_, same, accounted, _⟩ := (receiving handed.inside).step handed.inside handed
  obtain rfl := Option.some.inj (stepped.symm.trans same)
  exact accounted.1

/-- The account begins anew at every peek. -/
theorem Receiving.again (receiving : Receiving stream origin worker)
    (peeking : worker.phase = .peeking) : Receiving stream worker worker := by
  refine ⟨receiving.pooled, receiving.few, ?_⟩
  rw [Charged, peeking]
  exact Nat.le_refl _

/-- A pass that comes back to the peek has taken a byte off the socket or counted a try. -/
theorem Receiving.progress (receiving : Receiving stream worker after)
    (passed : OncePassed worker after) :
    (waiting stream after.calls).length < (waiting stream worker.calls).length ∨
      worker.tries < after.tries := by
  have charged := receiving.charged
  have once := passed.once
  simp only [Charged, passed.again, Phase.begun] at charged
  omega

theorem startWith_receiving {shared : Shared} (sound : shared.Sound) (descriptor : Nat)
    {stale : Memory} (size : stale.length = poolCapacity) (stream : Bytes) :
    Receiving stream (startWith descriptor stale shared) (startWith descriptor stale shared) :=
  ⟨⟨⟨sound, nofun, nofun⟩, size, Nat.zero_le _⟩, Nat.succ_pos 4, Nat.le_refl _⟩

end Passes

/-- For every stream of bytes, every string pool, and all ways in which recv hands the stream over
and the parser returns: the receive loop is left, after at most five passes more than there are
bytes, and every pass that stays in it takes a byte off the socket or counts a try, of which there
are fewer than five. -/
theorem receive_loop_ends {shared : Shared} (history : History shared) (descriptor : Nat)
    {stale : Memory} (size : stale.length = poolCapacity) (stream : Bytes)
    {answers : Nat → Answer}
    (handed : ∀ count worker, Runs.Run step (Hands stream) (startWith descriptor stale shared)
      ((List.range count).map answers) worker → worker.phase.InLoop →
      Hands stream worker (answers count)) :
    (∃ count worker, Runs.Run step (Hands stream) (startWith descriptor stale shared)
        ((List.range count).map answers) worker ∧ ¬ worker.phase.InLoop ∧
      passes worker.calls ≤ stream.length + 5) ∧
    ∀ trace pass before after,
      Runs.Run step (Hands stream) (startWith descriptor stale shared) trace before →
      Runs.Run step (Hands stream) before pass after → OncePassed before after →
      after.tries < 5 ∧
        ((waiting stream after.calls).length < (waiting stream before.calls).length ∨
          before.tries < after.tries) := by
  have initial := startWith_receiving history.sound descriptor size stream
  constructor
  · have accounted : Accounted stream (startWith descriptor stale shared)
        (startWith descriptor stale shared) := by
      refine ⟨fun _ => initial, ?_⟩
      rw [Nat.add_assoc]
      exact Nat.le_add_right _ _
    obtain ⟨count, worker, run, ⟨_, bounded⟩, outside⟩ := Runs.leaves_region (remaining stream)
      accounted (fun before answer held inside => (held.1 inside).step inside) handed
    refine ⟨count, worker, run, outside, bounded.trans ?_⟩
    simp [startWith, start, passes, waiting]
  · intro trace pass before after earlier run passed
    have receiving := run_receiving initial earlier (passed.peeking ▸ trivial)
    have later := run_receiving (receiving.again passed.peeking) run (passed.again ▸ trivial)
    exact ⟨later.few, later.progress passed⟩

/-- Whatever the answer, a worker outside its receive loop stays there. -/
theorem outside_stays (before : Worker) (answer : Answer) (after : Worker)
    (outside : ¬ before.phase.InLoop) (stepped : before.step answer = some after) :
    ¬ after.phase.InLoop := (answer_quiet outside stepped).beyond.1

/-- A step of the loop that comes to another place in it counts no try. -/
theorem Receiving.keeps {stream : Bytes} {origin worker after : Worker} {answer : Answer}
    (receiving : Receiving stream origin worker) (handed : Hands stream worker answer)
    (stepped : worker.step answer = some after) (inside : after.phase.InLoop)
    (elsewhere : worker.phase = .peeking → after.phase ≠ .peeking) :
    after.tries = worker.tries ∧
      passes after.calls = passes worker.calls + worker.phase.begins := by
  obtain ⟨next, same, pass⟩ := receiving.pooled.step handed.inside receiving.few handed
  obtain rfl := Option.some.inj (stepped.symm.trans same)
  refine ⟨?_, pass.begun⟩
  cases pass.passed with
  | left outside => exact absurd inside outside
  | tried peeking again _ _ _ => exact absurd again (elsewhere peeking)
  | found _ _ _ _ tries | takes _ _ _ _ tries | parses _ _ _ tries | drains _ _ _ tries =>
    exact tries

/-- A worker at its first peek, with a string pool that is not cleared. -/
def staleWorker : Worker := startWith 5 (List.replicate poolCapacity 71) Shared.start

/-- That worker once it has seen the first byte of a request. -/
def triedWorker : Worker :=
  { staleWorker.log [.peeked 5 (.data (ascii "G"))] with
    stringPool := ⟨ascii "G" ++ (List.replicate poolCapacity 71).drop 1, 1⟩
    tries := 1 }

theorem staleWorker_tries : staleWorker.step (.peek (.data (ascii "G")) [0, 0, 0]) =
    some triedWorker := by
  have nothing : findSubstring ((ascii "G" ++ (List.replicate poolCapacity 71).drop 1) ++ [0, 0, 0])
      ⟨0, 1⟩ (ascii "\r\n\r\n") = some 0 := rfl
  change staleWorker.peek (.data (ascii "G")) [0, 0, 0] = _
  rw [peek_data (by decide) (by decide) List.length_replicate]
  change search { staleWorker.log [.peeked 5 (.data (ascii "G"))] with
    stringPool := ⟨ascii "G" ++ (List.replicate poolCapacity 71).drop 1, 1⟩ } [0, 0, 0] = _
  simp only [search, nothing, Option.bind_eq_bind, Option.bind_some, Nat.lt_irrefl, ↓reduceIte,
    gt_iff_lt]
  rfl

/-- What one peek tells a stale worker of a request for the root. -/
theorem staleWorker_run :
    Runs.Run step (Hands rootHead.bytes) staleWorker [.peek (.data (ascii "G")) [0, 0, 0]]
      triedWorker := by
  have begins : Hands rootHead.bytes staleWorker (.peek (.data (ascii "G")) [0, 0, 0]) :=
    ⟨by decide, by decide, Nat.le_refl 3⟩
  exact Runs.Run.start.next begins staleWorker_tries

/-- The pass that follows takes the whole request, and the next peek would block. -/
theorem triedWorker_runs : ∃ peeks discards parses : Answer, ∃ second final : Worker,
    Runs.Run step (Hands rootHead.bytes) triedWorker [peeks, discards, parses] second ∧
      OncePassed triedWorker second ∧ second.tries = 1 ∧
      Runs.Run step (Hands rootHead.bytes) second [.peek (.failed .again) []] final ∧
      final.phase = .serving := by
  have size : (List.replicate poolCapacity (71 : UInt8)).length = poolCapacity :=
    List.length_replicate
  have initial : Receiving rootHead.bytes staleWorker staleWorker :=
    startWith_receiving Shared.start_sound 5 size rootHead.bytes
  have stream : requestStream [rootHead] = rootHead.bytes := List.append_nil _
  have begun : Reading [rootHead] [] [] triedWorker := by
    refine ⟨?_, VHttpRequest.init_fresh.valid, rfl, rfl, rfl, rfl, ?_⟩
    · simp only [triedWorker, List.length_append, List.length_drop, size]
      rfl
    · exact Framed.append (fun _ impossible => absurd impossible List.not_mem_nil) (by simp)
  -- The search finds the end of the request.
  have fits : (requestStream [rootHead]).length ≤ poolCapacity := by decide
  obtain ⟨peeked, peeks, discarding, reading, holding⟩ := begun.peek fits [0, 0, 0]
  have tells : Hands rootHead.bytes triedWorker (.peek (.data rootHead.bytes) [0, 0, 0]) :=
    ⟨List.prefix_rfl, by decide, Nat.le_refl 3⟩
  have found : triedWorker.step (.peek (.data rootHead.bytes) [0, 0, 0]) = some peeked := by
    unfold Worker.step
    rw [stream] at peeks
    exact peeks
  have one := Runs.Run.start.next tells found
  have tried := run_receiving initial staleWorker_run trivial
  obtain ⟨triesOne, passOne⟩ := tried.keeps tells found (by rw [discarding]; trivial)
    (fun _ => by rw [discarding]; simp)
  -- The request is taken.
  obtain ⟨taken, discards, parsing, read, still, _⟩ := reading.discard rfl holding
  have takes : Hands rootHead.bytes peeked (.discard (.data rootHead.bytes)) := by
    simp only [Hands, discarding, waiting, reading.taken]
    exact ⟨by decide, List.prefix_rfl, Nat.le_refl _⟩
  have removed : peeked.step (.discard (.data rootHead.bytes)) = some taken := by
    unfold Worker.step
    rw [discarding]
    exact discards
  have two := one.next takes removed
  have followed := run_receiving initial (staleWorker_run.append one) (by rw [discarding]; trivial)
  obtain ⟨triesTwo, passTwo⟩ := followed.keeps takes removed (by rw [parsing]; trivial)
    (fun peeking => by rw [discarding] at peeking; cases peeking)
  -- It is parsed, and the next peek comes.
  have inserted : VHashTable.insertAll taken.request.headers
      ((VHttpRequest.readHeaders rootHead.headers).map HeaderLine.entry) =
        some (VHashTable.init 0) := by
    rw [← Option.some.inj read.inserted]
    rfl
  obtain ⟨result, second, isParsed, parses, again, reads, filled⟩ :=
    read.parse still inserted (fun _ => 0) (fun _ => ⟨0, 0⟩)
  have kept : Hands rootHead.bytes taken (.parse result) := by
    simp only [Hands, parsing]
    exact VHttpRequest.parse_size isParsed
  have returned : taken.step (.parse result) = some second := by
    unfold Worker.step
    rw [parsing]
    exact parses
  have three := two.next kept returned
  have further := run_receiving initial (staleWorker_run.append two) (by rw [parsing]; trivial)
  obtain ⟨triesThree, passThree⟩ := further.keeps kept returned (by rw [again]; trivial)
    (fun peeking => by rw [parsing] at peeking; cases peeking)
  -- Nothing is left of the stream.
  obtain ⟨final, blocked, _, serving, _⟩ := reads.serve_next again filled
  have blocks : Hands rootHead.bytes second (.peek (.failed .again) []) := by
    simp only [Hands, again]
  refine ⟨_, _, _, second, final, three, ⟨rfl, again, ?_⟩, ?_, Runs.Run.start.next blocks blocked,
    serving⟩
  · rw [discarding] at passTwo
    rw [parsing] at passThree
    simp only [Phase.begins] at passTwo passThree
    rw [passThree, passTwo, passOne]
    rfl
  · rw [triesThree, triesTwo, triesOne]
    rfl

/-- Of a request for the root the first peek tells one byte, which counts as a try, and the second
pass takes it all: the loop ends behind three peeks. -/
theorem receive_loop_ends_tried : ∃ answers : Nat → Answer, ∃ pass second,
    (∃ count worker, Runs.Run step (Hands rootHead.bytes) staleWorker
        ((List.range count).map answers) worker ∧ ¬ worker.phase.InLoop ∧
      passes worker.calls ≤ rootHead.bytes.length + 5) ∧
    Runs.Run step (Hands rootHead.bytes) staleWorker ((List.range 1).map answers) triedWorker ∧
    Runs.Run step (Hands rootHead.bytes) triedWorker pass second ∧ triedWorker.tries = 1 ∧
    second.tries = 1 ∧ (waiting rootHead.bytes second.calls).length <
      (waiting rootHead.bytes triedWorker.calls).length := by
  obtain ⟨peeks, discards, parses, second, final, pass, once, tries, ends, serving⟩ :=
    triedWorker_runs
  let calls := [.peek (.data (ascii "G")) [0, 0, 0], peeks, discards, parses]
  let answers : Nat → Answer := fun count => calls[count]?.getD (.peek (.failed .again) [])
  have whole : Runs.Run step (Hands rootHead.bytes) staleWorker ((List.range 5).map answers) final :=
    (staleWorker_run.append pass).append ends
  have outside : ¬ final.phase.InLoop := by
    rw [serving]
    exact id
  have size : (List.replicate poolCapacity (71 : UInt8)).length = poolCapacity :=
    List.length_replicate
  obtain ⟨leaves, keeps⟩ := receive_loop_ends History.start 5 size rootHead.bytes
    (whole.offered outside_stays outside)
  obtain ⟨_, fewer⟩ := keeps _ _ triedWorker second staleWorker_run pass once
  have untried : ¬ triedWorker.tries < second.tries := by
    rw [tries]
    exact Nat.lt_irrefl 1
  exact ⟨answers, _, second, leaves, staleWorker_run, pass, rfl, tries,
    fewer.resolve_right untried⟩

end VHttp.Worker
