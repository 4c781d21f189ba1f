import VHttp.BatchedRequests
import VHttp.WorkLeft

/-!
# Heads that arrive in pieces

The receive loop looks at what has arrived of a head, again and again, until the head is complete,
and does not wait between two looks. It gives up at the fifth look that finds no end of a head, with
a 400 response. Up to there a look leaves nothing behind but its count: the bytes stay on the
socket, and the next look writes them over those of this one. Nothing but zeros lies behind them in
the string pool, so the search does not run into old bytes there.
-/

namespace VHttp

open VHttpRequest

/-- A search that compares unequal everywhere, and within its memory, finds nothing. -/
theorem findSubstringLoop_absent {memory : Memory} {string : VStringView} {substring : Bytes}
    {remaining index : Nat} (absent : ∀ place, index ≤ place → place < index + remaining →
      ¬ substring <+: memory.drop (string.data + place) ∧
        ¬ memory.drop (string.data + place) <+: substring) :
    findSubstringLoop memory string substring remaining index = some 0 := by
  induction remaining generalizing index with
  | zero => rfl
  | succ remaining inductionHypothesis =>
    obtain ⟨other, long⟩ := absent index (Nat.le_refl _) (by omega)
    have later : findSubstringLoop memory string substring remaining (index + 1) = some 0 :=
      inductionHypothesis fun place bound inside => absent place (by omega) (by omega)
    simp [findSubstringLoop, memcmpEqual_exact, other, long, later]

namespace Worker

/-- What peeks find of a head before it is complete: beginnings of it, each at least as long as the
one before. Each comes with what lies behind the string pool. -/
inductive Trickles (head : Bytes) : Nat → List (Bytes × Bytes) → Prop where
  | nil (seen : Nat) : Trickles head seen []
  | cons {seen : Nat} {bytes behind : Bytes} {later : List (Bytes × Bytes)} (some : bytes ≠ [])
      (front : bytes <+: head) (short : bytes.length < head.length) (grown : seen ≤ bytes.length)
      (rest : Trickles head bytes.length later) : Trickles head seen ((bytes, behind) :: later)

/-- The answers to these peeks. -/
def looks (peeks : List (Bytes × Bytes)) : List Answer :=
  peeks.map (fun peek => .peek (.data peek.1) peek.2)

/-- The end of a head. -/
def crlfTwice : Bytes := ascii "\r\n\r\n"

/-- No end of a head begins in a beginning of a complete request, in front of a zero. -/
theorem incomplete_absent {head : CompleteRequest} {bytes : Bytes} (front : bytes <+: head.bytes)
    (short : bytes.length < head.bytes.length) (rest : Bytes) {place : Nat}
    (inside : place < bytes.length) :
    ¬ crlfTwice <+: (bytes ++ 0 :: rest).drop place ∧
      ¬ (bytes ++ 0 :: rest).drop place <+: crlfTwice := by
  have noZero : (0 : UInt8) ∉ crlfTwice := by decide
  rw [List.drop_append_of_le_length inside.le]
  constructor
  · intro occurs
    have found := head.search_ends [] [] []
    simp only [List.nil_append, List.append_nil, List.length_nil] at found
    obtain ⟨first, _, ended, _, absent⟩ := findSubstring_found head.bytes_positive found
    have within : crlfTwice <+: bytes.drop place := by
      rcases List.prefix_or_prefix_of_prefix occurs (List.prefix_append _ _) with within | longer
      · exact within
      · obtain ⟨missing, split⟩ := longer
        cases missing with
        | nil => exact ⟨[], by simpa using split.symm⟩
        | cons byte others =>
          rw [← split] at occurs
          obtain ⟨rfl, _⟩ := List.cons_prefix_cons.mp ((List.prefix_append_right_inj _).mp occurs)
          exact absurd (by rw [← split]; simp) noZero
    have room := within.length_le
    rw [List.length_drop] at room
    have sooner : place < first := by
      have four : crlfTwice.length = (ascii "\r\n\r\n").length := rfl
      omega
    obtain ⟨behind, whole⟩ := front
    apply absent place sooner
    rw [Nat.zero_add, ← whole, List.drop_append_of_le_length inside.le]
    exact within.trans (List.prefix_append _ _)
  · intro shorter
    exact noZero (shorter.subset (by simp))

/-- The worker behind a look that finds no end of a head. -/
def behindLook (worker : Worker) (bytes : Bytes) : Worker :=
  { worker.log [.peeked worker.fileDescriptor (.data bytes)] with
    stringPool := ⟨bytes ++ worker.stringPool.block.drop bytes.length, bytes.length⟩
    tries := worker.tries + 1 }

/-- A worker that has looked several times, and has found no end of a head. -/
structure Looked (requests : List CompleteRequest) (count seen : Nat) (worker : Worker) : Prop where
  phase : worker.phase = .peeking
  tries : worker.tries = count
  reading : Reading requests [] [] worker
  silent : responses worker.calls = []
  zeros : ∀ place, seen ≤ place → place < poolCapacity → worker.stringPool.block[place]? = some 0

theorem start_looked (requests : List CompleteRequest) (descriptor : Nat) (shared : Shared) :
    Looked requests 0 0 (start descriptor shared) := by
  refine ⟨rfl, rfl, start_reading requests descriptor shared, rfl, fun place _ inside => ?_⟩
  simp [start, inside]

section Looking

variable {requests : List CompleteRequest} {head : CompleteRequest} {count seen : Nat}
variable {worker : Worker} {bytes : Bytes}

/-- The string pool has a zero behind the next look. -/
theorem Looked.beyond (looked : Looked requests count seen worker) (grown : seen ≤ bytes.length)
    (inside : bytes.length < poolCapacity) :
    worker.stringPool.block.drop bytes.length =
      0 :: worker.stringPool.block.drop (bytes.length + 1) := by
  have below : bytes.length < worker.stringPool.block.length := by
    rw [looked.reading.capacity]
    exact inside
  have zero := looked.zeros bytes.length grown inside
  rw [List.getElem?_eq_getElem below, Option.some.injEq] at zero
  rw [List.drop_eq_getElem_cons below, zero]

/-- A look leaves the request and the bytes on the socket alone. -/
theorem Looked.next (looked : Looked requests count seen worker) (grown : seen ≤ bytes.length)
    (inside : bytes.length < poolCapacity) :
    Looked requests (count + 1) bytes.length (worker.behindLook bytes) := by
  obtain ⟨capacity, strings, bodyless, inserted, url, taken, framed⟩ := looked.reading
  constructor
  case phase => exact looked.phase
  case tries => rw [behindLook, looked.tries]
  case reading =>
    refine ⟨?_, strings, bodyless, inserted, url, ?_, framed.append (by simp)⟩
    · simp only [behindLook, List.length_append, List.length_drop, capacity]
      omega
    · simpa [behindLook, log, Call.taken] using taken
  case silent => simpa [behindLook, log, Call.response] using looked.silent
  case zeros =>
    intro place behind below
    simp only [behindLook]
    rw [List.getElem?_append_right behind, List.getElem?_drop, Nat.add_sub_cancel' behind]
    exact looked.zeros place (by omega) below

/-- A look at a beginning of a head is counted, and the fifth is followed by a refusal. -/
theorem Looked.look (looked : Looked requests count seen worker) (some : bytes ≠ [])
    (front : bytes <+: head.bytes) (short : bytes.length < head.bytes.length)
    (fits : head.bytes.length ≤ poolCapacity) (grown : seen ≤ bytes.length) (behind : Bytes) :
    worker.step (.peek (.data bytes) behind) =
      if count + 1 = 5 then (worker.behindLook bytes).refuse
      else Option.some (worker.behindLook bytes) := by
  have inside : bytes.length < poolCapacity := by omega
  have nothing : findSubstring (bytes ++ worker.stringPool.block.drop bytes.length ++ behind)
      ⟨0, bytes.length⟩ (ascii "\r\n\r\n") = Option.some 0 := by
    rw [findSubstring, if_neg (by decide), looked.beyond grown inside, List.append_assoc,
      List.cons_append]
    apply findSubstringLoop_absent
    intro place _ below
    rw [Nat.zero_add] at below ⊢
    exact incomplete_absent front short _ below
  have counted : (worker.behindLook bytes).tries = count + 1 := by rw [behindLook, looked.tries]
  unfold Worker.step
  rw [looked.phase, ← counted]
  change worker.peek (.data bytes) behind = _
  rw [peek_data some inside.le looked.reading.capacity]
  simp only [search, nothing, Option.bind_eq_bind, Option.bind_some, Nat.lt_irrefl, ↓reduceIte,
    gt_iff_lt]
  rfl

/-- A worker that has given up: it is to send a 400 response, and has taken nothing. -/
structure Refused (worker : Worker) : Prop where
  refusing : worker.phase = .refusing badRequest.length ∨ worker.phase = .cleanedUp
  noted : responses worker.calls = [(badRequest, none)]
  untaken : piecesTaken worker.calls = []

/-- Where looks lead to, by their number. -/
inductive LooksEnd (requests : List CompleteRequest) (worker : Worker) (answers : List Answer) :
    Nat → Prop where
  | looked {total : Nat} (few : total < 5) (after : Worker) (last : Nat)
      (run : Runs.Run step Runs.anywhere worker answers after)
      (looked : Looked requests total last after) : LooksEnd requests worker answers total
  | refused {total : Nat} (five : total = 5) (after : Worker)
      (run : Runs.Run step Runs.anywhere worker answers after) (refused : Refused after) :
      LooksEnd requests worker answers total
  | never {total : Nat} (many : 5 < total)
      (none : ∀ after, ¬ Runs.Run step Runs.anywhere worker answers after) :
      LooksEnd requests worker answers total

/-- The fifth look is the last. -/
theorem Looked.gives_up (looked : Looked requests 4 seen worker) (sound : worker.shared.Sound)
    (some : bytes ≠ []) (front : bytes <+: head.bytes) (short : bytes.length < head.bytes.length)
    (fits : head.bytes.length ≤ poolCapacity) (grown : seen ≤ bytes.length) (behind : Bytes) :
    ∃ after, worker.step (.peek (.data bytes) behind) = Option.some after ∧ Refused after ∧
      ∀ result further, after.step (.peek result further) = Option.none := by
  have next := looked.next grown (by omega)
  have stepped := looked.look some front short fits grown behind
  have still : (worker.behindLook bytes).shared.Sound := sound
  obtain ⟨after, refused, _, _⟩ := refuse_ends still
  obtain ⟨phase, calls, _⟩ := refuse_cases refused
  rw [if_pos rfl, refused] at stepped
  refine ⟨after, stepped, ⟨Or.inl phase, ?_, ?_⟩, ?_⟩
  · rw [calls, responses_append, next.silent]
    rfl
  · rw [calls, piecesTaken_append, next.reading.taken]
    rfl
  · intro result further
    unfold Worker.step
    rw [phase]

/-- Look by look, with as many as there have been. -/
theorem trickles_end {peeks : List (Bytes × Bytes)} (trickles : Trickles head.bytes seen peeks)
    (looked : Looked requests count seen worker) (sound : worker.shared.Sound) (few : count < 5)
    (fits : head.bytes.length ≤ poolCapacity) :
    LooksEnd requests worker (looks peeks) (count + peeks.length) := by
  induction trickles generalizing count worker with
  | nil seen => exact .looked few worker seen .start looked
  | @cons seen bytes behind later some front short grown rest inductionHypothesis =>
    have stepped := looked.look some front short fits grown behind
    by_cases fifth : count = 4
    · subst fifth
      obtain ⟨after, stepped, refused, ended⟩ :=
        looked.gives_up sound some front short fits grown behind
      cases later with
      | nil => exact .refused rfl after (Runs.Run.start.next trivial stepped) refused
      | cons another others =>
        refine .never (by rw [List.length_cons, List.length_cons]; omega) fun final run => ?_
        obtain ⟨middle, first, rest⟩ := run.first
        obtain rfl : after = middle := Option.some.inj (stepped.symm.trans first)
        obtain ⟨_, second, _⟩ := rest.first
        rw [ended] at second
        cases second
    · rw [if_neg (by omega)] at stepped
      have next := looked.next grown (by omega)
      have total : count + ((bytes, behind) :: later).length = count + 1 + later.length := by
        rw [List.length_cons]
        omega
      have first : Runs.Run step Runs.anywhere worker [.peek (.data bytes) behind]
          (worker.behindLook bytes) := Runs.Run.start.next trivial stepped
      rw [total]
      cases inductionHypothesis next sound (by omega) with
      | looked few after last run looked => exact .looked few after last (first.append run) looked
      | refused five after run refused => exact .refused five after (first.append run) refused
      | never many none =>
        refine .never many fun final run => ?_
        obtain ⟨middle, taken, rest⟩ := run.first
        obtain rfl : worker.behindLook bytes = middle :=
          Option.some.inj (stepped.symm.trans taken)
        exact none final rest

end Looking

/-- What has given up sends what it may of the response, and cleans up. -/
theorem Refused.step {worker after : Worker} {answer : Answer} (refused : Refused worker)
    (stepped : worker.step answer = some after) : Refused after := by
  obtain ⟨phase, noted, untaken⟩ := refused
  cases step_taken stepped with
  | refusing _ step =>
    obtain ⟨_, _, _, _, _, cleanedUp, calls, _⟩ := sendRefusal_cases step
    refine ⟨Or.inr cleanedUp, ?_, ?_⟩
    · rw [calls, responses_append, noted]
      rfl
    · rw [calls, piecesTaken_append, untaken]
      rfl
  | looping inside => rcases phase with phase | phase <;> simp [phase, Phase.InLoop] at inside
  | serving other | sending other | sendingFile other =>
    rcases phase with phase | phase <;> simp [phase] at other

/-- A call that stands at its first bytes with the whole batch there. -/
theorem Looked.batched {files : FileSystem} {requests : List CompleteRequest} {count seen : Nat}
    {worker : Worker} (looked : Looked requests count seen worker) : Batched files requests worker :=
  .reading (.peeking [] requests rfl looked.phase looked.reading (by simp))
    (Or.inl (looked.phase ▸ trivial)) looked.silent

/-- No send would block in what goes on so. -/
theorem succeeds_flows {files : FileSystem} {stream : Bytes} {earlier trace : List Answer}
    {middle worker : Worker} (smooth : ¬ Stalled earlier)
    (run : Runs.Run step (Succeeds files stream) middle trace worker) :
    ¬ Stalled (earlier ++ trace) := by
  apply run.induct (fun trace _ => ¬ Stalled (earlier ++ trace)) (by rwa [List.append_nil])
  intro trace before answer after _ flows allowed _
  rw [← List.append_assoc, stalled_append]
  rintro (stalled | rfl)
  · exact flows stalled
  · exact allowed.2

/-- A call that goes on with the whole batch from there, and has ended, has answered it. -/
theorem Looked.answers {batch : Batch} {count seen descriptor : Nat} {shared : Shared}
    (sound : shared.Sound) {earlier trace : List Answer} {middle worker : Worker}
    (looked : Looked batch.requests count seen middle)
    (before : Runs.Run step Runs.anywhere (start descriptor shared) earlier middle)
    (smooth : ¬ Stalled earlier)
    (run : Runs.Run step (Succeeds batch.files (requestStream batch.requests)) middle trace worker)
    (ended : worker.phase = .returned ∨ worker.phase = .cleanedUp) :
    worker.phase = .returned ∧
      piecesTaken worker.calls = batch.requests.map CompleteRequest.bytes ∧
      batch.Answer (written worker.calls) := by
  have batched : Batched batch.files batch.requests worker := by
    apply run.induct (fun _ reached => Batched batch.files batch.requests reached) looked.batched
    intro trace _ answer after reached batched allowed stepped
    have ready := run_ready sound (before.append (reached.weaken fun _ _ _ => trivial))
    exact batched.step batch.some batch.fits ready allowed stepped
  have whole := before.append (run.weaken fun _ _ _ => trivial)
  have returned := batched.returned ended
  obtain ⟨taken, path, isPath, bytes⟩ :=
    batched.answered whole (succeeds_flows smooth run) returned
  exact ⟨returned, taken, path, isPath, bytes⟩

/-- When the first head of a batch arrives in pieces, and behind the looks at these the rest of the
batch is there and sends succeed, the number of the looks decides. There are five at most. With
fewer the call goes on with the batch as if nothing had been: if it ends, it has taken the whole
batch and has written exactly the answer to it, and if the batch can be answered, it can end so.
With five it has written nothing but of the 400 response, has left all bytes on the socket, and
cleans up.

Each look finds nothing, because zeros lie behind what it finds; induct on the looks. -/
theorem slow_batch_is_answered_iff {batch : Batch} {head : CompleteRequest}
    {rest : List CompleteRequest} (split : batch.requests = head :: rest) {shared : Shared}
    (history : History shared) (descriptor : Nat) {peeks : List (Bytes × Bytes)}
    (trickles : Trickles head.bytes 0 peeks) :
    ((∃ middle, Runs.Run step Runs.anywhere (start descriptor shared) (looks peeks) middle) ↔
      peeks.length ≤ 5) ∧
    ∀ middle, Runs.Run step Runs.anywhere (start descriptor shared) (looks peeks) middle →
      (∀ trace worker, Runs.Run step (Succeeds batch.files (requestStream batch.requests)) middle
          trace worker → worker.phase = .returned ∨ worker.phase = .cleanedUp →
        (peeks.length < 5 ∧ worker.phase = .returned ∧
          piecesTaken worker.calls = batch.requests.map CompleteRequest.bytes ∧
          batch.Answer (written worker.calls)) ∨
        (peeks.length = 5 ∧ worker.phase = .cleanedUp ∧ piecesTaken worker.calls = [] ∧
          written worker.calls <+: badRequest)) ∧
      (peeks.length < 5 → batch.Answerable → ∃ trace worker,
        Runs.Run step (Succeeds batch.files (requestStream batch.requests)) middle trace worker ∧
          worker.phase = .returned) := by
  have sound := history.sound
  have fits : head.bytes.length ≤ poolCapacity := by
    have whole := batch.fits
    rw [split, requestStream_cons, List.length_append] at whole
    omega
  have smooth : ¬ Stalled (looks peeks) := by simp [Stalled, looks]
  have ends := trickles_end trickles (start_looked batch.requests descriptor shared) sound
    (Nat.zero_lt_succ 4) fits
  rw [Nat.zero_add] at ends
  cases ends with
  | looked few after last reached looked =>
    refine ⟨⟨fun _ => few.le, fun _ => ⟨after, reached⟩⟩, fun middle run => ?_⟩
    obtain rfl : after = middle := Option.some.inj (reached.executed.symm.trans run.executed)
    refine ⟨fun trace worker goes ended => Or.inl ⟨few, ?_⟩, fun _ answerable => ?_⟩
    · exact looked.answers sound run smooth goes ended
    · have place : At batch.requests after :=
        .peeking [] batch.requests rfl looked.phase looked.reading (by simp)
      exact answerable.returns_from sound run place (Or.inl (looked.phase ▸ trivial))
  | refused five after reached refused =>
    refine ⟨⟨fun _ => five.le, fun _ => ⟨after, reached⟩⟩, fun middle run => ?_⟩
    obtain rfl : after = middle := Option.some.inj (reached.executed.symm.trans run.executed)
    refine ⟨fun trace worker goes ended => Or.inr ⟨five, ?_⟩, fun few => absurd few five.not_lt⟩
    obtain ⟨phase, noted, untaken⟩ := goes.invariant Refused refused
      fun _ _ _ refused _ stepped => refused.step stepped
    have cleanedUp : worker.phase = .cleanedUp := by
      rcases ended with returned | cleanedUp
      · simp [returned] at phase
      · exact cleanedUp
    have whole := run.append (goes.weaken fun _ _ _ => trivial)
    rcases (run_progress whole).verdict with ⟨none, _⟩ | ⟨response, file, also, front, _⟩
    · simp [none] at noted
    · obtain ⟨rfl, rfl⟩ : badRequest = response ∧ none = file := by
        simpa using noted.symm.trans also
      have sent := front (succeeds_flows smooth goes)
      exact ⟨cleanedUp, untaken, by simpa [fileBytes] using sent⟩
  | never many none =>
    refine ⟨⟨fun reaches => ?_, fun few => absurd few (Nat.not_le.mpr many)⟩,
      fun middle run => absurd run (none middle)⟩
    obtain ⟨middle, run⟩ := reaches
    exact absurd run (none middle)

/-- What has given up can clean up. -/
theorem Refused.ends {files : FileSystem} (stream : Bytes) {worker : Worker}
    (refused : Refused worker) (sound : worker.shared.Sound) : ∃ trace after,
      Runs.Run Worker.step (Succeeds files stream) worker trace after ∧ after.phase = .cleanedUp := by
  rcases refused.refusing with refusing | cleanedUp
  · have short : badRequest.length ≤ responseMaxLen := by decide
    obtain ⟨after, sent⟩ := sendRefusal_ends sound short
    obtain ⟨_, _, _, _, _, cleanedUp, _⟩ := sendRefusal_cases sent
    have allowed : Succeeds files stream worker (.refuse (.failed .other)) := by
      simp [Succeeds, Delivers, refusing]
    have stepped : worker.step (.refuse (.failed .other)) = some after := by
      unfold Worker.step
      rw [refusing]
      exact sent
    exact ⟨_, after, Runs.Run.start.next allowed stepped, cleanedUp⟩
  · exact ⟨[], worker, .start, cleanedUp⟩

/-- Five looks at the first byte of a request for the root: it is refused. -/
theorem slow_batch_is_answered_iff_letter : ∃ middle trace worker,
    Runs.Run step Runs.anywhere (start 5 Shared.start)
      (looks (List.replicate 5 (ascii "G", []))) middle ∧
    Runs.Run step (Succeeds noFiles (requestStream rootBatch.requests)) middle trace worker ∧
    worker.phase = .cleanedUp ∧ piecesTaken worker.calls = [] ∧
    written worker.calls <+: badRequest := by
  have trickles : ∀ count seen, seen ≤ 1 →
      Trickles rootHead.bytes seen (List.replicate count (ascii "G", [])) := by
    intro count
    induction count with
    | zero => exact fun seen _ => .nil seen
    | succ count inductionHypothesis =>
      exact fun seen begun => .cons (by decide) (by decide) (by decide) begun
        (inductionHypothesis 1 le_rfl)
  have split : rootBatch.requests = rootHead :: [rootHead] := rfl
  obtain ⟨_, verdict⟩ :=
    slow_batch_is_answered_iff split History.start 5 (trickles 5 0 (Nat.zero_le 1))
  have ends := trickles_end (trickles 5 0 (Nat.zero_le 1))
    (start_looked rootBatch.requests 5 Shared.start) History.start.sound (by decide) (by decide)
  cases ends with
  | looked few => exact absurd few (by decide)
  | never many => exact absurd many (by decide)
  | refused _ middle run refused =>
    have ready := run_ready History.start.sound run
    obtain ⟨trace, worker, goes, cleanedUp⟩ :=
      refused.ends (requestStream rootBatch.requests) ready.sound
    obtain ⟨decided, _⟩ := verdict middle run
    rcases decided trace worker goes (Or.inr cleanedUp) with
      ⟨few, _⟩ | ⟨_, _, untaken, sent⟩
    · exact absurd few (by decide)
    · exact ⟨middle, trace, worker, run, goes, cleanedUp, untaken, sent⟩

end Worker

end VHttp
