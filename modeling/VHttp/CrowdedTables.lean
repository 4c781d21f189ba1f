import VHttp.RequestStream

/-!
# Header names of requests that wait together

The header table of a call has room for 32 names and is filled by all requests that the call
takes. Requests which are harmless one by one fill it together, and the parser that is to store
another name then probes a full table and does not return. So a call either goes on to serve
its batch or hangs, and which of the two is settled by the names of the batch alone: of the header
lines that are read, all of a request that has at most 64, and else the first 63.
-/

namespace VHttp.Worker

open VHttpRequest VHashTable

/-- The names of the header lines that are read of a batch of requests. -/
def headerNames (requests : List CompleteRequest) : Finset CString :=
  ((requests.flatMap (fun request => readHeaders request.headers)).map HeaderLine.name).toFinset

/-- A worker whose parser does not return. -/
structure Hangs (worker : Worker) : Prop where
  parsing : worker.phase = .parsing
  never : ∀ fresh stack, VHttpRequest.parse fresh stack worker.stringPool.block
    ⟨0, worker.stringPool.length⟩ worker.request = none

section Names

variable {requests parsed removed rest : List CompleteRequest} {request : CompleteRequest}
variable {worker after : Worker}

theorem headerNames_mono {first second : List CompleteRequest} (part : first ⊆ second) :
    headerNames first ⊆ headerNames second := by
  intro name member
  rw [headerNames, List.mem_toFinset, List.mem_map] at member ⊢
  obtain ⟨header, present, named⟩ := member
  obtain ⟨request, taken, line⟩ := List.mem_flatMap.mp present
  exact ⟨header, List.mem_flatMap.mpr ⟨request, part taken, line⟩, named⟩

/-- The insertions of a batch are under its names. -/
theorem insertions_names (requests : List CompleteRequest) :
    ((insertions requests).map Prod.fst).toFinset = headerNames requests := by
  rw [headerNames, insertions, List.map_flatMap, List.map_flatMap]
  simp only [List.map_map]
  rfl

/-- A batch that has been read had no more names than the table has room for. -/
theorem Reading.few (reading : Reading requests parsed removed worker) :
    (headerNames parsed).card ≤ 32 := by
  have inserted := (insertAll_returns_iff (insertions parsed)).mp ⟨_, reading.inserted⟩
  rwa [insertions_names] at inserted

/-- A worker that hangs has come to a request whose names the table has no room for. -/
theorem Reading.crowded (reading : Reading requests parsed (parsed ++ [request]) worker)
    (holding : Holding (request :: rest) worker) (hangs : Hangs worker) :
    32 < (headerNames (parsed ++ [request])).card := by
  by_contra few
  obtain ⟨table, inserted⟩ := reading.room (Nat.le_of_not_lt few)
  obtain ⟨result, _, isParsed, _⟩ := reading.parse holding inserted (fun _ => 0) (fun _ => ⟨0, 0⟩)
  rw [hangs.never] at isParsed
  cases isParsed

/-- Where the table has no room, the parser does not return. -/
theorem Holding.hangs (holding : Holding (request :: rest) worker) (phase : worker.phase = .parsing)
    (full : ¬ ∃ table, insertAll worker.request.headers
      ((readHeaders request.headers).map HeaderLine.entry) = some table) : Hangs worker := by
  refine ⟨phase, fun fresh stack => ?_⟩
  by_contra returns
  obtain ⟨result, isParsed⟩ := Option.ne_none_iff_exists'.mp returns
  exact full (holding.table isParsed)

/-- Where it has room, the parser returns and the next peek comes. -/
theorem Reading.parses (reading : Reading requests parsed (parsed ++ [request]) worker)
    (phase : worker.phase = .parsing) (holding : Holding (request :: rest) worker)
    {table : VHashTable Bytes} (inserted : insertAll worker.request.headers
      ((readHeaders request.headers).map HeaderLine.entry) = some table) :
    ∃ trace next, Runs.Run step (Receives (requestStream requests)) worker trace next ∧
      next.phase = .peeking ∧
      Reading requests (parsed ++ [request]) (parsed ++ [request]) next ∧
      Filled next.stringPool := by
  obtain ⟨result, next, isParsed, parsedNext, peeking, still, filled⟩ :=
    reading.parse holding inserted (fun _ => 0) (fun _ => ⟨0, 0⟩)
  have parses : worker.step (.parse result) = some next := by
    unfold Worker.step
    rw [phase]
    exact parsedNext
  have genuine : Receives (requestStream requests) worker (.parse result) := by
    refine ⟨?_, trivial⟩
    simp only [Delivers, phase]
    exact ⟨_, _, isParsed⟩
  exact ⟨_, next, .next .start genuine parses, peeking, still, filled⟩

/-- Where a call with a batch can be brought to: it serves the batch, or its parser hangs. -/
def Settles (requests : List CompleteRequest) (worker : Worker) : Prop :=
  ∃ trace final, Runs.Run step (Receives (requestStream requests)) worker trace final ∧
    ((final.phase = .serving ∧ Reading requests requests requests final) ∨ Hangs final)

theorem Settles.earlier {trace : List Answer} (settles : Settles requests after)
    (run : Runs.Run step (Receives (requestStream requests)) worker trace after) :
    Settles requests worker := by
  obtain ⟨more, final, goes, settled⟩ := settles
  exact ⟨trace ++ more, final, run.append goes, settled⟩

/-- When all has been parsed, the request is served. -/
theorem Reading.settles_last (reading : Reading requests requests requests worker)
    (phase : worker.phase = .peeking) (filled : Filled worker.stringPool) :
    Settles requests worker := by
  obtain ⟨next, blocks, received, serving, served⟩ := reading.serve_next phase filled
  exact ⟨_, next, .next .start received blocks, Or.inl ⟨serving, served⟩⟩

/-- Once a request has been taken off the socket, the call is settled by those that are left.

Induct on these: the parser hangs on the first one whose names find no room, and where none
does, the last one is followed by a peek that would block. -/
theorem Reading.settles (rest : List CompleteRequest) {parsed : List CompleteRequest}
    {request : CompleteRequest} {worker : Worker}
    (reading : Reading requests parsed (parsed ++ [request]) worker)
    (split : requests = parsed ++ request :: rest) (phase : worker.phase = .parsing)
    (holding : Holding (request :: rest) worker)
    (fits : (requestStream requests).length ≤ poolCapacity) : Settles requests worker := by
  induction rest generalizing parsed request worker with
  | nil =>
    by_cases room : ∃ table, insertAll worker.request.headers
        ((readHeaders request.headers).map HeaderLine.entry) = some table
    · obtain ⟨table, inserted⟩ := room
      obtain ⟨trace, next, parses, peeking, still, filled⟩ :=
        reading.parses phase holding inserted
      rw [← split] at still
      exact (still.settles_last peeking filled).earlier parses
    · exact ⟨[], worker, .start, Or.inr (holding.hangs phase room)⟩
  | cons another others inductionHypothesis =>
    by_cases room : ∃ table, insertAll worker.request.headers
        ((readHeaders request.headers).map HeaderLine.entry) = some table
    · obtain ⟨table, inserted⟩ := room
      have further : requests = (parsed ++ [request]) ++ another :: others := by
        rw [split]
        simp
      obtain ⟨first, next, parses, peeking, still, _⟩ := reading.parses phase holding inserted
      obtain ⟨second, later, takes, parsing, removed, held, _⟩ :=
        still.advance further peeking fits
      exact (inductionHypothesis removed further parsing held).earlier (parses.append takes)
    · exact ⟨[], worker, .start, Or.inr (holding.hangs phase room)⟩

/-- From every place in the stream the call can be brought to an end of the loop. -/
theorem At.settles (place : At requests worker)
    (early : worker.phase.InLoop ∨ worker.phase = .serving) (some : requests ≠ [])
    (fits : (requestStream requests).length ≤ poolCapacity) : Settles requests worker := by
  cases place with
  | peeking parsed rest split phase reading filled =>
    cases rest with
    | nil =>
      rw [List.append_nil] at split
      subst split
      exact reading.settles_last phase (filled some)
    | cons request rest =>
      obtain ⟨trace, next, takes, parsing, removed, holding, _⟩ := reading.advance split phase fits
      exact (removed.settles rest split parsing holding fits).earlier takes
  | discarding parsed request rest split phase reading holding =>
    obtain ⟨next, discards, available, parsing, removed, held, _⟩ :=
      reading.discard_step split phase holding
    exact (removed.settles rest split parsing held fits).earlier
      (Runs.Run.start.next available discards)
  | parsing parsed request rest split phase reading holding =>
    exact reading.settles rest split phase holding fits
  | serving phase reading => exact ⟨[], worker, .start, Or.inl ⟨phase, reading⟩⟩
  | left phase _ _ =>
    rcases early with inLoop | serving
    · exact absurd inLoop phase.1
    · exact absurd serving phase.2

/-- A call that only receives stays in the loop until it serves the batch. -/
theorem run_early {descriptor : Nat} {shared : Shared} {trace : List Answer}
    (some : requests ≠ []) (fits : (requestStream requests).length ≤ poolCapacity)
    (run : Runs.Run step (Receives (requestStream requests)) (start descriptor shared) trace worker) :
    At requests worker ∧ (worker.phase.InLoop ∨ worker.phase = .serving) := by
  have initial : At requests (start descriptor shared) :=
    .peeking [] requests rfl rfl (start_reading requests descriptor shared) (by simp)
  apply run.invariant (fun reached => At requests reached ∧
    (reached.phase.InLoop ∨ reached.phase = .serving)) ⟨initial, Or.inl trivial⟩
  rintro before answer after ⟨place, early⟩ ⟨delivered, receiving⟩ stepped
  obtain ⟨next, goesOn⟩ := place.step fits delivered stepped
  refine ⟨next, ?_⟩
  rcases early with inLoop | serving
  · apply goesOn inLoop some
    rintro behind rfl
    exact receiving
  · cases step_taken stepped with
    | looping inLoop => simp [serving, Phase.InLoop] at inLoop
    | serving _ _ => exact absurd receiving id
    | refusing other | sending other | sendingFile other => simp [serving] at other

/-- A place in which a parser hangs is that of a request with a name too many. -/
theorem At.crowded (place : At requests worker) (hangs : Hangs worker) :
    32 < (headerNames requests).card := by
  cases place with
  | parsing parsed request rest split phase reading holding =>
    apply (reading.crowded holding hangs).trans_le
    apply Finset.card_le_card
    apply headerNames_mono
    rw [split]
    intro one member
    simp only [List.mem_append, List.mem_cons, List.not_mem_nil, or_false] at member ⊢
    tauto
  | peeking _ _ _ phase | discarding _ _ _ _ phase | serving phase =>
    simp [hangs.parsing] at phase
  | left phase => simp [hangs.parsing, Phase.InLoop] at phase

end Names

/-- Every batch of complete requests that fits the string pool settles the call that takes it:
from every state of its receive loop the call can go on to serve the batch exactly if the header
lines that are read of the batch have at most 32 names, and with more it can go on to a state in
which the parser does not return.

The loop keeps its place in the stream. It is held up at no other point than the parser, and
there only when the table is full. -/
theorem batch_is_served_iff (requests : List CompleteRequest) (some : requests ≠ [])
    (fits : (requestStream requests).length ≤ poolCapacity) {descriptor : Nat} {shared : Shared}
    {trace : List Answer} {worker : Worker}
    (run : Runs.Run step (Receives (requestStream requests)) (start descriptor shared) trace
      worker) :
    ((∃ more final, Runs.Run step (Receives (requestStream requests)) worker more final ∧
      final.phase = .serving) ↔ (headerNames requests).card ≤ 32) ∧
    ((∃ more final, Runs.Run step (Receives (requestStream requests)) worker more final ∧
      Hangs final) ↔ 32 < (headerNames requests).card) := by
  obtain ⟨place, early⟩ := run_early some fits run
  have served : ∀ {more : List Answer} {final : Worker},
      Runs.Run step (Receives (requestStream requests)) worker more final →
      final.phase = .serving → (headerNames requests).card ≤ 32 := by
    intro more final goes serving
    obtain ⟨there, _⟩ := run_early some fits (run.append goes)
    cases there with
    | serving _ reading => exact reading.few
    | peeking _ _ _ other | discarding _ _ _ _ other | parsing _ _ _ _ other =>
      simp [serving] at other
    | left other => exact absurd serving other.2
  have hung : ∀ {more : List Answer} {final : Worker},
      Runs.Run step (Receives (requestStream requests)) worker more final →
      Hangs final → 32 < (headerNames requests).card := by
    intro more final goes hangs
    exact (run_early some fits (run.append goes)).1.crowded hangs
  obtain ⟨more, final, goes, settled⟩ := place.settles early some fits
  constructor
  · constructor
    · rintro ⟨_, _, there, serving⟩
      exact served there serving
    · intro few
      rcases settled with ⟨serving, _⟩ | hangs
      · exact ⟨more, final, goes, serving⟩
      · exact absurd (hung goes hangs) (Nat.not_lt.mpr few)
  · constructor
    · rintro ⟨_, _, there, hangs⟩
      exact hung there hangs
    · intro crowded
      rcases settled with ⟨serving, _⟩ | hangs
      · exact absurd (served goes serving) (Nat.not_le.mpr crowded)
      · exact ⟨more, final, goes, hangs⟩

/-- A header line named by a letter. -/
def letterLine (index : Fin 34) : HeaderLine where
  key := [65 + UInt8.ofNat index]
  value := [49]
  named := List.cons_ne_nil _ _
  keyClean := by revert index; decide
  valueClean := by decide
  printed := ⟨49, by decide, by decide⟩

/-- A request for the root with seventeen such lines. -/
def letterHead (first : Fin 17 → Fin 34) : CompleteRequest :=
  { rootHead with headers := (List.finRange 17).map (fun index => letterLine (first index)) }

/-- The requests with the first seventeen letters, and with those behind them. -/
def firstLetters : CompleteRequest := letterHead (Fin.castLE (by decide))
def lastLetters : CompleteRequest := letterHead (Fin.natAdd 17)

/-- Each of the two is served when it comes alone, and together they hang the server. -/
theorem batch_is_served_iff_letters :
    (∃ trace worker, Runs.Run step (Receives (requestStream [firstLetters]))
      (start 5 Shared.start) trace worker ∧ worker.phase = .serving) ∧
    (∃ trace worker, Runs.Run step (Receives (requestStream [lastLetters]))
      (start 5 Shared.start) trace worker ∧ worker.phase = .serving) ∧
    ∃ trace worker, Runs.Run step (Receives (requestStream [firstLetters, lastLetters]))
      (start 5 Shared.start) trace worker ∧ Hangs worker :=
  ⟨(batch_is_served_iff [firstLetters] (by simp) (by decide) .start).1.mpr (by decide),
    (batch_is_served_iff [lastLetters] (by simp) (by decide) .start).1.mpr (by decide),
    (batch_is_served_iff [firstLetters, lastLetters] (by simp) (by decide) .start).2.mpr (by decide)⟩

end VHttp.Worker
