import VHttp.RegisteredConnections

/-!
# Whom an event reaches

An event carries an index and no descriptor. It reaches the connection that the slot with this
index holds when the event is handled, which need not be the one that epoll_wait has reported:
the slot of a connection that was cleaned up is given to the next client, while the old
descriptor is still open and registered under it, so that a hang-up of the old peer closes the
new client. Within one batch, too, a slot can change hands before a later event is handled.

Beside the loop stand the descriptors of its pending events, in their order. No branch reads
them; they tell who has reported.
-/

namespace VHttp.EventLoop

variable {before after server : Server} {action : Action} {calls : List Syscall}

/-- Slots and registrations fit: every slot keeps its own index, an open connection is registered
under its slot and nobody is in the slot whose index means the listening socket, and what a
registration leads to, if it is an open connection, is the one that is registered. (Descriptor 1
may be closed behind the back of its connection.) -/
structure Slotted (server : Server) : Prop where
  identified : Identified server
  addressed : Addressed server
  unlisted : ∀ descriptor, ¬ server.ServesAt serverIndex descriptor
  entries : ∀ entry ∈ server.kernel.registered, ∀ other,
    server.ServesAt entry.2 other → other = entry.1

/-- A client is stored under its slot's own index, as `IndexKept` says, and in a slot under whose
index nothing is registered. -/
def Vacated (server : Server) (action : Action) : Prop :=
  IndexKept server action ∧ ∀ descriptor, Accepts server action descriptor →
    ∀ slot, destination server.connections = some slot →
      ∀ entry ∈ server.kernel.registered, entry.2 ≠ slot

/-- The pending events whose hang-up stage is over. -/
def Phase.begun : Phase → Nat
  | .handling .hangUp _ => 0
  | _ => 1

/-- The loop, and the descriptors that its pending events were reported for. -/
structure ReportedLoop where
  server : Server
  reporters : List Nat

namespace ReportedLoop

/-- The state before the first epoll_wait. -/
def start (capacity listener : Nat) (own : Finset Nat) : ReportedLoop :=
  ⟨EventLoop.start capacity listener own, []⟩

/-- A wait brings reporters, and an event that is done takes its own away. -/
def reportersAfter (reporters : List Nat) (done : Nat) : Action → List Nat
  | .wait reports => reports.map Report.descriptor
  | _ => reporters.drop done

/-- One step of the loop. -/
def step (state : ReportedLoop) (action : Action) : Option ReportedLoop := do
  let server ← EventLoop.step state.server action
  let done := state.server.phase.pending.length - server.phase.pending.length
  pure ⟨server, reportersAfter state.reporters done action⟩

/-- The pending events with their reporters. -/
def reported (state : ReportedLoop) : List (Event × Nat) :=
  state.server.phase.pending.zip state.reporters

/-- The reported events whose hang-up stage is still to come. -/
def upcoming (state : ReportedLoop) : List (Event × Nat) :=
  state.reported.drop state.server.phase.begun

/-- Slots and registrations fit, every pending event has its reporter, and what it leads to, if it
is an open connection, is the one that has reported. -/
structure Aimed (state : ReportedLoop) : Prop where
  slotted : Slotted state.server
  matched : state.reporters.length = state.server.phase.pending.length
  reached : ∀ pair ∈ state.reported, ∀ other,
    state.server.ServesAt pair.1.index other → other = pair.2

end ReportedLoop

/-! ## What a step does to the registrations -/

/-- The slot in which an accept stores its client is the one it looked for. -/
theorem Effect.destination {capacity slot descriptor : Nat}
    (effect : Effect before action after calls) (allocated : Allocated capacity before)
    (called : .accepted descriptor ∈ calls) (stored : StoredAt descriptor before after slot) :
    destination before.connections = some slot := by
  cases effect with
  | reused other target index old _ _ first read _ written _ =>
    obtain rfl : descriptor = other := by simpa using called
    obtain ⟨held, closed⟩ := firstClosed_some first read
    obtain rfl := stored.unique (.of_reused held closed written)
    simp [EventLoop.destination, first]
  | appended other _ _ none room written _ =>
    obtain rfl : descriptor = other := by simpa using called
    obtain rfl := stored.unique (.of_appended allocated room written)
    simp [EventLoop.destination, none, room]
  | turnedAway other _ _ none _ sameConnections _ =>
    obtain ⟨client, _, isOpen, read, _⟩ := stored.client
    have used := stored.used
    rw [sameConnections] at read used
    rcases stored.available with next | ⟨old, held, closed⟩
    · omega
    · rw [Option.some.inj (held.2.symm.trans read), isOpen] at closed
      cases closed
  | _ => simp at called

/-- A registration after a step was there before, and has not been closed, or is that of the
client just accepted. -/
theorem Effect.entries (effect : Effect before action after calls) {entry : Nat × Nat}
    (member : entry ∈ after.kernel.registered) :
    entry ∈ before.kernel.registered ∨ (.added entry.1 entry.2 ∈ calls) := by
  cases effect with
  | unchanged _ sameKernel => exact Or.inl (sameKernel ▸ member)
  | flagged _ _ _ _ _ _ _ _ _ sameKernel => exact Or.inl (sameKernel ▸ member)
  | hungUp _ _ _ _ _ _ _ _ closed =>
    rw [closed] at member
    exact Or.inl (List.mem_filter.mp (List.mem_filter.mp member).1).1
  | turnedAway _ _ _ _ _ _ closed =>
    rw [closed] at member
    exact Or.inl (List.mem_filter.mp member).1
  | served _ _ _ _ file _ _ _ _ _ _ _ _ _ kept =>
    rw [kept] at member
    cases file <;> exact Or.inl member
  | cleanedUp _ _ _ file _ _ _ _ _ _ closed =>
    rw [closed] at member
    cases file <;> exact Or.inl (List.mem_filter.mp member).1
  | reused descriptor _ index _ _ _ _ _ _ _ opened =>
    rw [opened] at member
    rcases List.mem_append.mp member with known | new
    · exact Or.inl known
    · obtain rfl := List.mem_singleton.mp new
      exact Or.inr (List.mem_cons_of_mem _ List.mem_cons_self)
  | appended descriptor _ _ _ _ _ opened =>
    rw [opened] at member
    rcases List.mem_append.mp member with known | new
    · exact Or.inl known
    · obtain rfl := List.mem_singleton.mp new
      exact Or.inr (List.mem_cons_of_mem _ List.mem_cons_self)

/-- An accept that registers its client forgets no registration. -/
theorem Effect.keeps_entries (effect : Effect before action after calls) {descriptor index : Nat}
    (added : .added descriptor index ∈ calls) {entry : Nat × Nat}
    (member : entry ∈ before.kernel.registered) : entry ∈ after.kernel.registered := by
  cases effect with
  | reused _ _ _ _ _ _ _ _ _ _ opened => exact opened ▸ List.mem_append_left _ member
  | appended _ _ _ _ _ _ opened => exact opened ▸ List.mem_append_left _ member
  | _ => simp at added

/-- Where no client could be stored, whoever is served is who was served. -/
theorem Effect.reached {capacity index reporter : Nat} (effect : Effect before action after calls)
    (allocated : Allocated capacity before) (positioned : Positioned before)
    (vacated : Vacated before action)
    (accepted : ∀ descriptor, Accepts before action descriptor → .accepted descriptor ∈ calls)
    (taken : (∃ descriptor, Accepts before action descriptor) →
      index = serverIndex ∨ ∃ descriptor, (descriptor, index) ∈ before.kernel.registered)
    (reached : ∀ other, before.ServesAt index other → other = reporter) :
    ∀ other, after.ServesAt index other → other = reporter := by
  intro other serves
  cases effect.stays allocated positioned serves with
  | served served _ => exact reached other served
  | accepted _ accepts _ stored _ =>
    have chosen := effect.destination allocated (accepted other accepts) stored
    rcases taken ⟨other, accepts⟩ with listening | ⟨descriptor, known⟩
    · exact absurd listening (vacated.1 other accepts index chosen).1
    · exact absurd rfl (vacated.2 other accepts index chosen (descriptor, index) known)

/-- A step that meets the condition keeps slots and registrations fitting. -/
theorem Effect.slotted {capacity : Nat} (effect : Effect before action after calls)
    (allocated : Allocated capacity before) (positioned : Positioned before)
    (tracked : Tracked before.kernel) (slotted : Slotted before) (vacated : Vacated before action)
    (accepted : ∀ descriptor, Accepts before action descriptor → .accepted descriptor ∈ calls) :
    Slotted after where
  identified := (effect.indexed allocated slotted.identified tracked vacated.1).identified
  addressed := effect.addressed allocated slotted.identified tracked positioned vacated.1
    slotted.addressed
  unlisted := by
    intro descriptor serves
    cases effect.stays allocated positioned serves with
    | served served _ => exact slotted.unlisted descriptor served
    | accepted _ accepts _ stored _ =>
      have chosen := effect.destination allocated (accepted descriptor accepts) stored
      exact (vacated.1 descriptor accepts serverIndex chosen).1 rfl
  entries := by
    rintro ⟨descriptor, index⟩ member other serves
    rcases effect.entries member with known | added
    · exact effect.reached allocated positioned vacated accepted
        (fun _ => Or.inr ⟨descriptor, known⟩) (slotted.entries _ known) other serves
    · obtain ⟨stored, _, _⟩ := (effect.indexed allocated slotted.identified tracked
        vacated.1).addressed descriptor index added
      obtain ⟨client, rfl, _, read, _⟩ := stored.client
      obtain ⟨connection, held, _, rfl⟩ := serves
      rw [Option.some.inj (held.2.symm.trans read)]

/-- The condition is also necessary. -/
theorem Effect.vacancy_needed {capacity : Nat} (effect : Effect before action after calls)
    (allocated : Allocated capacity before) (tracked : Tracked before.kernel)
    (accepted : ∀ descriptor, Accepts before action descriptor → .accepted descriptor ∈ calls)
    (slotted : Slotted after) : Vacated before action := by
  -- What the state behind an accept tells of the slot that the client went to.
  have stores : ∀ descriptor slot index, .added descriptor index ∈ calls →
      descriptor ∉ before.kernel.opened → StoredAt descriptor before after slot →
        slot ≠ serverIndex ∧ ∀ entry ∈ before.kernel.registered, entry.2 ≠ slot := by
    intro descriptor slot index added fresh stored
    obtain ⟨client, rfl, isOpen, read, _⟩ := stored.client
    have serves : after.ServesAt slot client.fileDescriptor :=
      ⟨client, ⟨stored.used, read⟩, isOpen, rfl⟩
    constructor
    · rintro rfl
      exact slotted.unlisted _ serves
    · rintro entry member rfl
      have same := slotted.entries entry (effect.keeps_entries added member) _ serves
      exact fresh (same ▸ tracked entry member)
  have needed : ∀ descriptor, Accepts before action descriptor → ∀ slot,
      EventLoop.destination before.connections = some slot →
        (slot ≠ serverIndex ∧
          (before.connections.count = before.connections.capacity → slot = 0)) ∧
        ∀ entry ∈ before.kernel.registered, entry.2 ≠ slot := by
    intro descriptor accepts slot chosen
    have called := accepted descriptor accepts
    cases effect with
    | reused other target index old _ fresh first read rule written _ =>
      obtain rfl : target = slot := by simpa [EventLoop.destination, first] using chosen
      obtain ⟨held, closed⟩ := firstClosed_some first read
      have stored := StoredAt.of_reused held closed written
      obtain ⟨reachable, vacant⟩ := stores other target index (by simp) fresh stored
      refine ⟨⟨reachable, fun full => ?_⟩, vacant⟩
      -- At full capacity the client brings index zero along, and the slot keeps its own.
      obtain ⟨client, _, _, placed, _⟩ := stored.client
      obtain ⟨found, there, same⟩ := slotted.identified target stored.used
      have inside := (List.getElem?_eq_some_iff.mp read).1
      rw [written] at there
      simp only [Server.write, List.getElem?_set_self inside, Option.some.injEq] at there
      subst there
      rw [← same, rule, if_pos full]
    | appended other _ fresh none room written _ =>
      obtain rfl : before.connections.count = slot := by
        simpa [EventLoop.destination, none, room] using chosen
      obtain ⟨reachable, vacant⟩ := stores other _ before.connections.count (by simp) fresh
        (.of_appended allocated room written)
      exact ⟨⟨reachable, fun full => absurd full room⟩, vacant⟩
    | turnedAway _ _ _ none full _ _ =>
      simp [EventLoop.destination, none, if_pos full] at chosen
    | _ => simp at called
  exact ⟨fun descriptor accepts slot chosen => (needed descriptor accepts slot chosen).1,
    fun descriptor accepts slot chosen => (needed descriptor accepts slot chosen).2⟩

/-! ## What a step does to the pending events -/

/-- How the position in the loop moves. -/
inductive Advances (kernel : Kernel) (before : Phase) : Action → Phase → Prop where
  | waits (reports : List Report) (events : List Event) (waiting : before = .waiting)
      (apart : (reports.map Report.descriptor).Nodup)
      (fetched : reports.mapM (eventOf kernel) = some events) :
      Advances kernel before (.wait reports) (.handling .hangUp events)
  | hangsUp (event : Event) (rest : List Event) (position : before = .handling .hangUp (event :: rest)) :
      Advances kernel before .hangUp (.handling .read (event :: rest))
  | reads (accepted : Option Nat) (event : Event) (rest : List Event)
      (position : before = .handling .read (event :: rest)) :
      Advances kernel before (.read accepted) (.handling .write (event :: rest))
  | skips (event : Event) (rest : List Event) (position : before = .handling .read (event :: rest)) :
      Advances kernel before (.read none) (.handling .hangUp rest)
  | writes (event : Event) (rest : List Event) (position : before = .handling .write (event :: rest)) :
      Advances kernel before .write (.handling .hangUp rest)
  | processes (count : Nat) (position : before = .handling .hangUp []) :
      Advances kernel before .process (.processing 0 count)
  | serves (outcome : Outcome) (slot count : Nat) (position : before = .processing slot count) :
      Advances kernel before (.serve outcome) (.processing (slot + 1) count)
  | finishes (slot count : Nat) (position : before = .processing slot count) :
      Advances kernel before .finish .waiting

theorem step_advances (taken : stepCalls before action = some (after, calls)) :
    Advances before.kernel before.phase action after.phase := by
  cases action with
  | wait reports =>
    simp only [stepCalls, reportable, Option.bind_eq_bind, Option.bind_eq_some_iff,
      Option.guard_eq_some', Option.pure_def, Option.some.injEq, Prod.mk.injEq, Bool.and_eq_true,
      decide_eq_true_eq] at taken
    obtain ⟨_, ⟨waiting, ⟨apart, _⟩, _⟩, events, fetched, rfl, _⟩ := taken
    exact .waits reports events waiting apart fetched
  | hangUp =>
    simp only [stepCalls] at taken
    split at taken
    · rename_i event rest position
      simp only [Option.bind_eq_bind, Option.bind_eq_some_iff, Option.pure_def, Option.some.injEq,
        Prod.mk.injEq, Prod.exists] at taken
      obtain ⟨_, _, _, rfl, _⟩ := taken
      exact .hangsUp event rest position
    · cases taken
  | read accepted =>
    simp only [stepCalls] at taken
    split at taken
    · rename_i event rest position
      split at taken
      · split at taken
        · cases accepted with
          | none =>
            obtain ⟨rfl, _⟩ := Prod.mk.inj (Option.some.inj taken)
            exact .skips event rest position
          | some descriptor =>
            simp only [Option.bind_eq_bind, Option.bind_eq_some_iff, Option.pure_def,
              Option.some.injEq, Prod.mk.injEq, Prod.exists] at taken
            obtain ⟨_, _, _, _, _, rfl, _⟩ := taken
            exact .reads (some descriptor) event rest position
        · simp only [Option.bind_eq_bind, Option.bind_eq_some_iff, Option.pure_def,
            Option.some.injEq, Prod.mk.injEq] at taken
          obtain ⟨_, _, rfl, _⟩ := taken
          exact .reads accepted event rest position
      · obtain ⟨rfl, _⟩ := Prod.mk.inj (Option.some.inj taken)
        exact .reads accepted event rest position
    · cases taken
  | write =>
    simp only [stepCalls] at taken
    split at taken
    · rename_i event rest position
      split at taken
      · simp only [Option.bind_eq_bind, Option.bind_eq_some_iff, Option.pure_def,
          Option.some.injEq, Prod.mk.injEq] at taken
        obtain ⟨_, _, rfl, _⟩ := taken
        exact .writes event rest position
      · obtain ⟨rfl, _⟩ := Prod.mk.inj (Option.some.inj taken)
        exact .writes event rest position
    · cases taken
  | process =>
    simp only [stepCalls] at taken
    split at taken
    · rename_i position
      obtain ⟨rfl, _⟩ := Prod.mk.inj (Option.some.inj taken)
      exact .processes before.connections.count position
    · cases taken
  | serve outcome =>
    simp only [stepCalls] at taken
    split at taken
    · rename_i slot count position
      simp only [Option.bind_eq_bind, Option.bind_eq_some_iff, Option.pure_def,
        Option.some.injEq, Prod.mk.injEq, Prod.exists] at taken
      obtain ⟨_, _, _, _, _, rfl, _⟩ := taken
      exact .serves outcome slot count position
    · cases taken
  | finish =>
    simp only [stepCalls] at taken
    split at taken
    · rename_i slot count position
      simp only [Option.bind_eq_bind, Option.bind_eq_some_iff, Option.pure_def,
        Option.some.injEq, Prod.mk.injEq] at taken
      obtain ⟨_, _, rfl, _⟩ := taken
      exact .finishes slot count position
    · cases taken

/-- Where no batch is fetched, events are taken from the front, each behind its stages. -/
theorem Advances.drops {kernel : Kernel} {before after : Phase}
    (moves : Advances kernel before action after) (other : ∀ reports, action ≠ .wait reports) :
    after.pending = before.pending.drop (before.pending.length - after.pending.length) ∧
      before.begun ≤ before.pending.length - after.pending.length + after.begun := by
  cases moves with
  | waits reports => exact absurd rfl (other reports)
  | hangsUp event rest position => simp [position, Phase.pending, Phase.begun]
  | reads _ event rest position => simp [position, Phase.pending, Phase.begun]
  | skips event rest position => simp [position, Phase.pending, Phase.begun]
  | writes event rest position => simp [position, Phase.pending, Phase.begun]
  | processes _ position => simp [position, Phase.pending, Phase.begun]
  | serves _ _ _ position => simp [position, Phase.pending, Phase.begun]
  | finishes _ _ position => simp [position, Phase.pending, Phase.begun]

/-- Behind the hang-up stage of an event is its readable stage. -/
theorem Advances.behind_hangUp {kernel : Kernel} {before after : Phase} {event : Event}
    {rest : List Event} (moves : Advances kernel before action after)
    (position : before = .handling .hangUp (event :: rest)) :
    after = .handling .read (event :: rest) := by
  cases moves with
  | hangsUp first later again =>
    rw [position] at again
    obtain ⟨rfl, rfl⟩ := List.cons.inj (Phase.handling.inj again).2
    rfl
  | waits _ _ other => simp [position] at other
  | reads _ _ _ other => simp [position] at other
  | skips _ _ other => simp [position] at other
  | writes _ _ other => simp [position] at other
  | processes _ other => simp [position] at other
  | serves _ _ _ other => simp [position] at other
  | finishes _ _ other => simp [position] at other

/-- The events of a wait are those of the registrations of its reports, one for each. -/
theorem fetched_reported {kernel : Kernel} {reports : List Report} {events : List Event}
    (fetched : reports.mapM (eventOf kernel) = some events) :
    (reports.map Report.descriptor).length = events.length ∧
      ∀ pair ∈ events.zip (reports.map Report.descriptor),
        kernel.registered.lookup pair.2 = some pair.1.index := by
  induction reports generalizing events with
  | nil =>
    obtain rfl : [] = events := Option.some.inj fetched
    simp
  | cons report rest inductionHypothesis =>
    simp only [List.mapM_cons, Option.bind_eq_bind, Option.bind_eq_some_iff, Option.pure_def,
      Option.some.injEq] at fetched
    obtain ⟨first, fetchedFirst, later, fetchedLater, rfl⟩ := fetched
    obtain ⟨sameLength, linked⟩ := inductionHypothesis fetchedLater
    refine ⟨by simpa using sameLength, ?_⟩
    simp only [List.map_cons, List.zip_cons_cons, List.mem_cons]
    rintro pair (rfl | member)
    · simp only [eventOf, Option.map_eq_some_iff] at fetchedFirst
      obtain ⟨index, found, rfl⟩ := fetchedFirst
      exact found
    · exact linked pair member

namespace ReportedLoop

variable {old new : ReportedLoop}

/-- What a run keeps under the condition: an event whose hang-up stage is to come is that of a
registration that still stands. -/
structure Directed (capacity : Nat) (state : ReportedLoop) : Prop where
  allocated : Allocated capacity state.server
  positioned : Positioned state.server
  tracked : Tracked state.server.kernel
  once : state.reporters.Nodup
  linked : ∀ pair ∈ state.upcoming,
    state.server.kernel.registered.lookup pair.2 = some pair.1.index
  aimed : Aimed state

theorem step_spec (taken : step old action = some new) : ∃ calls,
    stepCalls old.server action = some (new.server, calls) ∧
      new.reporters = reportersAfter old.reporters
        (old.server.phase.pending.length - new.server.phase.pending.length) action := by
  simp only [step, Option.bind_eq_bind, Option.bind_eq_some_iff, Option.pure_def,
    Option.some.injEq] at taken
  obtain ⟨server, stepped, rfl⟩ := taken
  obtain ⟨calls, made⟩ := step_calls stepped
  exact ⟨calls, made, rfl⟩

/-- What is reported behind a step: the events of a wait, or some of those before. -/
inductive Reports (old : ReportedLoop) (action : Action) (new : ReportedLoop) : Prop where
  | waits (reports : List Report) (is_wait : action = .wait reports)
      (apart : new.reporters.Nodup)
      (matched : new.reporters.length = new.server.phase.pending.length)
      (linked : ∀ pair ∈ new.reported,
        old.server.kernel.registered.lookup pair.2 = some pair.1.index)
  | remains (fewer : List.Sublist new.reporters old.reporters)
      (matched : old.reporters.length = old.server.phase.pending.length →
        new.reporters.length = new.server.phase.pending.length)
      (known : ∀ pair ∈ new.reported, pair ∈ old.reported)
      (coming : ∀ pair ∈ new.upcoming, pair ∈ old.upcoming)

theorem step_reports (taken : step old action = some new) : Reports old action new := by
  obtain ⟨calls, made, reporters⟩ := step_spec taken
  have moves := step_advances made
  by_cases is_wait : ∃ reports, action = .wait reports
  · obtain ⟨reports, rfl⟩ := is_wait
    generalize position : new.server.phase = phase at moves
    cases moves with
    | waits _ events waiting apart fetched =>
      obtain ⟨sameLength, linked⟩ := fetched_reported fetched
      have brought : new.reporters = reports.map Report.descriptor := reporters
      refine .waits reports rfl (brought ▸ apart) ?_ ?_
      · rw [brought, position]
        exact sameLength
      · unfold reported
        rw [brought, position]
        exact linked
  · have other : ∀ reports, action ≠ .wait reports := fun reports same => is_wait ⟨reports, same⟩
    obtain ⟨pending, begun⟩ := moves.drops other
    generalize old.server.phase.pending.length - new.server.phase.pending.length = done
      at reporters pending begun
    have dropped : new.reporters = old.reporters.drop done := by
      rw [reporters]
      cases action with
      | wait reports => exact absurd rfl (other reports)
      | _ => rfl
    have left : new.reported = old.reported.drop done := by
      unfold reported
      rw [dropped, pending, List.zip_eq_zipWith, List.zip_eq_zipWith, List.drop_zipWith]
    refine .remains (dropped ▸ List.drop_sublist _ _) (fun matched => ?_) (fun pair => ?_)
      (fun pair => ?_)
    · rw [dropped, pending, List.length_drop, List.length_drop, matched]
    · rw [left]
      exact fun member => List.mem_of_mem_drop member
    · unfold upcoming
      rw [left, List.drop_drop]
      exact fun member => List.drop_subset_drop_left _ begun member

/-- A registration that is looked up is there. -/
theorem mem_of_lookup {registered : List (Nat × Nat)} {descriptor index : Nat}
    (found : registered.lookup descriptor = some index) : (descriptor, index) ∈ registered := by
  obtain ⟨earlier, later, split, _⟩ := List.lookup_eq_some_iff.mp found
  simp [split]

/-- A step closes no descriptor whose hang-up is still to be handled: a hang-up closes its own
reporter, who has reported once. -/
theorem Directed.unclosed {capacity : Nat} (directed : Directed capacity old)
    (made : stepCalls old.server action = some (new.server, calls))
    (fewer : List.Sublist new.reporters old.reporters)
    (matched : new.reporters.length = new.server.phase.pending.length) {pair : Event × Nat}
    (known : pair ∈ old.upcoming) (coming : pair ∈ new.upcoming) : .closed pair.2 ∉ calls := by
  intro closed
  cases (step_effect made).2.1 with
  | hungUp event rest connection position hangUp read wasOpen _ _ =>
    have same : pair.2 = connection.fileDescriptor := by simpa using closed
    have below := directed.positioned.pending event
      (still_pending position (List.Subset.refl _) List.mem_cons_self) hangUp
    have further := (step_advances made).behind_hangUp position
    rw [further] at matched
    obtain ⟨reporter, others, split⟩ := List.exists_cons_of_length_eq_add_one matched
    have sameReporters : new.reporters = old.reporters := by
      apply fewer.eq_of_length
      rw [directed.aimed.matched, position, matched]
      rfl
    have head : (event, reporter) ∈ old.reported := by
      unfold reported
      rw [position, ← sameReporters, split]
      exact List.mem_cons_self
    have own := directed.aimed.reached _ head _ ⟨connection, ⟨below, read⟩, wasOpen, rfl⟩
    unfold upcoming reported at coming
    rw [further, split] at coming
    have later : pair.2 ∈ others := (List.of_mem_zip coming).2
    have once := directed.once
    rw [← sameReporters, split, List.nodup_cons] at once
    apply once.1
    rwa [same.trans own] at later
  | turnedAway descriptor _ fresh _ _ _ _ =>
    obtain rfl : pair.2 = descriptor := by simpa using closed
    exact fresh (directed.tracked _ (mem_of_lookup (directed.linked pair known)))
  | cleanedUp slot connection _ _ cleans _ _ _ _ _ _ =>
    obtain ⟨count, _, _, position, _⟩ := cleans
    unfold upcoming reported at known
    rw [position] at known
    simp [Phase.pending] at known
  | _ => simp at closed

/-- Every step under the condition keeps it all. -/
theorem Directed.step {capacity : Nat} (directed : Directed capacity old)
    (vacated : Vacated old.server action) (taken : step old action = some new) :
    Directed capacity new := by
  obtain ⟨calls, made, _⟩ := step_spec taken
  have effect := (step_effect made).2.1
  have accepted : ∀ descriptor, Accepts old.server action descriptor → .accepted descriptor ∈ calls :=
    fun descriptor accepts => accepts_calls accepts made
  have slotted := effect.slotted directed.allocated directed.positioned directed.tracked
    directed.aimed.slotted vacated accepted
  have allocated := effect.allocated directed.allocated
  have positioned := step_positioned directed.allocated directed.positioned made
  have tracked := effect.tracked directed.tracked
  cases step_reports taken with
  | waits reports is_wait apart matched linked =>
    subst is_wait
    have quiet : new.server.kernel = old.server.kernel := by
      simp only [stepCalls, Option.bind_eq_bind, Option.bind_eq_some_iff, Option.pure_def,
        Option.some.injEq, Prod.mk.injEq] at made
      obtain ⟨_, _, _, _, same, _⟩ := made
      rw [← same]
    refine ⟨allocated, positioned, tracked, apart, ?_, slotted, matched, ?_⟩
    · intro pair member
      rw [quiet]
      exact linked pair (List.mem_of_mem_drop member)
    · intro pair member
      apply slotted.entries (pair.2, pair.1.index)
      rw [quiet]
      exact mem_of_lookup (linked pair member)
  | remains fewer matched known coming =>
    have nowMatched := matched directed.aimed.matched
    refine ⟨allocated, positioned, tracked, directed.once.sublist fewer, ?_, slotted, nowMatched, ?_⟩
    · intro pair member
      exact effect.registered (directed.linked pair (coming pair member))
        (directed.unclosed made fewer nowMatched (coming pair member) member)
    · intro pair member
      apply effect.reached directed.allocated directed.positioned vacated accepted ?_
        (directed.aimed.reached pair (known pair member))
      rintro ⟨descriptor, _, event, rest, position, _, listening⟩
      -- The event that accepts is the listening socket's; the others are still to come.
      have there := known pair member
      unfold reported at there
      rw [position] at there
      cases brought : old.reporters with
      | nil => simp [brought] at there
      | cons reporter others =>
        rw [brought] at there
        rcases List.mem_cons.mp there with rfl | later
        · exact Or.inl listening
        · refine Or.inr ⟨pair.2, mem_of_lookup (directed.linked pair ?_)⟩
          unfold upcoming reported
          rw [position, brought]
          exact later

theorem start_directed {capacity listener : Nat} {own : Finset Nat} (listening : listener ∈ own) :
    Directed capacity (start capacity listener own) := by
  have nobody : ∀ slot descriptor, ¬ (start capacity listener own).server.ServesAt slot descriptor := by
    rintro slot descriptor ⟨connection, ⟨below, _⟩, _⟩
    exact absurd below (Nat.not_lt_zero _)
  have tracked : Tracked (start capacity listener own).server.kernel := by
    intro entry member
    obtain rfl := List.mem_singleton.mp member
    exact listening
  refine ⟨start_allocated _ _ _, start_positioned _ _ _, tracked, List.nodup_nil,
    by simp [upcoming, reported, start], ⟨?_, ?_, ?_, ?_⟩, rfl, by simp [reported, start]⟩
  · exact start_identified _ _ _
  · exact fun slot descriptor serves => absurd serves (nobody slot descriptor)
  · exact nobody serverIndex
  · exact fun entry _ other serves => absurd serves (nobody entry.2 other)

/-- A hang-up closes nobody but the connection that has reported it. -/
theorem Directed.closes {capacity descriptor : Nat} (directed : Directed capacity old)
    (made : stepCalls old.server .hangUp = some (after, calls))
    (closed : .closed descriptor ∈ calls) : old.reporters.head? = some descriptor := by
  cases (step_effect made).2.1 with
  | hungUp event rest connection position hangUp read wasOpen _ _ =>
    obtain rfl : descriptor = connection.fileDescriptor := by simpa using closed
    have below := directed.positioned.pending event
      (still_pending position (List.Subset.refl _) List.mem_cons_self) hangUp
    have matched := directed.aimed.matched
    rw [position] at matched
    obtain ⟨reporter, others, split⟩ := List.exists_cons_of_length_eq_add_one matched
    have head : (event, reporter) ∈ old.reported := by
      unfold reported
      rw [position, split]
      exact List.mem_cons_self
    have own := directed.aimed.reached _ head _ ⟨connection, ⟨below, read⟩, wasOpen, rfl⟩
    rw [split, own]
    rfl
  | turnedAway _ accepts =>
    obtain ⟨impossible, _⟩ := accepts
    cases impossible
  | cleanedUp _ _ _ _ cleans =>
    obtain ⟨_, _, impossible, _⟩ := cleans
    cases impossible
  | _ => simp at closed

/-- All along a run, slots and registrations fit, and every pending event leads to no open
connection but the one that it was reported for, exactly if every accept of the run stores its
client under the slot's own index and in a slot under whose index nothing is registered any more.
As long as that is so, a hang-up closes the connection that has hung up.

The second part of the condition fails for the slot of a connection that was cleaned up: its
descriptor stays registered. -/
theorem events_reach_who_reported_them_iff {capacity listener : Nat} {own : Finset Nat}
    (listening : listener ∈ own) {trace : List Action} {state : ReportedLoop}
    (run : Runs.Run step Runs.anywhere (start capacity listener own) trace state) :
    ((∀ earlier reached, earlier <+: trace →
        Runs.Run step Runs.anywhere (start capacity listener own) earlier reached → Aimed reached) ↔
      Runs.Run step (fun state => Vacated state.server) (start capacity listener own) trace state) ∧
    (Runs.Run step (fun state => Vacated state.server) (start capacity listener own) trace state →
      ∀ after calls descriptor, stepCalls state.server .hangUp = some (after, calls) →
        .closed descriptor ∈ calls → state.reporters.head? = some descriptor) := by
  constructor
  · apply Runs.Run.always_iff Aimed (Directed capacity) (start_directed listening)
      (fun _ directed => directed.aimed)
      (fun _ _ _ directed vacated taken => directed.step vacated taken) ?_ run
    intro before action after directed taken aimed
    obtain ⟨calls, made, _⟩ := step_spec taken
    exact (step_effect made).2.1.vacancy_needed directed.allocated directed.tracked
      (fun _ accepts => accepts_calls accepts made) aimed.slotted
  · intro vacated after calls descriptor made closed
    have directed := vacated.invariant (Directed capacity) (start_directed listening)
      (fun _ _ _ directed vacated taken => directed.step vacated taken)
    exact directed.closes made closed

/-- A client is accepted, sends something and is cleaned up; the next client is accepted into its
slot, and then the first one hangs up. -/
def untilStaleHangUp : List Action :=
  [.wait [⟨3, false, true, false⟩], .hangUp, .read (some 4), .write, .process,
    .serve (.returned none), .finish, .wait [⟨4, false, true, true⟩], .hangUp, .read none, .write,
    .process, .serve (.cleanup none), .finish, .wait [⟨3, false, true, false⟩], .hangUp,
    .read (some 5), .write, .process, .serve (.returned none), .finish, .wait [⟨4, true, false, false⟩]]

/-- The hang-up of the first client closes the second. -/
theorem events_reach_who_reported_them_iff_stale : ∃ state,
    Runs.Run step Runs.anywhere (start 2 3 {3}) untilStaleHangUp state ∧ state.reporters = [4] ∧
      (∃ after, stepCalls state.server .hangUp = some (after, [.removed 5, .closed 5])) ∧
      ¬ ∀ earlier reached, earlier <+: untilStaleHangUp →
        Runs.Run step Runs.anywhere (start 2 3 {3}) earlier reached → Aimed reached := by
  have reached : ∃ state, Runs.Run step Runs.anywhere (start 2 3 {3}) untilStaleHangUp state ∧
      state.reporters = [4] ∧
        (stepCalls state.server .hangUp).map Prod.snd = some [.removed 5, .closed 5] :=
    Runs.Run.reaches (fun state : ReportedLoop => state.reporters = [4] ∧
      (stepCalls state.server .hangUp).map Prod.snd = some [.removed 5, .closed 5]) (by decide)
  obtain ⟨state, run, reporters, closes⟩ := reached
  obtain ⟨⟨after, _⟩, made, rfl⟩ := Option.map_eq_some_iff.mp closes
  refine ⟨state, run, reporters, ⟨after, made⟩, fun aimed => ?_⟩
  obtain ⟨exactly, own⟩ := events_reach_who_reported_them_iff (by decide) run
  have reporter := own (exactly.mp aimed) after _ 5 made (by decide)
  rw [reporters] at reporter
  cases reporter

end ReportedLoop

end VHttp.EventLoop
