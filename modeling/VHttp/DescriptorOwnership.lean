import VHttp.ConnectionSlots

/-!
# Who owns which descriptor

Two places close a connection: the hang-up branch, and the cleanup label of the
worker. The first closes the descriptor of the slot it marks. The second closes
the descriptor whose number is the flag it has just set, so it is right for a
connection on descriptor 1 and for no other. As long as no worker leaves through
that label with another descriptor, the open descriptors are those of the process
and those of the open slots, each of one owner.

The view under which this is proved is the relation between open slots and
descriptors. Of a step it only matters whether it changes nothing there, takes one
pair away, or adds one for a fresh descriptor.
-/

namespace VHttp.EventLoop

variable {before after : Server} {action : Action} {calls : List Syscall}

/-- An open connection with this descriptor is in the slot. -/
def Server.ServesAt (server : Server) (slot descriptor : Nat) : Prop :=
  ∃ connection, server.Holds slot connection ∧ connection.closed = false ∧
    connection.fileDescriptor = descriptor

/-- Some open slot has this descriptor. -/
def Server.Serves (server : Server) (descriptor : Nat) : Prop :=
  ∃ slot, server.ServesAt slot descriptor

/-- A worker that leaves through its cleanup label serves descriptor 1. -/
def CleansOwn (server : Server) (action : Action) : Prop :=
  ∀ slot connection, CleansUp server action slot connection → connection.fileDescriptor = 1

/-! ## What a step does to the slots -/

theorem holds_write {slot tested : Nat} {new connection : TcpConnection}
    (written : after.connections = (before.write slot new).connections) :
    after.Holds tested connection ↔
      (tested = slot ∧ connection = new ∧ ∃ old, before.Holds slot old) ∨
        (tested ≠ slot ∧ before.Holds tested connection) := by
  unfold Server.Holds
  rw [written]
  simp only [Server.write]
  by_cases here : tested = slot
  · subst here
    by_cases inside : tested < before.connections.slots.length
    · rw [List.getElem?_set_self inside, Option.some.injEq, List.getElem?_eq_getElem inside]
      simp only [ne_eq, not_true_eq_false, false_and, or_false, true_and, Option.some.injEq,
        exists_and_left, exists_eq', and_true]
      constructor
      · rintro ⟨below, rfl⟩
        exact ⟨rfl, below⟩
      · rintro ⟨rfl, below⟩
        exact ⟨below, rfl⟩
    · have outside : before.connections.slots.length ≤ tested := Nat.le_of_not_lt inside
      have unread : (before.connections.slots.set tested new)[tested]? = none :=
        List.getElem?_eq_none (by simpa using outside)
      simp [unread, List.getElem?_eq_none outside]
  · rw [List.getElem?_set_ne (Ne.symm here)]
    simp [here]

theorem holds_push {capacity tested : Nat} {client connection : TcpConnection}
    (allocated : Allocated capacity before)
    (room : before.connections.count ≠ before.connections.capacity)
    (written : after.connections = before.connections.push client TcpConnection.zero) :
    after.Holds tested connection ↔
      (tested = before.connections.count ∧ connection = client) ∨
        before.Holds tested connection := by
  obtain ⟨inside, pushed⟩ := allocated.push client room
  unfold Server.Holds
  rw [written, pushed]
  simp only
  by_cases here : tested = before.connections.count
  · subst here
    rw [List.getElem?_set_self inside, Option.some.injEq]
    constructor
    · rintro ⟨_, rfl⟩
      exact Or.inl ⟨rfl, rfl⟩
    · rintro (⟨_, rfl⟩ | ⟨below, _⟩)
      · exact ⟨Nat.lt_succ_self _, rfl⟩
      · omega
  · rw [List.getElem?_set_ne (Ne.symm here)]
    constructor
    · rintro ⟨below, read⟩
      exact Or.inr ⟨by omega, read⟩
    · rintro (⟨last, _⟩ | ⟨below, read⟩)
      · exact absurd last here
      · exact ⟨by omega, read⟩

/-- A rewritten connection that keeps its descriptor and flag is served as before. -/
theorem servesAt_same {slot tested descriptor : Nat} {old new : TcpConnection}
    (read : before.connections.slots[slot]? = some old)
    (sameDescriptor : new.fileDescriptor = old.fileDescriptor) (sameClosed : new.closed = old.closed)
    (written : after.connections = (before.write slot new).connections) :
    after.ServesAt tested descriptor ↔ before.ServesAt tested descriptor := by
  unfold Server.ServesAt
  constructor
  · rintro ⟨connection, held, isOpen, same⟩
    rcases (holds_write written).mp held with ⟨rfl, rfl, previous, there⟩ | ⟨_, there⟩
    · obtain rfl : previous = old := Option.some.inj (there.2.symm.trans read)
      exact ⟨previous, there, sameClosed ▸ isOpen, sameDescriptor ▸ same⟩
    · exact ⟨connection, there, isOpen, same⟩
  · rintro ⟨connection, held, isOpen, same⟩
    by_cases here : tested = slot
    · subst here
      obtain rfl : connection = old := Option.some.inj (held.2.symm.trans read)
      exact ⟨new, (holds_write written).mpr (Or.inl ⟨rfl, rfl, connection, held⟩),
        sameClosed.trans isOpen, sameDescriptor.trans same⟩
    · exact ⟨connection, (holds_write written).mpr (Or.inr ⟨here, held⟩), isOpen, same⟩

/-- A slot marked closed is served no more; the others are as before. -/
theorem servesAt_closed {slot tested descriptor : Nat} {new : TcpConnection}
    (nowClosed : new.closed = true)
    (written : after.connections = (before.write slot new).connections) :
    after.ServesAt tested descriptor ↔ tested ≠ slot ∧ before.ServesAt tested descriptor := by
  unfold Server.ServesAt
  constructor
  · rintro ⟨connection, held, isOpen, same⟩
    rcases (holds_write written).mp held with ⟨_, rfl, _⟩ | ⟨different, there⟩
    · rw [nowClosed] at isOpen
      cases isOpen
    · exact ⟨different, connection, there, isOpen, same⟩
  · rintro ⟨different, connection, held, isOpen, same⟩
    exact ⟨connection, (holds_write written).mpr (Or.inr ⟨different, held⟩), isOpen, same⟩

/-- A client written over a closed slot is served there, next to the others. -/
theorem servesAt_reused {slot tested descriptor : Nat} {old client : TcpConnection}
    (held : before.Holds slot old) (closed : old.closed = true) (isOpen : client.closed = false)
    (written : after.connections = (before.write slot client).connections) :
    after.ServesAt tested descriptor ↔
      (tested = slot ∧ descriptor = client.fileDescriptor) ∨ before.ServesAt tested descriptor := by
  unfold Server.ServesAt
  constructor
  · rintro ⟨connection, there, stillOpen, same⟩
    rcases (holds_write written).mp there with ⟨here, rfl, _⟩ | ⟨_, earlier⟩
    · exact Or.inl ⟨here, same.symm⟩
    · exact Or.inr ⟨connection, earlier, stillOpen, same⟩
  · rintro (⟨rfl, rfl⟩ | ⟨connection, there, stillOpen, same⟩)
    · exact ⟨client, (holds_write written).mpr (Or.inl ⟨rfl, rfl, old, held⟩), isOpen, rfl⟩
    · have different : tested ≠ slot := by
        rintro rfl
        rw [Option.some.inj (held.2.symm.trans there.2), stillOpen] at closed
        cases closed
      exact ⟨connection, (holds_write written).mpr (Or.inr ⟨different, there⟩), stillOpen, same⟩

/-- An appended client is served in the slot at the count. -/
theorem servesAt_appended {capacity tested descriptor : Nat} {client : TcpConnection}
    (allocated : Allocated capacity before)
    (room : before.connections.count ≠ before.connections.capacity)
    (isOpen : client.closed = false)
    (written : after.connections = before.connections.push client TcpConnection.zero) :
    after.ServesAt tested descriptor ↔
      (tested = before.connections.count ∧ descriptor = client.fileDescriptor) ∨
        before.ServesAt tested descriptor := by
  unfold Server.ServesAt
  constructor
  · rintro ⟨connection, there, stillOpen, same⟩
    rcases (holds_push allocated room written).mp there with ⟨here, rfl⟩ | earlier
    · exact Or.inl ⟨here, same.symm⟩
    · exact Or.inr ⟨connection, earlier, stillOpen, same⟩
  · rintro (⟨rfl, rfl⟩ | ⟨connection, there, stillOpen, same⟩)
    · exact ⟨client, (holds_push allocated room written).mpr (Or.inl ⟨rfl, rfl⟩), isOpen, rfl⟩
    · exact ⟨connection, (holds_push allocated room written).mpr (Or.inr there), stillOpen, same⟩

/-! ## Where events and rounds point -/

/-- On every run the indices that are registered, pending or being processed are those
of slots in use. Only the listening socket is registered outside them, and nothing
but readability is ever reported for it. -/
structure Positioned (server : Server) : Prop where
  ids : ∀ slot connection, server.Holds slot connection → connection.id ≤ slot
  registered : ∀ entry ∈ server.kernel.registered,
    entry.1 = server.listener ∨ entry.2 < server.connections.count
  pending : ∀ event ∈ server.phase.pending, event.hangUp = true →
    event.index < server.connections.count
  processing : ∀ slot count, server.phase = .processing slot count →
    count ≤ server.connections.count

theorem start_positioned (capacity listener : Nat) (own : Finset Nat) :
    Positioned (start capacity listener own) := by
  refine ⟨?_, ?_, by simp [start, Phase.pending], by simp [start]⟩
  · rintro slot connection ⟨below, _⟩
    simp [start, VArray.init] at below
  · intro entry member
    simp only [start, List.mem_singleton] at member
    exact Or.inl (by rw [member]; rfl)

/-- An event that reports a hang-up comes from a client's registration. -/
theorem Positioned.reported {server : Server} {reports : List Report} {event : Event}
    (positioned : Positioned server) (allowed : reportable server reports = true)
    {report : Report} (member : report ∈ reports)
    (fetched : eventOf server.kernel report = some event) (hangUp : event.hangUp = true) :
    event.index < server.connections.count := by
  simp only [eventOf, Option.map_eq_some_iff] at fetched
  obtain ⟨index, found, rfl⟩ := fetched
  simp only [reportable, Bool.and_eq_true, List.all_eq_true, Bool.or_eq_true, decide_eq_true_eq,
    Bool.not_eq_eq_eq_not, Bool.not_true] at allowed
  obtain ⟨earlier, later, split, _⟩ := List.lookup_eq_some_iff.mp found
  have entry : (report.descriptor, index) ∈ server.kernel.registered := by simp [split]
  cases positioned.registered _ entry with
  | inr below => exact below
  | inl listening =>
    cases allowed.2 report member with
    | inl other => exact absurd listening other
    | inr quiet =>
      rw [quiet.1] at hangUp
      cases hangUp

/-- Every registration after a step was there before, or is the new client's at an
index in use. -/
theorem Effect.registrations {capacity : Nat} (effect : Effect before action after calls)
    (allocated : Allocated capacity before) (positioned : Positioned before) :
    ∀ entry ∈ after.kernel.registered, entry ∈ before.kernel.registered ∨
      entry.2 < after.connections.count := by
  intro entry member
  cases effect with
  | unchanged _ sameKernel => exact Or.inl (sameKernel ▸ member)
  | flagged _ _ _ _ _ _ _ _ _ sameKernel => exact Or.inl (sameKernel ▸ member)
  | hungUp _ _ _ _ _ _ _ _ closed =>
    rw [closed] at member
    exact Or.inl (List.mem_filter.mp (List.mem_filter.mp member).1).1
  | turnedAway _ _ _ _ _ _ closed =>
    rw [closed] at member
    exact Or.inl (List.mem_filter.mp member).1
  | served _ _ _ _ file _ _ _ _ _ _ _ _ _ kept =>
    rw [kept] at member
    cases file <;> exact Or.inl member
  | cleanedUp _ _ _ file _ _ _ _ _ _ closed =>
    rw [closed] at member
    cases file <;> exact Or.inl (List.mem_filter.mp member).1
  | reused descriptor slot index old _ _ first read chosen written opened =>
    obtain ⟨held, _⟩ := firstClosed_some first read
    rw [opened] at member
    simp only [Kernel.addFd, Kernel.accept, List.mem_append, List.mem_singleton] at member
    cases member with
    | inl known => exact Or.inl known
    | inr new =>
      have bound := positioned.ids slot old held
      have below := held.1
      rw [new, written]
      refine Or.inr ?_
      simp only [Server.write, chosen]
      split
      all_goals omega
  | appended descriptor _ _ _ room written opened =>
    obtain ⟨_, pushed⟩ := allocated.push
      { TcpConnection.zero with id := before.connections.count, fileDescriptor := descriptor } room
    rw [opened] at member
    simp only [Kernel.addFd, Kernel.accept, List.mem_append, List.mem_singleton] at member
    cases member with
    | inl known => exact Or.inl known
    | inr new =>
      rw [new, written, pushed]
      exact Or.inr (Nat.lt_succ_self _)

/-- The index kept in a slot never exceeds it. -/
theorem Effect.ids {capacity : Nat} (effect : Effect before action after calls)
    (allocated : Allocated capacity before)
    (ids : ∀ slot connection, before.Holds slot connection → connection.id ≤ slot) :
    ∀ slot connection, after.Holds slot connection → connection.id ≤ slot := by
  -- Rewriting a slot under its old index changes no bound.
  have rewritten : ∀ (slot : Nat) (old new : TcpConnection),
      before.connections.slots[slot]? = some old → new.id = old.id →
        after.connections = (before.write slot new).connections →
          ∀ tested connection, after.Holds tested connection → connection.id ≤ tested := by
    intro slot old new read sameId written tested connection held
    rcases (holds_write written).mp held with ⟨rfl, rfl, previous, there⟩ | ⟨_, there⟩
    · obtain rfl : previous = old := Option.some.inj (there.2.symm.trans read)
      exact sameId ▸ ids tested previous there
    · exact ids tested connection there
  intro tested connection held
  cases effect with
  | unchanged sameConnections _ =>
    refine ids tested connection ?_
    unfold Server.Holds at held ⊢
    rwa [sameConnections] at held
  | turnedAway _ _ _ _ _ sameConnections _ =>
    refine ids tested connection ?_
    unfold Server.Holds at held ⊢
    rwa [sameConnections] at held
  | flagged slot old new _ read sameId _ _ written _ =>
    exact rewritten slot old new read sameId written tested connection held
  | hungUp event _ old _ _ read _ written _ =>
    have sameId : ({ old with closed := true } : TcpConnection).id = old.id := rfl
    exact rewritten event.index old _ read sameId written tested connection held
  | served slot _ old new _ _ _ _ read _ sameId _ _ written _ =>
    exact rewritten slot old new read sameId written tested connection held
  | cleanedUp slot old new _ cleans _ sameId _ _ written _ =>
    obtain ⟨_, _, _, _, _, read, _, _⟩ := cleans
    exact rewritten slot old new read sameId written tested connection held
  | reused _ slot index old _ _ first read chosen written _ =>
    rcases (holds_write written).mp held with ⟨rfl, rfl, _, _⟩ | ⟨_, there⟩
    · have bound := ids tested old (firstClosed_some first read).1
      simp only [chosen]
      split
      all_goals omega
    · exact ids tested connection there
  | appended _ _ _ _ room written _ =>
    rcases (holds_push allocated room written).mp held with ⟨rfl, rfl⟩ | there
    · exact Nat.le_refl _
    · exact ids tested connection there

theorem step_positioned {capacity : Nat} (allocated : Allocated capacity before)
    (positioned : Positioned before) (taken : stepCalls before action = some (after, calls)) :
    Positioned after := by
  obtain ⟨sameListener, effect, moves⟩ := step_effect taken
  have grown : before.connections.count ≤ after.connections.count := by
    have counted := effect.count allocated
    omega
  refine ⟨effect.ids allocated positioned.ids, ?_, ?_, ?_⟩
  · intro entry member
    cases effect.registrations allocated positioned entry member with
    | inr new => exact Or.inr new
    | inl known =>
      cases positioned.registered entry known with
      | inl listening => exact Or.inl (listening.trans sameListener.symm)
      | inr below => exact Or.inr (by omega)
  · intro event member hangUp
    rcases moves.pending event member with earlier | ⟨reports, _, allowed, report, reported, same⟩
    · have below := positioned.pending event earlier hangUp
      omega
    · have below := positioned.reported allowed reported same hangUp
      omega
  · intro slot count position
    rcases moves.processing slot count position with ⟨earlier, same⟩ | taken
    · have below := positioned.processing earlier count same
      omega
    · omega

theorem run_positioned {capacity listener : Nat} {own : Finset Nat}
    {admitted : Server → Action → Prop} {trace : List Action} {server : Server}
    (run : Runs.Run step admitted (start capacity listener own) trace server) :
    Positioned server := by
  refine run.induct (fun _ reached => Positioned reached) (start_positioned _ _ _) ?_
  intro _ _ _ _ earlier positioned _ taken
  obtain ⟨_, made⟩ := step_calls taken
  exact step_positioned (run_allocated earlier) positioned made

/-! ## Who owns the open descriptors -/

/-- The open descriptors are the process's own and those of the open slots, each of
one owner; only the listening socket and open slots are registered. No slot has ever
held the listening socket's descriptor. -/
structure Owned (server : Server) : Prop where
  listening : server.listener ∈ server.kernel.own
  opened : ∀ descriptor, descriptor ∈ server.kernel.opened ↔
    descriptor ∈ server.kernel.own ∨ server.Serves descriptor
  disjoint : ∀ descriptor, server.Serves descriptor → descriptor ∉ server.kernel.own
  distinct : ∀ first second descriptor, server.ServesAt first descriptor →
    server.ServesAt second descriptor → first = second
  registered : ∀ entry ∈ server.kernel.registered,
    entry.1 = server.listener ∨ server.Serves entry.1
  apart : ∀ slot connection, server.Holds slot connection →
    connection.fileDescriptor ≠ server.listener

theorem start_owned {capacity listener : Nat} {own : Finset Nat} (listening : listener ∈ own) :
    Owned (start capacity listener own) := by
  have empty : ∀ slot connection, ¬ (start capacity listener own).Holds slot connection := by
    rintro slot connection ⟨below, _⟩
    simp [start, VArray.init] at below
  have serves : ∀ descriptor, ¬ (start capacity listener own).Serves descriptor := by
    rintro descriptor ⟨slot, connection, held, _⟩
    exact empty slot connection held
  refine ⟨listening, ?_, ?_, ?_, ?_, ?_⟩
  · exact fun descriptor => ⟨Or.inl, fun mine => mine.resolve_right (serves descriptor)⟩
  · exact fun descriptor served => absurd served (serves descriptor)
  · exact fun first _ descriptor served _ => absurd ⟨first, served⟩ (serves descriptor)
  · intro entry member
    simp only [start, List.mem_singleton] at member
    exact Or.inl (by rw [member]; rfl)
  · exact fun slot connection held => absurd held (empty slot connection)

/-- A slot serves one descriptor. -/
theorem ServesAt.functional {server : Server} {slot first second : Nat}
    (servedFirst : server.ServesAt slot first) (servedSecond : server.ServesAt slot second) :
    first = second := by
  obtain ⟨connection, held, _, rfl⟩ := servedFirst
  obtain ⟨other, heldOther, _, rfl⟩ := servedSecond
  rw [Option.some.inj (held.2.symm.trans heldOther.2)]

/-- Ownership reads the served pairs, the kernel state and the descriptors kept in
slots; a step that changes none of them keeps it. -/
theorem Owned.same (owned : Owned before) (sameListener : after.listener = before.listener)
    (view : ∀ slot descriptor, after.ServesAt slot descriptor ↔ before.ServesAt slot descriptor)
    (sameKernel : after.kernel = before.kernel)
    (apart : ∀ slot connection, after.Holds slot connection →
      connection.fileDescriptor ≠ after.listener) : Owned after := by
  have serves : ∀ descriptor, after.Serves descriptor ↔ before.Serves descriptor :=
    fun descriptor => exists_congr (fun slot => view slot descriptor)
  refine ⟨?_, ?_, ?_, ?_, ?_, apart⟩
  · rw [sameListener, sameKernel]
    exact owned.listening
  · intro descriptor
    rw [sameKernel, serves]
    exact owned.opened descriptor
  · intro descriptor served
    rw [sameKernel]
    exact owned.disjoint descriptor ((serves descriptor).mp served)
  · intro first second descriptor servedFirst servedSecond
    exact owned.distinct first second descriptor ((view _ _).mp servedFirst)
      ((view _ _).mp servedSecond)
  · intro entry member
    rw [sameKernel] at member
    rw [sameListener, serves]
    exact owned.registered entry member

/-- A file on a free descriptor becomes the process's own. -/
theorem Owned.openFile {server : Server} (owned : Owned server) {file : Option Nat}
    (fresh : ∀ descriptor ∈ file, descriptor ∉ server.kernel.opened) :
    Owned { server with kernel := server.kernel.openFile file } := by
  cases file with
  | none => exact owned
  | some descriptor =>
    have free : descriptor ∉ server.kernel.opened := fresh descriptor rfl
    refine ⟨Finset.mem_insert_of_mem owned.listening, ?_, ?_, owned.distinct, owned.registered,
      owned.apart⟩
    · intro tested
      have known := owned.opened tested
      simp only [Kernel.openFile, Finset.mem_insert, known, or_assoc]
      exact Iff.rfl
    · intro tested served
      have isOpen : tested ∈ server.kernel.opened := (owned.opened tested).mpr (Or.inr served)
      have different : tested ≠ descriptor := fun same => free (same ▸ isOpen)
      simp only [Kernel.openFile, Finset.mem_insert, not_or]
      exact ⟨different, owned.disjoint tested served⟩

/-- Closing the descriptor of a slot that is served no more keeps ownership. -/
theorem Owned.closed {slot descriptor : Nat} (owned : Owned before)
    (sameListener : after.listener = before.listener) (served : before.ServesAt slot descriptor)
    (view : ∀ tested other, after.ServesAt tested other ↔
      tested ≠ slot ∧ before.ServesAt tested other)
    (sameOwn : after.kernel.own = before.kernel.own)
    (opened : after.kernel.opened = before.kernel.opened.erase descriptor)
    (registered : ∀ entry ∈ after.kernel.registered,
      entry ∈ before.kernel.registered ∧ entry.1 ≠ descriptor)
    (apart : ∀ slot connection, after.Holds slot connection →
      connection.fileDescriptor ≠ after.listener) : Owned after := by
  -- The served descriptors are the earlier ones but this one.
  have serves : ∀ tested, after.Serves tested ↔ tested ≠ descriptor ∧ before.Serves tested := by
    intro tested
    constructor
    · rintro ⟨other, there⟩
      obtain ⟨different, earlier⟩ := (view other tested).mp there
      refine ⟨?_, other, earlier⟩
      rintro rfl
      exact different (owned.distinct other slot tested earlier served)
    · rintro ⟨different, other, earlier⟩
      refine ⟨other, (view other tested).mpr ⟨?_, earlier⟩⟩
      rintro rfl
      exact different (ServesAt.functional earlier served)
  refine ⟨?_, ?_, ?_, ?_, ?_, apart⟩
  · rw [sameListener, sameOwn]
    exact owned.listening
  · intro tested
    rw [opened, sameOwn, Finset.mem_erase, owned.opened, serves]
    constructor
    · rintro ⟨different, mine | earlier⟩
      · exact Or.inl mine
      · exact Or.inr ⟨different, earlier⟩
    · rintro (mine | ⟨different, earlier⟩)
      · refine ⟨?_, Or.inl mine⟩
        rintro rfl
        exact owned.disjoint tested ⟨slot, served⟩ mine
      · exact ⟨different, Or.inr earlier⟩
  · intro tested there
    rw [sameOwn]
    exact owned.disjoint tested ((serves tested).mp there).2
  · intro first second tested servedFirst servedSecond
    exact owned.distinct first second tested ((view _ _).mp servedFirst).2
      ((view _ _).mp servedSecond).2
  · intro entry member
    obtain ⟨known, different⟩ := registered entry member
    rw [sameListener, serves]
    exact (owned.registered entry known).imp_right (fun there => ⟨different, there⟩)

/-- A client on a free descriptor, stored in a slot that served nobody and registered,
keeps ownership. -/
theorem Owned.stored {slot descriptor index : Nat} (owned : Owned before)
    (sameListener : after.listener = before.listener)
    (fresh : descriptor ∉ before.kernel.opened)
    (view : ∀ tested other, after.ServesAt tested other ↔
      (tested = slot ∧ other = descriptor) ∨ before.ServesAt tested other)
    (opened : after.kernel = (before.kernel.accept descriptor).addFd descriptor index)
    (apart : ∀ slot connection, after.Holds slot connection →
      connection.fileDescriptor ≠ after.listener) : Owned after := by
  have serves : ∀ tested, after.Serves tested ↔ tested = descriptor ∨ before.Serves tested := by
    intro tested
    constructor
    · rintro ⟨other, there⟩
      cases (view other tested).mp there with
      | inl new => exact Or.inl new.2
      | inr earlier => exact Or.inr ⟨other, earlier⟩
    · rintro (rfl | ⟨other, earlier⟩)
      · exact ⟨slot, (view _ _).mpr (Or.inl ⟨rfl, rfl⟩)⟩
      · exact ⟨other, (view _ _).mpr (Or.inr earlier)⟩
  have unserved : ∀ tested, ¬ before.ServesAt tested descriptor := by
    intro tested there
    exact fresh ((owned.opened descriptor).mpr (Or.inr ⟨tested, there⟩))
  refine ⟨?_, ?_, ?_, ?_, ?_, apart⟩
  · rw [sameListener, opened]
    exact owned.listening
  · intro tested
    rw [serves, opened]
    simp only [Kernel.addFd, Kernel.accept, Finset.mem_insert, owned.opened]
    exact or_left_comm
  · intro tested there
    rw [opened]
    cases (serves tested).mp there with
    | inl new => exact fun mine => fresh ((owned.opened descriptor).mpr (Or.inl (new ▸ mine)))
    | inr earlier => exact owned.disjoint tested earlier
  · intro first second tested servedFirst servedSecond
    rcases (view _ _).mp servedFirst with ⟨rfl, rfl⟩ | earlierFirst
    · rcases (view _ _).mp servedSecond with ⟨rfl, _⟩ | earlierSecond
      · rfl
      · exact absurd earlierSecond (unserved second)
    · rcases (view _ _).mp servedSecond with ⟨rfl, rfl⟩ | earlierSecond
      · exact absurd earlierFirst (unserved first)
      · exact owned.distinct first second tested earlierFirst earlierSecond
  · intro entry member
    rw [opened] at member
    simp only [Kernel.addFd, Kernel.accept, List.mem_append, List.mem_singleton] at member
    rw [sameListener, serves]
    cases member with
    | inl known => exact (owned.registered entry known).imp_right Or.inr
    | inr new => exact Or.inr (Or.inl (by rw [new]))

/-- Turning a client away leaves the descriptors as they were. -/
theorem Owned.turnedAway {descriptor : Nat} (owned : Owned before)
    (sameListener : after.listener = before.listener)
    (fresh : descriptor ∉ before.kernel.opened)
    (sameConnections : after.connections = before.connections)
    (closed : after.kernel = (before.kernel.accept descriptor).close descriptor) : Owned after := by
  have held : ∀ slot connection, after.Holds slot connection → before.Holds slot connection := by
    intro slot connection there
    unfold Server.Holds at there ⊢
    rwa [sameConnections] at there
  have view : ∀ slot tested, after.ServesAt slot tested ↔ before.ServesAt slot tested := by
    intro slot tested
    unfold Server.ServesAt Server.Holds
    rw [sameConnections]
  have serves : ∀ tested, after.Serves tested ↔ before.Serves tested :=
    fun tested => exists_congr (fun slot => view slot tested)
  have opened : after.kernel.opened = before.kernel.opened := by
    rw [closed]
    exact Finset.erase_insert fresh
  have own : after.kernel.own = before.kernel.own := by rw [closed]; rfl
  refine ⟨?_, ?_, ?_, ?_, ?_, ?_⟩
  · rw [sameListener, own]
    exact owned.listening
  · intro tested
    rw [opened, own, serves]
    exact owned.opened tested
  · intro tested there
    rw [own]
    exact owned.disjoint tested ((serves tested).mp there)
  · intro first second tested servedFirst servedSecond
    exact owned.distinct first second tested ((view _ _).mp servedFirst) ((view _ _).mp servedSecond)
  · intro entry member
    rw [closed] at member
    rw [sameListener, serves]
    exact owned.registered entry (List.mem_filter.mp member).1
  · intro slot connection there
    rw [sameListener]
    exact owned.apart slot connection (held slot connection there)

/-- Rewriting a slot in use puts the listening socket's descriptor in no slot, when the
new connection does not have it. -/
theorem apart_write {slot : Nat} {new : TcpConnection} (owned : Owned before)
    (sameListener : after.listener = before.listener)
    (different : ∀ old, before.Holds slot old → new.fileDescriptor ≠ before.listener)
    (written : after.connections = (before.write slot new).connections) :
    ∀ tested connection, after.Holds tested connection →
      connection.fileDescriptor ≠ after.listener := by
  intro tested connection held
  rw [sameListener]
  rcases (holds_write written).mp held with ⟨_, rfl, old, there⟩ | ⟨_, there⟩
  · exact different old there
  · exact owned.apart tested connection there

/-- A connection rewritten with its own descriptor is not the listening socket's. -/
theorem apart_kept {slot : Nat} {old new : TcpConnection} (owned : Owned before)
    (sameListener : after.listener = before.listener)
    (read : before.connections.slots[slot]? = some old)
    (sameDescriptor : new.fileDescriptor = old.fileDescriptor)
    (written : after.connections = (before.write slot new).connections) :
    ∀ tested connection, after.Holds tested connection →
      connection.fileDescriptor ≠ after.listener := by
  refine apart_write owned sameListener ?_ written
  intro previous held
  obtain rfl : previous = old := Option.some.inj (held.2.symm.trans read)
  rw [sameDescriptor]
  exact owned.apart slot previous held

/-- The slot whose connection a worker cleans up is in use and open. -/
theorem CleansUp.served {slot : Nat} {connection : TcpConnection} (positioned : Positioned before)
    (cleans : CleansUp before action slot connection) :
    before.Holds slot connection ∧ before.ServesAt slot connection.fileDescriptor := by
  obtain ⟨count, _, _, position, below, read, wasOpen, _⟩ := cleans
  have inUse := positioned.processing slot count position
  have held : before.Holds slot connection := ⟨by omega, read⟩
  exact ⟨held, connection, held, wasOpen, rfl⟩

/-- Under the condition every step keeps ownership. -/
theorem Effect.owned {capacity : Nat} (effect : Effect before action after calls)
    (sameListener : after.listener = before.listener) (allocated : Allocated capacity before)
    (positioned : Positioned before) (owned : Owned before) (cleans : CleansOwn before action) :
    Owned after := by
  cases effect with
  | unchanged sameConnections sameKernel =>
    refine owned.same sameListener ?_ sameKernel ?_
    · intro slot descriptor
      unfold Server.ServesAt Server.Holds
      rw [sameConnections]
    · intro slot connection held
      unfold Server.Holds at held
      rw [sameConnections] at held
      rw [sameListener]
      exact owned.apart slot connection held
  | flagged slot old new _ read _ sameDescriptor sameClosed written sameKernel =>
    exact owned.same sameListener
      (fun _ _ => servesAt_same read sameDescriptor sameClosed written) sameKernel
      (apart_kept owned sameListener read sameDescriptor written)
  | served slot count old new file _ _ fresh read wasOpen _ sameDescriptor stillOpen written kept =>
    have filed := owned.openFile fresh
    exact filed.same sameListener
      (fun _ _ => servesAt_same read sameDescriptor (stillOpen.trans wasOpen.symm) written) kept
      (apart_kept owned sameListener read sameDescriptor written)
  | hungUp event rest old position reported read wasOpen written closed =>
    have inUse : event.index < before.connections.count :=
      positioned.pending event (by rw [position]; exact List.mem_cons_self) reported
    have sameDescriptor : ({ old with closed := true } : TcpConnection).fileDescriptor =
        old.fileDescriptor := rfl
    refine owned.closed sameListener ⟨old, ⟨inUse, read⟩, wasOpen, rfl⟩
      (fun _ _ => servesAt_closed rfl written) (by rw [closed]; rfl) (by rw [closed]; rfl) ?_
      (apart_kept owned sameListener read sameDescriptor written)
    intro entry member
    rw [closed] at member
    obtain ⟨remaining, different⟩ := List.mem_filter.mp member
    exact ⟨(List.mem_filter.mp remaining).1, by simpa using different⟩
  | cleanedUp slot old new file cleansUp fresh _ sameDescriptor nowClosed written closed =>
    have flagged : old.fileDescriptor = 1 := cleans slot old cleansUp
    obtain ⟨held, served⟩ := cleansUp.served positioned
    have filed := owned.openFile fresh
    rw [flagged] at served
    refine filed.closed sameListener served
      (fun _ _ => servesAt_closed nowClosed written) (by rw [closed]; rfl) (by rw [closed]; rfl) ?_
      (apart_kept owned sameListener held.2 sameDescriptor written)
    intro entry member
    rw [closed] at member
    obtain ⟨known, different⟩ := List.mem_filter.mp member
    exact ⟨known, by simpa using different⟩
  | reused descriptor slot index old _ fresh first read _ written opened =>
    obtain ⟨held, wasClosed⟩ := firstClosed_some first read
    refine owned.stored sameListener fresh
      (fun _ _ => servesAt_reused held wasClosed rfl written) opened
      (apart_write owned sameListener ?_ written)
    rintro _ _ rfl
    exact fresh ((owned.opened _).mpr (Or.inl owned.listening))
  | appended descriptor _ fresh _ room written opened =>
    refine owned.stored sameListener fresh
      (fun _ _ => servesAt_appended allocated room rfl written) opened ?_
    intro tested connection held
    rw [sameListener]
    rcases (holds_push allocated room written).mp held with ⟨_, rfl⟩ | there
    · rintro rfl
      exact fresh ((owned.opened _).mpr (Or.inl owned.listening))
    · exact owned.apart tested connection there
  | turnedAway descriptor _ fresh _ _ sameConnections closed =>
    exact owned.turnedAway sameListener fresh sameConnections closed

end VHttp.EventLoop
