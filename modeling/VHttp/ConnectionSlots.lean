import VHttp.Foundations.Runs
import VHttp.EventLoop

/-!
# Where accepted clients go

An accepted descriptor is either written to one slot and registered, or refused and
closed, and it is refused only when every slot is taken and none is closed. This
holds of every step of every run. It rests on what the allocation keeps: the array
has its initial size, may not grow, and its count stays within it.
-/

namespace VHttp.EventLoop

variable {before after : Server} {action : Action} {calls : List Syscall}

/-- A slot in use holds this connection. -/
def Server.Holds (server : Server) (slot : Nat) (connection : TcpConnection) : Prop :=
  slot < server.connections.count ∧ server.connections.slots[slot]? = some connection

/-- No slot in use is closed. -/
def Server.AllOpen (server : Server) : Prop :=
  ∀ slot connection, server.Holds slot connection → connection.closed = false

/-- The scan stops at a slot in use that is closed. -/
theorem firstClosed_some {server : Server} {slot : Nat} {old : TcpConnection}
    (first : firstClosed server.connections server.connections.count = some slot)
    (read : server.connections.slots[slot]? = some old) :
    server.Holds slot old ∧ old.closed = true := by
  obtain ⟨inside, closed, _⟩ := List.findIdx?_eq_some_iff_getElem.mp first
  have below : slot < server.connections.count :=
    lt_of_lt_of_le inside (List.length_take_le _ _)
  have same : (server.connections.slots.take server.connections.count)[slot]? = some old := by
    rw [List.getElem?_take_of_lt below, read]
  rw [List.getElem?_eq_getElem inside, Option.some.injEq] at same
  exact ⟨⟨below, read⟩, same ▸ closed⟩

/-- The scan that finds nothing has seen every slot in use open. -/
theorem firstClosed_none {server : Server}
    (none : firstClosed server.connections server.connections.count = none) : server.AllOpen := by
  rintro slot connection ⟨below, read⟩
  have member : connection ∈ server.connections.slots.take server.connections.count := by
    apply List.mem_of_getElem? (i := slot)
    rw [List.getElem?_take_of_lt below, read]
  simpa using List.findIdx?_eq_none_iff.mp none connection member

/-- What the allocation of the connection array fixes: its size, and that it may not
grow. The count stays within the size. -/
structure Allocated (capacity : Nat) (server : Server) : Prop where
  size : server.connections.slots.length = capacity
  fixed : server.connections.growable = false
  bound : server.connections.count ≤ capacity

theorem start_allocated (capacity listener : Nat) (own : Finset Nat) :
    Allocated capacity (start capacity listener own) :=
  ⟨List.length_replicate, rfl, Nat.zero_le _⟩

/-- Writing one slot changes neither the size nor the count. -/
theorem Allocated.write {capacity : Nat} {server : Server} (allocated : Allocated capacity server)
    (slot : Nat) (connection : TcpConnection)
    (written : after.connections = (server.write slot connection).connections) :
    Allocated capacity after := by
  refine ⟨?_, ?_, ?_⟩
  · rw [written]
    simpa [Server.write] using allocated.size
  · rw [written]
    exact allocated.fixed
  · rw [written]
    exact allocated.bound

/-- An array that is not full takes the client in the slot at its count. -/
theorem Allocated.push {capacity : Nat} (allocated : Allocated capacity before)
    (client : TcpConnection) (room : before.connections.count ≠ before.connections.capacity) :
    before.connections.count < before.connections.slots.length ∧
    before.connections.push client TcpConnection.zero =
      { before.connections with
        slots := before.connections.slots.set before.connections.count client
        count := before.connections.count + 1 } := by
  have size := allocated.size
  have bound := allocated.bound
  have inside : before.connections.count < before.connections.slots.length := by
    unfold VArray.capacity at room
    omega
  exact ⟨inside, VArray.push_room _ _ _ inside⟩

theorem Effect.allocated {capacity : Nat} (effect : Effect before action after calls)
    (allocated : Allocated capacity before) : Allocated capacity after := by
  cases effect with
  | unchanged sameConnections _ =>
    exact ⟨sameConnections ▸ allocated.size, sameConnections ▸ allocated.fixed,
      sameConnections ▸ allocated.bound⟩
  | flagged slot old new _ _ _ _ _ written _ => exact allocated.write slot new written
  | hungUp event rest old _ _ _ _ written _ => exact allocated.write event.index _ written
  | reused descriptor slot index old _ _ _ _ _ written _ => exact allocated.write slot _ written
  | appended descriptor _ _ _ room written _ =>
    have size := allocated.size
    have fixed := allocated.fixed
    obtain ⟨inside, pushed⟩ := allocated.push
      { TcpConnection.zero with id := before.connections.count, fileDescriptor := descriptor } room
    rw [pushed] at written
    refine ⟨?_, ?_, ?_⟩
    · rw [written]
      simpa using size
    · rw [written]
      exact fixed
    · rw [written]
      simp only
      omega
  | turnedAway _ _ _ _ _ sameConnections _ =>
    exact ⟨sameConnections ▸ allocated.size, sameConnections ▸ allocated.fixed,
      sameConnections ▸ allocated.bound⟩
  | served slot _ _ new _ _ _ _ _ _ _ _ _ written _ => exact allocated.write slot new written
  | cleanedUp slot _ new _ _ _ _ _ _ written _ => exact allocated.write slot new written

theorem run_allocated {capacity listener : Nat} {own : Finset Nat}
    {admitted : Server → Action → Prop} {trace : List Action} {server : Server}
    (run : Runs.Run step admitted (start capacity listener own) trace server) :
    Allocated capacity server := by
  refine run.invariant (Allocated capacity) (start_allocated _ _ _) ?_
  intro before action after allocated _ taken
  obtain ⟨calls, made⟩ := step_calls taken
  exact (step_effect made).2.1.allocated allocated

/-- The accepted client is written to this slot and nothing else changes in the
array. The slot was closed, or it is the next unused one. -/
structure StoredAt (descriptor : Nat) (before after : Server) (slot : Nat) : Prop where
  used : slot < after.connections.count
  available : slot = before.connections.count ∨
    ∃ old, before.Holds slot old ∧ old.closed = true
  client : ∃ client : TcpConnection, client.fileDescriptor = descriptor ∧ client.closed = false ∧
    after.connections.slots[slot]? = some client ∧
    after.connections.slots = before.connections.slots.set slot client

/-- The client is answered with 503 and its descriptor is closed. -/
structure TurnedAway (descriptor : Nat) (before after : Server) (calls : List Syscall) : Prop where
  answered : calls = [.accepted descriptor, .refused descriptor, .closed descriptor]
  sameConnections : after.connections = before.connections
  notOpen : descriptor ∉ after.kernel.opened
  notRegistered : ∀ entry ∈ after.kernel.registered, entry.1 ≠ descriptor

/-- The descriptor is registered, under the index passed to `VEpoll_AddFd`. -/
def Enrolled (descriptor : Nat) (after : Server) (calls : List Syscall) : Prop :=
  ∃ index, .added descriptor index ∈ calls ∧ (descriptor, index) ∈ after.kernel.registered ∧
    descriptor ∈ after.kernel.opened

/-- Storing leaves the other slots alone. -/
theorem StoredAt.elsewhere {descriptor slot other : Nat}
    (stored : StoredAt descriptor before after slot) (different : other ≠ slot) :
    after.connections.slots[other]? = before.connections.slots[other]? := by
  obtain ⟨client, _, _, _, written⟩ := stored.client
  rw [written, List.getElem?_set_ne different.symm]

/-- A slot in use that is open is not the one a client is stored in, so it keeps its
connection. -/
theorem StoredAt.keeps {descriptor slot other : Nat} {connection : TcpConnection}
    (stored : StoredAt descriptor before after slot) (held : before.Holds other connection)
    (isOpen : connection.closed = false) :
    after.connections.slots[other]? = some connection := by
  have different : other ≠ slot := by
    rintro rfl
    cases stored.available with
    | inl next =>
      have below := held.1
      omega
    | inr reused =>
      obtain ⟨old, there, closed⟩ := reused
      have same : old = connection := Option.some.inj (there.2.symm.trans held.2)
      rw [same, isOpen] at closed
      cases closed
  rw [stored.elsewhere different, held.2]

/-- A client written over a closed slot is stored there. -/
theorem StoredAt.of_reused {descriptor slot index : Nat} {old : TcpConnection}
    (held : before.Holds slot old) (closed : old.closed = true)
    (written : after.connections = (before.write slot
      { TcpConnection.zero with id := index, fileDescriptor := descriptor }).connections) :
    StoredAt descriptor before after slot := by
  have inside := (List.getElem?_eq_some_iff.mp held.2).1
  refine ⟨?_, Or.inr ⟨old, held, closed⟩, _, rfl, rfl, ?_, congrArg VArray.slots written⟩
  · rw [written]
    exact held.1
  · rw [written]
    exact List.getElem?_set_self inside

/-- An appended client is stored in the next unused slot. -/
theorem StoredAt.of_appended {capacity descriptor : Nat} (allocated : Allocated capacity before)
    (room : before.connections.count ≠ before.connections.capacity)
    (written : after.connections = before.connections.push
      { TcpConnection.zero with id := before.connections.count, fileDescriptor := descriptor }
      TcpConnection.zero) :
    StoredAt descriptor before after before.connections.count := by
  obtain ⟨inside, pushed⟩ := allocated.push
    { TcpConnection.zero with id := before.connections.count, fileDescriptor := descriptor } room
  rw [pushed] at written
  refine ⟨?_, Or.inl rfl, _, rfl, rfl, ?_, congrArg VArray.slots written⟩
  · rw [written]
    exact Nat.lt_succ_self _
  · rw [written]
    exact List.getElem?_set_self inside

/-- One step stores a client in at most one slot. -/
theorem StoredAt.unique {descriptor first second : Nat}
    (storedFirst : StoredAt descriptor before after first)
    (storedSecond : StoredAt descriptor before after second) : first = second := by
  by_contra different
  -- A slot that was closed and is open now is the written one.
  have impossible : ∀ slot other, slot ≠ other → StoredAt descriptor before after slot →
      StoredAt descriptor before after other →
      ¬ ∃ old, before.Holds slot old ∧ old.closed = true := by
    rintro slot other apart stored storedOther ⟨old, held, closed⟩
    obtain ⟨client, _, isOpen, present, _⟩ := stored.client
    rw [storedOther.elsewhere apart, held.2] at present
    rw [Option.some.inj present, isOpen] at closed
    cases closed
  cases storedFirst.available with
  | inr reused => exact impossible first second different storedFirst storedSecond reused
  | inl next =>
    cases storedSecond.available with
    | inr reused =>
      exact impossible second first (Ne.symm different) storedSecond storedFirst reused
    | inl nextToo => exact different (next.trans nextToo.symm)

/-- A client that is turned away is stored nowhere. -/
theorem TurnedAway.nowhere {descriptor slot : Nat}
    (turned : TurnedAway descriptor before after calls) :
    ¬ StoredAt descriptor before after slot := by
  intro stored
  have used := stored.used
  rw [turned.sameConnections] at used
  cases stored.available with
  | inl next => omega
  | inr reused =>
    obtain ⟨old, held, closed⟩ := reused
    obtain ⟨client, _, isOpen, present, _⟩ := stored.client
    rw [turned.sameConnections, held.2] at present
    rw [Option.some.inj present, isOpen] at closed
    cases closed

/-- What each effect that accepts a client does with it: it is stored and registered
under the index passed to `VEpoll_AddFd`, or turned away. -/
theorem Effect.accepted {capacity descriptor : Nat} (effect : Effect before action after calls)
    (allocated : Allocated capacity before) (called : .accepted descriptor ∈ calls) :
    (∃ slot, StoredAt descriptor before after slot) ∧ Enrolled descriptor after calls ∨
      TurnedAway descriptor before after calls := by
  cases effect with
  | unchanged _ _ => simp at called
  | flagged _ _ _ _ _ _ _ _ _ _ => simp at called
  | hungUp _ _ _ _ _ _ _ _ _ => simp at called
  | served _ _ _ _ _ _ _ _ _ _ _ _ _ _ _ => simp at called
  | cleanedUp _ _ _ _ _ _ _ _ _ _ _ => simp at called
  | reused accepted slot index old _ _ first read _ written opened =>
    obtain rfl : descriptor = accepted := by simpa using called
    obtain ⟨held, closed⟩ := firstClosed_some first read
    have stored := StoredAt.of_reused held closed written
    refine Or.inl ⟨⟨slot, stored⟩, index, by simp, ?_, ?_⟩
    · rw [opened]
      simp [Kernel.addFd]
    · rw [opened]
      simp [Kernel.addFd, Kernel.accept]
  | appended accepted _ _ _ room written opened =>
    obtain rfl : descriptor = accepted := by simpa using called
    have stored := StoredAt.of_appended allocated room written
    refine Or.inl ⟨⟨_, stored⟩, before.connections.count, by simp, ?_, ?_⟩
    · rw [opened]
      simp [Kernel.addFd]
    · rw [opened]
      simp [Kernel.addFd, Kernel.accept]
  | turnedAway accepted _ _ _ _ sameConnections closed =>
    obtain rfl : descriptor = accepted := by simpa using called
    refine Or.inr ⟨rfl, sameConnections, ?_, ?_⟩
    · rw [closed]
      simp [Kernel.close]
    · rw [closed]
      simp [Kernel.close]

/-- A client that has just been accepted is refused, at full capacity only and with every slot
open. -/
theorem Effect.refused {descriptor : Nat} (effect : Effect before action after calls)
    (called : .refused descriptor ∈ calls) : Accepts before action descriptor ∧
      before.connections.count = before.connections.capacity ∧ before.AllOpen := by
  cases effect with
  | turnedAway accepted accepts _ none full _ _ =>
    obtain rfl : descriptor = accepted := by simpa using called
    exact ⟨accepts, full, firstClosed_none none⟩
  | unchanged _ _ => simp at called
  | flagged _ _ _ _ _ _ _ _ _ _ => simp at called
  | hungUp _ _ _ _ _ _ _ _ _ => simp at called
  | served _ _ _ _ _ _ _ _ _ _ _ _ _ _ _ => simp at called
  | cleanedUp _ _ _ _ _ _ _ _ _ _ _ => simp at called
  | reused _ _ _ _ _ _ _ _ _ _ _ => simp at called
  | appended _ _ _ _ _ _ _ => simp at called

/-- The count moves by one at an append, which needs every slot in use open, and at
nothing else. -/
theorem Effect.count {capacity : Nat} (effect : Effect before action after calls)
    (allocated : Allocated capacity before) :
    after.connections.count = before.connections.count ∨
      after.connections.count = before.connections.count + 1 ∧ before.AllOpen := by
  cases effect with
  | appended descriptor _ _ none room written _ =>
    obtain ⟨_, pushed⟩ := allocated.push
      { TcpConnection.zero with id := before.connections.count, fileDescriptor := descriptor } room
    rw [written, pushed]
    exact Or.inr ⟨rfl, firstClosed_none none⟩
  | unchanged sameConnections _ => exact Or.inl (by rw [sameConnections])
  | turnedAway _ _ _ _ _ sameConnections _ => exact Or.inl (by rw [sameConnections])
  | flagged _ _ _ _ _ _ _ _ written _ => exact Or.inl (by rw [written]; rfl)
  | hungUp _ _ _ _ _ _ _ written _ => exact Or.inl (by rw [written]; rfl)
  | served _ _ _ _ _ _ _ _ _ _ _ _ _ written _ => exact Or.inl (by rw [written]; rfl)
  | cleanedUp _ _ _ _ _ _ _ _ _ written _ => exact Or.inl (by rw [written]; rfl)
  | reused _ _ _ _ _ _ _ _ _ written _ => exact Or.inl (by rw [written]; rfl)

/-- What one step owes to the clients it accepts and to the slots in use. -/
structure AcceptContract (capacity : Nat) (before : Server) (action : Action) (after : Server)
    (calls : List Syscall) : Prop where
  /-- A client that accept returns is written to exactly one slot and registered, or it is
  answered and closed; never both. -/
  decided : ∀ descriptor, Accepts before action descriptor →
    ((∃! slot, StoredAt descriptor before after slot) ∧ Enrolled descriptor after calls ∧
        ¬ TurnedAway descriptor before after calls) ∨
      (TurnedAway descriptor before after calls ∧ ∀ slot, ¬ StoredAt descriptor before after slot)
  /-- Only a client that accept returns is refused, and only by a full array of open
  connections. -/
  refusal : ∀ descriptor, .refused descriptor ∈ calls → Accepts before action descriptor ∧
    before.connections.count = capacity ∧ before.AllOpen
  /-- No accept overwrites an open connection. -/
  kept : ∀ descriptor, Accepts before action descriptor → ∀ slot connection,
    before.Holds slot connection → connection.closed = false →
      after.connections.slots[slot]? = some connection
  bound : after.connections.count ≤ capacity
  /-- The count grows only when no slot below it is closed. -/
  growth : before.connections.count < after.connections.count → before.AllOpen

/-- Every step of every run meets the contract, whatever the connection capacity. -/
theorem accepted_clients_are_placed {capacity listener : Nat} {own : Finset Nat}
    {trace : List Action}
    (run : Runs.Run step Runs.anywhere (start capacity listener own) trace before)
    (taken : stepCalls before action = some (after, calls)) :
    AcceptContract capacity before action after calls := by
  have allocated := run_allocated run
  have effect := (step_effect taken).2.1
  refine ⟨?_, ?_, ?_, (effect.allocated allocated).bound, ?_⟩
  · intro descriptor accepts
    cases effect.accepted allocated (accepts_calls accepts taken) with
    | inl placed =>
      obtain ⟨⟨slot, stored⟩, enrolled⟩ := placed
      refine Or.inl ⟨⟨slot, stored, ?_⟩, enrolled, fun turned => turned.nowhere stored⟩
      intro other storedOther
      exact storedOther.unique stored
    | inr turned => exact Or.inr ⟨turned, fun _ => turned.nowhere⟩
  · intro descriptor called
    obtain ⟨accepts, full, allOpen⟩ := effect.refused called
    exact ⟨accepts, full.trans allocated.size, allOpen⟩
  · intro descriptor accepts slot connection held isOpen
    cases effect.accepted allocated (accepts_calls accepts taken) with
    | inl placed =>
      obtain ⟨⟨_, stored⟩, _⟩ := placed
      exact stored.keeps held isOpen
    | inr turned =>
      rw [turned.sameConnections]
      exact held.2
  · intro grown
    cases effect.count allocated with
    | inl same => omega
    | inr appended => exact appended.2

/-- One client in a server with a single slot, up to the next client's event. -/
def untilSecondClient : List Action :=
  [.wait [⟨3, false, true, false⟩], .hangUp, .read (some 4), .write, .process,
    .serve (.returned none), .finish, .wait [⟨3, false, true, false⟩], .hangUp]

/-- The state that run reaches: the slot is taken and open. -/
def fullServer : Server :=
  ⟨3, ⟨[⟨0, 4, false, false, false⟩], 1, false⟩, ⟨{4, 3}, {3}, [(3, 9999), (4, 0)]⟩,
    .handling .read [⟨9999, false, true, false⟩]⟩

/-- The second client is turned away: it is accepted, answered and closed, and stored nowhere. -/
theorem accepted_clients_are_placed_when_full : Accepts fullServer (.read (some 5)) 5 ∧
    ∃ after calls, stepCalls fullServer (.read (some 5)) = some (after, calls) ∧
      calls = [.accepted 5, .refused 5, .closed 5] ∧
      AcceptContract 1 fullServer (.read (some 5)) after calls := by
  have executed : untilSecondClient.foldlM step (start 1 3 {3}) = some fullServer := rfl
  have taken : ∃ after, stepCalls fullServer (.read (some 5)) =
      some (after, [.accepted 5, .refused 5, .closed 5]) := ⟨_, rfl⟩
  obtain ⟨after, refused⟩ := taken
  exact ⟨⟨rfl, ⟨9999, false, true, false⟩, [], rfl, rfl, rfl⟩, after, _, refused, rfl,
    accepted_clients_are_placed (Runs.Run.of_foldlM executed) refused⟩

end VHttp.EventLoop
