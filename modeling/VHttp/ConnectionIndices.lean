import VHttp.ConnectionSlots

/-!
# The index a client is registered with

Every slot keeps its own index, and a client is registered under it, as long as the
accept branch is the one below capacity. At capacity the client overwrites a closed
slot together with the index in it, and is registered under zero. The law says for
which accepts the index is right, and that from then on every event of the
descriptor carries it until the descriptor is closed.

One slot is out of reach even below capacity: its index is the one under which the
listening socket is registered, so that a client in it would be taken for a new
connection.
-/

namespace VHttp.EventLoop

variable {before after : Server} {action : Action} {calls : List Syscall}

/-- Every slot in use keeps its own index. -/
def Identified (server : Server) : Prop :=
  ∀ slot < server.connections.count, ∃ connection,
    server.connections.slots[slot]? = some connection ∧ connection.id = slot

/-- The slot that the accept branch would store a client in. -/
def destination (connections : VArray TcpConnection) : Option Nat :=
  match firstClosed connections connections.count with
  | some slot => some slot
  | none => if connections.count = connections.capacity then none else some connections.count

/-- An accept stores no client at the listening socket's index, and at full capacity
in no other slot than the first. -/
def IndexKept (server : Server) (action : Action) : Prop :=
  ∀ descriptor, Accepts server action descriptor → ∀ slot,
    destination server.connections = some slot →
      slot ≠ serverIndex ∧ (server.connections.count = server.connections.capacity → slot = 0)

/-- The steps that do not close this descriptor. -/
def KeepsOpen (descriptor : Nat) (server : Server) (action : Action) : Prop :=
  ∀ after calls, stepCalls server action = some (after, calls) → .closed descriptor ∉ calls

/-- From here on, until the descriptor is closed, its events carry this index. -/
def Delivered (descriptor index : Nat) (server : Server) : Prop :=
  ∀ trace later, Runs.Run step (KeepsOpen descriptor) server trace later →
    ∀ report : Report, report.descriptor = descriptor →
      ∃ event, eventOf later.kernel report = some event ∧ event.index = index

/-- What one step owes to the indices: every slot in use keeps its own, and a client
is registered under the slot it is written to, where its events will find it. -/
structure IndexContract (before after : Server) (calls : List Syscall) : Prop where
  identified : Identified after
  addressed : ∀ descriptor index, .added descriptor index ∈ calls →
    StoredAt descriptor before after index ∧ index ≠ serverIndex ∧
      Delivered descriptor index after

theorem start_identified (capacity listener : Nat) (own : Finset Nat) :
    Identified (start capacity listener own) := by
  intro slot below
  simp [start, VArray.init] at below

/-- Writing a slot keeps the indices when the new connection has the slot's own. -/
theorem Identified.write {slot : Nat} {connection : TcpConnection}
    (identified : Identified before)
    (own : slot < before.connections.count → connection.id = slot)
    (written : after.connections = (before.write slot connection).connections) :
    Identified after := by
  intro tested below
  rw [written] at below ⊢
  obtain ⟨held, read, same⟩ := identified tested below
  by_cases here : tested = slot
  · subst here
    have inside := (List.getElem?_eq_some_iff.mp read).1
    exact ⟨connection, List.getElem?_set_self inside, own below⟩
  · refine ⟨held, ?_, same⟩
    simp only [Server.write]
    rw [List.getElem?_set_ne (Ne.symm here), read]

/-- A rewritten connection that keeps its index keeps the slot's. -/
theorem Identified.sameId {slot : Nat} {old new : TcpConnection} (identified : Identified before)
    (read : before.connections.slots[slot]? = some old) (sameId : new.id = old.id)
    (written : after.connections = (before.write slot new).connections) : Identified after := by
  refine identified.write ?_ written
  intro below
  obtain ⟨held, readAgain, same⟩ := identified slot below
  rw [sameId, Option.some.inj (read.symm.trans readAgain), same]

/-- An appended client is the last one in use and has the count as its index. -/
theorem Identified.push {capacity : Nat} {client : TcpConnection} (identified : Identified before)
    (allocated : Allocated capacity before)
    (room : before.connections.count ≠ before.connections.capacity)
    (index : client.id = before.connections.count)
    (written : after.connections = before.connections.push client TcpConnection.zero) :
    Identified after := by
  obtain ⟨inside, pushed⟩ := allocated.push client room
  intro tested below
  rw [written, pushed] at below ⊢
  simp only at below ⊢
  by_cases last : tested = before.connections.count
  · subst last
    exact ⟨client, List.getElem?_set_self inside, index⟩
  · obtain ⟨held, read, same⟩ := identified tested (by omega)
    exact ⟨held, by rw [List.getElem?_set_ne (Ne.symm last), read], same⟩

/-- The kernel keeps registrations of open descriptors only. -/
def Tracked (kernel : Kernel) : Prop := ∀ entry ∈ kernel.registered, entry.1 ∈ kernel.opened

theorem Tracked.accept {kernel : Kernel} (tracked : Tracked kernel) (descriptor : Nat) :
    Tracked (kernel.accept descriptor) :=
  fun entry member => Finset.mem_insert_of_mem (tracked entry member)

theorem Tracked.addFd {kernel : Kernel} (tracked : Tracked kernel) {descriptor index : Nat}
    (isOpen : descriptor ∈ kernel.opened) : Tracked (kernel.addFd descriptor index) := by
  intro entry member
  simp only [Kernel.addFd, List.mem_append, List.mem_singleton] at member
  cases member with
  | inl known => exact tracked entry known
  | inr new => exact new ▸ isOpen

theorem Tracked.removeFd {kernel : Kernel} (tracked : Tracked kernel) (descriptor : Nat) :
    Tracked (kernel.removeFd descriptor) :=
  fun entry member => tracked entry (List.mem_filter.mp member).1

theorem Tracked.close {kernel : Kernel} (tracked : Tracked kernel) (descriptor : Nat) :
    Tracked (kernel.close descriptor) := by
  intro entry member
  obtain ⟨known, different⟩ := List.mem_filter.mp member
  exact Finset.mem_erase.mpr ⟨by simpa using different, tracked entry known⟩

theorem Tracked.openFile {kernel : Kernel} (tracked : Tracked kernel) (file : Option Nat) :
    Tracked (kernel.openFile file) := by
  cases file with
  | none => exact tracked
  | some descriptor => exact fun entry member => Finset.mem_insert_of_mem (tracked entry member)

theorem Effect.tracked (effect : Effect before action after calls)
    (tracked : Tracked before.kernel) : Tracked after.kernel := by
  cases effect with
  | unchanged _ sameKernel => exact sameKernel ▸ tracked
  | flagged _ _ _ _ _ _ _ _ _ sameKernel => exact sameKernel ▸ tracked
  | hungUp _ _ _ _ _ _ _ _ closed => exact closed ▸ (tracked.removeFd _).close _
  | reused descriptor _ _ _ _ _ _ _ _ _ opened =>
    exact opened ▸ (tracked.accept descriptor).addFd (Finset.mem_insert_self _ _)
  | appended descriptor _ _ _ _ _ opened =>
    exact opened ▸ (tracked.accept descriptor).addFd (Finset.mem_insert_self _ _)
  | turnedAway _ _ _ _ _ _ closed => exact closed ▸ (tracked.accept _).close _
  | served _ _ _ _ file _ _ _ _ _ _ _ _ _ kept => exact kept ▸ tracked.openFile file
  | cleanedUp _ _ _ file _ _ _ _ _ _ closed => exact closed ▸ (tracked.openFile file).close 1

theorem run_tracked {capacity listener : Nat} {own : Finset Nat} (listening : listener ∈ own)
    {admitted : Server → Action → Prop} {trace : List Action} {server : Server}
    (run : Runs.Run step admitted (start capacity listener own) trace server) :
    Tracked server.kernel := by
  refine run.invariant (fun server => Tracked server.kernel) ?_ ?_
  · intro entry member
    simp only [start, List.mem_singleton] at member
    rw [member]
    exact listening
  · intro before action after tracked _ taken
    obtain ⟨calls, made⟩ := step_calls taken
    exact (step_effect made).2.1.tracked tracked

/-- Dropping another descriptor's registrations does not change this one's. -/
theorem lookup_dropped (registered : List (Nat × Nat)) {descriptor other : Nat}
    (different : descriptor ≠ other) :
    (registered.filter (fun entry => decide (entry.1 ≠ other))).lookup descriptor =
      registered.lookup descriptor := by
  induction registered with
  | nil => rfl
  | cons entry rest inductionHypothesis =>
    obtain ⟨key, index⟩ := entry
    by_cases dropped : key = other
    · have apart : (descriptor == key) = false := by simpa [dropped] using different
      rw [List.filter_cons_of_neg (by simpa using dropped), inductionHypothesis, List.lookup_cons,
        apart]
    · rw [List.filter_cons_of_pos (by simpa using dropped), List.lookup_cons, List.lookup_cons,
        inductionHypothesis]

/-- A registration outlives every step that does not close its descriptor. -/
theorem Effect.registered {descriptor index : Nat} (effect : Effect before action after calls)
    (present : before.kernel.registered.lookup descriptor = some index)
    (kept : .closed descriptor ∉ calls) :
    after.kernel.registered.lookup descriptor = some index := by
  cases effect with
  | unchanged _ sameKernel => rw [sameKernel, present]
  | flagged _ _ _ _ _ _ _ _ _ sameKernel => rw [sameKernel, present]
  | hungUp _ _ old _ _ _ _ _ closed =>
    have different : descriptor ≠ old.fileDescriptor := by simpa using kept
    rw [closed]
    simp only [Kernel.close, Kernel.removeFd]
    rw [lookup_dropped _ different, lookup_dropped _ different, present]
  | reused _ _ _ _ _ _ _ _ _ _ opened =>
    rw [opened]
    simp [Kernel.addFd, Kernel.accept, List.lookup_append, present]
  | appended _ _ _ _ _ _ opened =>
    rw [opened]
    simp [Kernel.addFd, Kernel.accept, List.lookup_append, present]
  | turnedAway other _ _ _ _ _ closed =>
    have different : descriptor ≠ other := by simpa using kept
    rw [closed]
    simp only [Kernel.close, Kernel.accept]
    rw [lookup_dropped _ different, present]
  | served _ _ _ _ file _ _ _ _ _ _ _ _ _ opened =>
    rw [opened]
    cases file <;> exact present
  | cleanedUp _ _ _ file _ _ _ _ _ _ closed =>
    have different : descriptor ≠ 1 := by simpa using kept
    rw [closed]
    simp only [Kernel.close]
    rw [lookup_dropped _ different]
    cases file <;> exact present

/-- A descriptor that has a registration keeps getting its events under it. -/
theorem delivered_of_registered {descriptor index : Nat} {server : Server}
    (present : server.kernel.registered.lookup descriptor = some index) :
    Delivered descriptor index server := by
  intro trace later run report same
  have still : later.kernel.registered.lookup descriptor = some index := by
    refine run.invariant (fun reached => reached.kernel.registered.lookup descriptor = some index)
      present ?_
    intro before action after held kept taken
    obtain ⟨calls, made⟩ := step_calls taken
    exact (step_effect made).2.1.registered held (kept after calls made)
  refine ⟨⟨index, report.hangUp, report.readable, report.writable⟩, ?_, rfl⟩
  simp [eventOf, same, still]

/-- A new client's registration is the one its events are looked up by. -/
theorem registered_fresh {kernel : Kernel} {descriptor index : Nat} (tracked : Tracked kernel)
    (fresh : descriptor ∉ kernel.opened) :
    ((kernel.accept descriptor).addFd descriptor index).registered.lookup descriptor =
      some index := by
  have unknown : kernel.registered.lookup descriptor = none := by
    refine List.lookup_eq_none_iff.mpr ?_
    intro entry member
    have different : descriptor ≠ entry.1 := by
      rintro rfl
      exact fresh (tracked entry member)
    simpa using different
  simp [Kernel.addFd, Kernel.accept, List.lookup_append, unknown]

/-- One accept under the condition keeps every index and registers the client under
its slot. -/
theorem Effect.indexed {capacity : Nat} (effect : Effect before action after calls)
    (allocated : Allocated capacity before) (identified : Identified before)
    (tracked : Tracked before.kernel) (kept : IndexKept before action) :
    IndexContract before after calls := by
  cases effect with
  | unchanged sameConnections _ =>
    refine ⟨?_, by simp⟩
    intro slot below
    rw [sameConnections] at below ⊢
    exact identified slot below
  | flagged slot old new _ read sameId _ _ written _ =>
    exact ⟨identified.sameId read sameId written, by simp⟩
  | hungUp event _ old _ _ read _ written _ =>
    have sameIndex : ({ old with closed := true } : TcpConnection).id = old.id := rfl
    exact ⟨identified.sameId read sameIndex written, by simp⟩
  | served slot _ old new _ _ _ _ read _ sameId _ _ written _ =>
    exact ⟨identified.sameId read sameId written, by simp⟩
  | cleanedUp slot old new _ cleans _ sameId _ _ written _ =>
    obtain ⟨_, _, _, _, _, read, _, _⟩ := cleans
    exact ⟨identified.sameId read sameId written, by simp⟩
  | turnedAway _ _ _ _ _ sameConnections _ =>
    refine ⟨?_, by simp⟩
    intro slot below
    rw [sameConnections] at below ⊢
    exact identified slot below
  | reused descriptor slot index old accepts fresh first read chosen written opened =>
    obtain ⟨held, closed⟩ := firstClosed_some first read
    obtain ⟨reachable, atCapacity⟩ := kept descriptor accepts slot (by simp [destination, first])
    have own : index = slot := by
      by_cases full : before.connections.count = before.connections.capacity
      · rw [chosen, if_pos full, atCapacity full]
      · obtain ⟨same, readAgain, ownIndex⟩ := identified slot held.1
        rw [chosen, if_neg full, Option.some.inj (read.symm.trans readAgain), ownIndex]
    subst own
    have ownIndex : index < before.connections.count → ({ TcpConnection.zero with
        id := index, fileDescriptor := descriptor } : TcpConnection).id = index := fun _ => rfl
    refine ⟨identified.write ownIndex written, ?_⟩
    intro other target added
    obtain ⟨rfl, rfl⟩ : other = descriptor ∧ target = index := by simpa using added
    refine ⟨StoredAt.of_reused held closed written, reachable, delivered_of_registered ?_⟩
    rw [opened]
    exact registered_fresh tracked fresh
  | appended descriptor accepts fresh none room written opened =>
    obtain ⟨reachable, _⟩ := kept descriptor accepts before.connections.count
      (by simp [destination, none, room])
    refine ⟨identified.push allocated room rfl written, ?_⟩
    intro other target added
    obtain ⟨rfl, rfl⟩ : other = descriptor ∧ target = before.connections.count := by
      simpa using added
    refine ⟨StoredAt.of_appended allocated room written, reachable, delivered_of_registered ?_⟩
    rw [opened]
    exact registered_fresh tracked fresh

/-- The condition is also necessary: the registered index tells which branch chose
the slot. -/
theorem Effect.index_needed (effect : Effect before action after calls)
    (accepted : ∀ descriptor, Accepts before action descriptor → .accepted descriptor ∈ calls)
    (contract : IndexContract before after calls) : IndexKept before action := by
  intro descriptor accepts slot chosen
  have called := accepted descriptor accepts
  cases effect with
  | unchanged _ _ => simp at called
  | flagged _ _ _ _ _ _ _ _ _ _ => simp at called
  | hungUp _ _ _ _ _ _ _ _ _ => simp at called
  | served _ _ _ _ _ _ _ _ _ _ _ _ _ _ _ => simp at called
  | cleanedUp _ _ _ _ _ _ _ _ _ _ _ => simp at called
  | reused stored first index old _ _ scanned read rule written _ =>
    obtain rfl : first = slot := by simpa [destination, scanned] using chosen
    obtain ⟨there, reachable, _⟩ := contract.addressed stored index (by simp)
    obtain ⟨held, closed⟩ := firstClosed_some scanned read
    have here := StoredAt.of_reused held closed written
    have same : first = index := here.unique there
    refine ⟨same ▸ reachable, ?_⟩
    intro full
    rw [same, rule, if_pos full]
  | appended stored _ _ none room _ _ =>
    obtain rfl : before.connections.count = slot := by
      simpa [destination, none, room] using chosen
    obtain ⟨_, reachable, _⟩ := contract.addressed stored _ (List.mem_cons_of_mem _ List.mem_cons_self)
    exact ⟨reachable, fun full => absurd full room⟩
  | turnedAway _ _ _ none full _ _ => simp [destination, none, if_pos full] at chosen

/-- In a run whose accepts all meet the condition every slot in use keeps its own
index, and the next step registers its client under the slot it writes, for all
later events, exactly when it meets the condition too. -/
theorem registered_index_is_slot {capacity listener : Nat} {own : Finset Nat}
    (listening : listener ∈ own) {trace : List Action}
    (run : Runs.Run step IndexKept (start capacity listener own) trace before)
    (taken : stepCalls before action = some (after, calls)) :
    Identified before ∧ (IndexContract before after calls ↔ IndexKept before action) := by
  have identified : Identified before := by
    refine run.induct (fun _ reached => Identified reached) (start_identified _ _ _) ?_
    intro trace earlier action later runSoFar held kept made
    obtain ⟨calls, called⟩ := step_calls made
    exact ((step_effect called).2.1.indexed (run_allocated runSoFar) held
      (run_tracked listening runSoFar) kept).identified
  have effect := (step_effect taken).2.1
  refine ⟨identified, ?_, ?_⟩
  · exact effect.index_needed (fun descriptor accepts => accepts_calls accepts taken)
  · exact effect.indexed (run_allocated run) identified (run_tracked listening run)

/-- The first client of a server with two slots, at its event. -/
def firstClient : Server :=
  { start 2 3 {3} with phase := .handling .read [⟨9999, false, true, false⟩] }

/-- It is registered under the slot it is written to. -/
theorem registered_index_is_slot_first :
    ∃ after, stepCalls firstClient (.read (some 4)) =
      some (after, [.accepted 4, .added 4 0]) ∧
      IndexContract firstClient after [.accepted 4, .added 4 0] := by
  have waits : IndexKept (start 2 3 {3}) (.wait [⟨3, false, true, false⟩]) := by
    rintro descriptor ⟨other, _⟩
    cases other
  have ignores : IndexKept
      { start 2 3 {3} with phase := .handling .hangUp [⟨9999, false, true, false⟩] } .hangUp := by
    rintro descriptor ⟨other, _⟩
    cases other
  have run : Runs.Run step IndexKept (start 2 3 {3})
      (([] ++ [.wait [⟨3, false, true, false⟩]]) ++ [.hangUp]) firstClient :=
    (Runs.Run.start.next waits rfl).next ignores rfl
  have kept : IndexKept firstClient (.read (some 4)) := by
    intro descriptor _ slot chosen
    have first : destination firstClient.connections = some 0 := by decide
    obtain rfl : 0 = slot := Option.some.inj (first.symm.trans chosen)
    exact ⟨by decide, fun _ => rfl⟩
  have taken : ∃ after, stepCalls firstClient (.read (some 4)) =
      some (after, [.accepted 4, .added 4 0]) := ⟨_, rfl⟩
  obtain ⟨after, made⟩ := taken
  exact ⟨after, made, (registered_index_is_slot (by decide) run made).2.mpr kept⟩

/-- Two clients fill a server with two slots, the second hangs up, and a third is
about to be accepted. -/
def untilReuseAtCapacity : List Action :=
  [.wait [⟨3, false, true, false⟩], .hangUp, .read (some 4), .write, .process,
    .serve (.returned none), .finish,
    .wait [⟨3, false, true, false⟩], .hangUp, .read (some 5), .write, .process,
    .serve (.returned none), .serve (.returned none), .finish,
    .wait [⟨5, true, false, false⟩, ⟨3, false, true, false⟩], .hangUp, .read none, .write,
    .hangUp]

/-- The state before that accept: the second slot is closed. -/
def reuseAtCapacity : Server :=
  ⟨3, ⟨[⟨0, 4, false, false, false⟩, ⟨1, 5, false, false, true⟩], 2, false⟩,
    ⟨({5, 4, 3} : Finset Nat).erase 5, {3}, [(3, 9999), (4, 0)]⟩,
    .handling .read [⟨9999, false, true, false⟩]⟩

/-- The third client is written to the second slot and registered under the first,
which is another client's. -/
theorem reuse_at_capacity_misdirects :
    ¬ ∀ (capacity listener : Nat) (own : Finset Nat) (trace : List Action)
      (before after : Server) (action : Action) (calls : List Syscall), 1 ≤ capacity →
        listener ∈ own → Runs.Run step Runs.anywhere (start capacity listener own) trace before →
          stepCalls before action = some (after, calls) → IndexContract before after calls := by
  intro claimed
  have executed : untilReuseAtCapacity.foldlM step (start 2 3 {3}) = some reuseAtCapacity := rfl
  have taken : ∃ after, stepCalls reuseAtCapacity (.read (some 6)) =
      some (after, [.accepted 6, .added 6 0]) ∧
      after.connections = ⟨[⟨0, 4, false, false, false⟩, ⟨0, 6, false, false, false⟩], 2, false⟩ :=
    ⟨_, rfl, rfl⟩
  obtain ⟨after, made, connections⟩ := taken
  have contract := claimed 2 3 {3} _ _ after _ _ (by decide) (by decide)
    (Runs.Run.of_foldlM executed) made
  obtain ⟨connection, read, own⟩ := contract.identified 1 (by rw [connections]; decide)
  have held : connection = ⟨0, 6, false, false, false⟩ := by simpa [connections] using read.symm
  rw [held] at own
  cases own

end VHttp.EventLoop
