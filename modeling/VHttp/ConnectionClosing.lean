import VHttp.DescriptorOwnership

/-!
# Who closes which descriptor

Under the condition on the cleanup label every step leaves descriptors with their
owners, so each close hits the descriptor of the slot it is made for, the refused
client's included. A worker that leaves through that label with any other
descriptor than 1 breaks the contract at once: the descriptor stays open and
registered, and descriptor 1 is closed, whoever has it.
-/

namespace VHttp.EventLoop

variable {before after : Server} {action : Action} {calls : List Syscall}

/-- The descriptors that a step closes, in order. -/
def closes (calls : List Syscall) : List Nat :=
  calls.filterMap (fun call => match call with
    | .closed descriptor => some descriptor
    | _ => none)

/-- What one step owes to the owners of descriptors. -/
structure ClosingContract (before after : Server) (calls : List Syscall) : Prop where
  /-- A step that marks a slot closed closes that slot's descriptor, nothing else, and
  leaves it unregistered. -/
  closesOwn : ∀ slot old new, before.Holds slot old → old.closed = false →
    after.connections.slots[slot]? = some new → new.closed = true →
      closes calls = [old.fileDescriptor] ∧ old.fileDescriptor ∉ after.kernel.opened ∧
        ∀ entry ∈ after.kernel.registered, entry.1 ≠ old.fileDescriptor
  /-- The descriptor of a closed slot is open or registered only where its number has
  been given out again. -/
  noLeak : ∀ slot connection, after.Holds slot connection → connection.closed = true →
    (connection.fileDescriptor ∈ after.kernel.opened →
      connection.fileDescriptor ∈ after.kernel.own ∨ after.Serves connection.fileDescriptor) ∧
    ∀ entry ∈ after.kernel.registered, entry.1 = connection.fileDescriptor →
      after.Serves connection.fileDescriptor
  /-- No descriptor of the process or of another slot's open connection is closed. -/
  spared : ∀ descriptor ∈ closes calls, descriptor ∉ after.kernel.own ∧
    ∀ slot, before.ServesAt slot descriptor → before.phase.subject = some slot

/-- A slot that holds a closed connection after a write and an open one before is the
written slot. -/
theorem closed_here {slot tested : Nat} {old new written' : TcpConnection}
    (held : before.Holds tested old) (wasOpen : old.closed = false)
    (now : after.connections.slots[tested]? = some new) (isClosed : new.closed = true)
    (written : after.connections = (before.write slot written').connections) :
    tested = slot ∧ written'.closed = true := by
  rw [written] at now
  simp only [Server.write] at now
  by_cases here : tested = slot
  · subst here
    have inside := (List.getElem?_eq_some_iff.mp held.2).1
    rw [List.getElem?_set_self inside, Option.some.injEq] at now
    exact ⟨rfl, now ▸ isClosed⟩
  · rw [List.getElem?_set_ne (Ne.symm here), held.2, Option.some.injEq] at now
    rw [← now, wasOpen] at isClosed
    cases isClosed

/-- A step that marks a slot closed has closed exactly its descriptor. -/
theorem Effect.closesOwn {capacity : Nat} (effect : Effect before action after calls)
    (allocated : Allocated capacity before) (cleans : CleansOwn before action)
    {slot : Nat} {old new : TcpConnection} (held : before.Holds slot old)
    (wasOpen : old.closed = false) (now : after.connections.slots[slot]? = some new)
    (isClosed : new.closed = true) :
    closes calls = [old.fileDescriptor] ∧ old.fileDescriptor ∉ after.kernel.opened ∧
      ∀ entry ∈ after.kernel.registered, entry.1 ≠ old.fileDescriptor := by
  have untouched : after.connections = before.connections → False := by
    intro same
    rw [same, held.2, Option.some.injEq] at now
    rw [← now, wasOpen] at isClosed
    cases isClosed
  cases effect with
  | unchanged sameConnections _ => exact (untouched sameConnections).elim
  | turnedAway _ _ _ _ _ sameConnections _ => exact (untouched sameConnections).elim
  | flagged other previous _ _ read _ _ sameClosed written _ =>
    obtain ⟨rfl, nowClosed⟩ := closed_here held wasOpen now isClosed written
    obtain rfl : previous = old := Option.some.inj (read.symm.trans held.2)
    rw [sameClosed, wasOpen] at nowClosed
    cases nowClosed
  | served other _ _ _ _ _ _ _ _ _ _ _ stillOpen written _ =>
    obtain ⟨_, nowClosed⟩ := closed_here held wasOpen now isClosed written
    rw [stillOpen] at nowClosed
    cases nowClosed
  | hungUp event _ previous _ _ read _ written closed =>
    obtain ⟨rfl, _⟩ := closed_here held wasOpen now isClosed written
    obtain rfl : previous = old := Option.some.inj (read.symm.trans held.2)
    refine ⟨rfl, ?_, ?_⟩
    · rw [closed]
      simp [Kernel.close]
    · intro entry member
      rw [closed] at member
      simpa using (List.mem_filter.mp member).2
  | cleanedUp other previous _ _ cleansUp _ _ _ _ written closed =>
    obtain ⟨rfl, _⟩ := closed_here held wasOpen now isClosed written
    have flagged := cleans slot previous cleansUp
    obtain ⟨_, _, _, _, _, read, _, _⟩ := cleansUp
    obtain rfl : previous = old := Option.some.inj (read.symm.trans held.2)
    rw [flagged]
    refine ⟨rfl, ?_, ?_⟩
    · rw [closed]
      simp [Kernel.close]
    · intro entry member
      rw [closed] at member
      simpa using (List.mem_filter.mp member).2
  | reused _ _ _ _ _ _ _ _ _ written _ =>
    obtain ⟨_, nowClosed⟩ := closed_here held wasOpen now isClosed written
    cases nowClosed
  | appended descriptor _ _ _ room written _ =>
    have earlier : after.connections.slots[slot]? = some old := by
      have stored := StoredAt.of_appended allocated room written
      rw [stored.elsewhere (Nat.ne_of_lt held.1), held.2]
    rw [earlier, Option.some.injEq] at now
    rw [← now, wasOpen] at isClosed
    cases isClosed

/-- Every descriptor that a step closes is the new client's or the subject's. -/
theorem Effect.spared (effect : Effect before action after calls)
    (positioned : Positioned before) (owned : Owned before) (cleans : CleansOwn before action) :
    ∀ descriptor ∈ closes calls, descriptor ∉ after.kernel.own ∧
      ∀ slot, before.ServesAt slot descriptor → before.phase.subject = some slot := by
  intro descriptor member
  cases effect with
  | unchanged _ _ => simp [closes] at member
  | flagged _ _ _ _ _ _ _ _ _ _ => simp [closes] at member
  | served _ _ _ _ _ _ _ _ _ _ _ _ _ _ _ => simp [closes] at member
  | reused _ _ _ _ _ _ _ _ _ _ _ => simp [closes] at member
  | appended _ _ _ _ _ _ _ => simp [closes] at member
  | hungUp event rest old position reported read wasOpen _ closed =>
    obtain rfl : descriptor = old.fileDescriptor := by simpa [closes] using member
    have inUse : event.index < before.connections.count :=
      positioned.pending event (by rw [position]; exact List.mem_cons_self) reported
    have here : before.ServesAt event.index old.fileDescriptor :=
      ⟨old, ⟨inUse, read⟩, wasOpen, rfl⟩
    refine ⟨?_, ?_⟩
    · rw [closed]
      exact owned.disjoint _ ⟨_, here⟩
    · intro slot there
      rw [owned.distinct slot event.index _ there here, position]
      rfl
  | cleanedUp slot old _ file cleansUp fresh _ _ _ _ closed =>
    obtain rfl : descriptor = 1 := by simpa [closes] using member
    have flagged := cleans slot old cleansUp
    obtain ⟨_, here⟩ := cleansUp.served positioned
    obtain ⟨count, _, _, position, _⟩ := cleansUp
    rw [flagged] at here
    refine ⟨?_, ?_⟩
    · rw [closed]
      exact (owned.openFile fresh).disjoint 1 ⟨slot, here⟩
    · intro other there
      rw [owned.distinct other slot 1 there here, position]
      rfl
  | turnedAway client _ fresh _ _ _ closed =>
    obtain rfl : descriptor = client := by simpa [closes] using member
    refine ⟨?_, ?_⟩
    · rw [closed]
      exact fun mine => fresh ((owned.opened descriptor).mpr (Or.inl mine))
    · intro slot there
      exact absurd ((owned.opened descriptor).mpr (Or.inr ⟨slot, there⟩)) fresh

/-- Ownership leaves no open or registered descriptor to a closed slot. -/
theorem Owned.noLeak {server : Server} (owned : Owned server) {slot : Nat}
    {connection : TcpConnection} (held : server.Holds slot connection) :
    (connection.fileDescriptor ∈ server.kernel.opened →
      connection.fileDescriptor ∈ server.kernel.own ∨ server.Serves connection.fileDescriptor) ∧
    ∀ entry ∈ server.kernel.registered, entry.1 = connection.fileDescriptor →
      server.Serves connection.fileDescriptor := by
  refine ⟨(owned.opened _).mp, ?_⟩
  intro entry member same
  rw [← same]
  refine (owned.registered entry member).resolve_left ?_
  rw [same]
  exact owned.apart slot connection held

/-- In a run whose workers leave through the cleanup label only with descriptor 1, the
next step meets the contract exactly when it does so too. -/
theorem descriptors_are_closed_by_owner {capacity listener : Nat} {own : Finset Nat}
    (listening : listener ∈ own) {trace : List Action}
    (run : Runs.Run step CleansOwn (start capacity listener own) trace before)
    (taken : stepCalls before action = some (after, calls)) :
    ClosingContract before after calls ↔ CleansOwn before action := by
  have allocated := run_allocated run
  have positioned := run_positioned run
  have owned : Owned before := by
    refine run.induct (fun _ reached => Owned reached) (start_owned listening) ?_
    intro trace earlier action later runSoFar held kept made
    obtain ⟨calls, called⟩ := step_calls made
    obtain ⟨sameListener, effect, _⟩ := step_effect called
    exact effect.owned sameListener (run_allocated runSoFar) (run_positioned runSoFar) held kept
  obtain ⟨sameListener, effect, _⟩ := step_effect taken
  constructor
  · intro contract slot connection cleansUp
    obtain ⟨held, _⟩ := cleansUp.served positioned
    obtain ⟨called, new, nowClosed, written⟩ := cleansUp_step cleansUp taken
    have now : after.connections.slots[slot]? = some new := by
      rw [written]
      exact List.getElem?_set_self (List.getElem?_eq_some_iff.mp held.2).1
    obtain ⟨_, _, _, _, _, _, wasOpen, _⟩ := cleansUp
    have closing := (contract.closesOwn slot connection new held wasOpen now nowClosed).1
    rw [called] at closing
    simpa [closes] using closing.symm
  · intro cleans
    refine ⟨?_, ?_, effect.spared positioned owned cleans⟩
    · intro slot old new held wasOpen now isClosed
      exact effect.closesOwn allocated cleans held wasOpen now isClosed
    · intro slot connection held _
      exact (effect.owned sameListener allocated positioned owned cleans).noLeak held

/-- A first client that hangs up, at its event. -/
def untilHangUp : List Action :=
  [.wait [⟨3, false, true, false⟩], .hangUp, .read (some 4), .write, .process,
    .serve (.returned none), .finish, .wait [⟨4, true, false, false⟩]]

/-- The state that run reaches. -/
def hangingUp : Server :=
  ⟨3, ⟨[⟨0, 4, false, false, false⟩], 1, false⟩, ⟨{4, 3}, {3}, [(3, 9999), (4, 0)]⟩,
    .handling .hangUp [⟨0, true, false, false⟩]⟩

/-- The hang-up closes that client's descriptor. -/
theorem descriptors_are_closed_by_owner_at_hangup :
    ∃ after, stepCalls hangingUp .hangUp = some (after, [.removed 4, .closed 4]) ∧
      ClosingContract hangingUp after [.removed 4, .closed 4] := by
  have executed : untilHangUp.foldlM step (start 1 3 {3}) = some hangingUp := rfl
  have run : Runs.Run step CleansOwn (start 1 3 {3}) untilHangUp hangingUp := by
    refine Runs.Run.of_admitted ?_ executed
    rintro action member reached slot connection ⟨_, _, rfl, _⟩
    simp [untilHangUp] at member
  have kept : CleansOwn hangingUp .hangUp := by
    rintro slot connection ⟨_, _, other, _⟩
    cases other
  have taken : ∃ after, stepCalls hangingUp .hangUp =
      some (after, [.removed 4, .closed 4]) := ⟨_, rfl⟩
  obtain ⟨after, made⟩ := taken
  exact ⟨after, made, (descriptors_are_closed_by_owner (by decide) run made).mpr kept⟩

/-- A first client that has sent something, when `ProcessEvents` comes to it. -/
def untilFirstRequest : List Action :=
  [.wait [⟨3, false, true, false⟩], .hangUp, .read (some 4), .write, .process,
    .serve (.returned none), .finish, .wait [⟨4, false, true, true⟩], .hangUp, .read none, .write,
    .process]

/-- The state that run reaches. -/
def firstRequest : Server :=
  ⟨3, ⟨[⟨0, 4, true, true, false⟩], 1, false⟩, ⟨{4, 3}, {3}, [(3, 9999), (4, 0)]⟩,
    .processing 0 1⟩

/-- When the worker gives up on that client, the client's descriptor stays open and
registered, and descriptor 1 is closed in its place. -/
theorem cleanup_closes_descriptor_one :
    ¬ ∀ (capacity listener : Nat) (own : Finset Nat) (trace : List Action)
      (before after : Server) (action : Action) (calls : List Syscall), listener ∈ own →
        Runs.Run step Runs.anywhere (start capacity listener own) trace before →
          stepCalls before action = some (after, calls) → ClosingContract before after calls := by
  intro claimed
  have executed : untilFirstRequest.foldlM step (start 1 3 {3}) = some firstRequest := rfl
  have taken : ∃ after, stepCalls firstRequest (.serve (.cleanup none)) =
      some (after, [.closed 1]) ∧
      after.connections = ⟨[⟨0, 4, false, false, true⟩], 1, false⟩ := ⟨_, rfl, rfl⟩
  obtain ⟨after, made, connections⟩ := taken
  have contract := claimed 1 3 {3} _ _ after _ _ (by decide) (Runs.Run.of_foldlM executed) made
  have closing := (contract.closesOwn 0 _ _ ⟨by decide, rfl⟩ rfl
    (by rw [connections]; rfl) rfl).1
  cases closing

end VHttp.EventLoop
