import VHttp.ConnectionIndices
import VHttp.DescriptorOwnership

/-!
# Open connections and their registrations

What the event loop knows of its clients is in two places: the slots, and the registrations
that turn a report of the kernel into the index of a slot. A step takes an open connection away
by marking its slot, and its registration by closing its descriptor, and it adds both for a
client. Followed over a run, an open connection keeps its registration as long as nobody else
closes its descriptor, and only descriptor 1 is closed by somebody else.
-/

namespace VHttp.EventLoop

variable {before after server : Server} {action : Action} {calls : List Syscall}

/-- The index that a delivered event carries is the one of the registration. -/
theorem Delivered.lookup {descriptor index : Nat} (delivered : Delivered descriptor index server) :
    server.kernel.registered.lookup descriptor = some index := by
  obtain ⟨event, made, same⟩ := delivered [] server .start ⟨descriptor, false, false, false⟩ rfl
  simp only [eventOf, Option.map_eq_some_iff] at made
  obtain ⟨found, isFound, rfl⟩ := made
  exact same ▸ isFound

/-- What is registered is open. -/
theorem Tracked.lookup {kernel : Kernel} (tracked : Tracked kernel) {descriptor index : Nat}
    (present : kernel.registered.lookup descriptor = some index) : descriptor ∈ kernel.opened := by
  obtain ⟨earlier, later, split, _⟩ := List.lookup_eq_some_iff.mp present
  exact tracked (descriptor, index) (by simp [split])

/-- Slots that are the same serve the same. -/
theorem servesAt_unchanged (same : after.connections = before.connections) {slot descriptor : Nat} :
    after.ServesAt slot descriptor ↔ before.ServesAt slot descriptor := by
  unfold Server.ServesAt Server.Holds
  rw [same]

/-- Who is in a slot behind a step was there before, or is the client just accepted. -/
inductive Stays (before : Server) (action : Action) (after : Server) (calls : List Syscall)
    (slot descriptor : Nat) : Prop where
  | served (serves : before.ServesAt slot descriptor)
      (closed : .closed descriptor ∈ calls → descriptor = 1 ∨
        descriptor ∉ before.kernel.opened ∨
        ∃ other, other ≠ slot ∧ before.ServesAt other descriptor)
  | accepted (index : Nat) (accepts : Accepts before action descriptor)
      (fresh : descriptor ∉ before.kernel.opened)
      (stored : StoredAt descriptor before after slot) (added : .added descriptor index ∈ calls)

theorem Effect.stays {capacity : Nat} (effect : Effect before action after calls)
    (allocated : Allocated capacity before) (positioned : Positioned before) {slot descriptor : Nat}
    (serves : after.ServesAt slot descriptor) : Stays before action after calls slot descriptor := by
  cases effect with
  | unchanged sameConnections _ =>
    exact .served ((servesAt_unchanged sameConnections).mp serves) (by simp)
  | flagged _ _ _ _ read _ sameDescriptor sameClosed written _ =>
    exact .served ((servesAt_same read sameDescriptor sameClosed written).mp serves) (by simp)
  | hungUp event rest old position reported read wasOpen written _ =>
    have nowClosed : ({ old with closed := true } : TcpConnection).closed = true := rfl
    obtain ⟨different, served⟩ := (servesAt_closed nowClosed written).mp serves
    have below := positioned.pending event
      (still_pending position (List.Subset.refl _) List.mem_cons_self) reported
    have hangs : before.ServesAt event.index old.fileDescriptor :=
      ⟨old, ⟨below, read⟩, wasOpen, rfl⟩
    refine .served served fun closed => Or.inr (Or.inr ⟨event.index, Ne.symm different, ?_⟩)
    obtain rfl : descriptor = old.fileDescriptor := by simpa using closed
    exact hangs
  | reused accepted target index old accepts fresh first read _ written _ =>
    obtain ⟨held, closed⟩ := firstClosed_some first read
    rcases (servesAt_reused held closed rfl written).mp serves with ⟨rfl, rfl⟩ | served
    · exact .accepted index accepts fresh (.of_reused held closed written) (by simp)
    · exact .served served (by simp)
  | appended accepted accepts fresh none room written _ =>
    rcases (servesAt_appended allocated room rfl written).mp serves with ⟨rfl, rfl⟩ | served
    · exact .accepted before.connections.count accepts fresh (.of_appended allocated room written)
        (by simp)
    · exact .served served (by simp)
  | turnedAway accepted _ fresh _ _ sameConnections _ =>
    refine .served ((servesAt_unchanged sameConnections).mp serves) fun closed => ?_
    obtain rfl : descriptor = accepted := by simpa using closed
    exact Or.inr (Or.inl fresh)
  | served _ _ _ _ _ _ _ _ read wasOpen _ sameDescriptor stillOpen written _ =>
    exact .served ((servesAt_same read sameDescriptor (stillOpen.trans wasOpen.symm) written).mp
      serves) (by simp)
  | cleanedUp _ _ _ _ _ _ _ _ nowClosed written _ =>
    refine .served ((servesAt_closed nowClosed written).mp serves).2 fun closed => ?_
    exact Or.inl (by simpa using closed)

/-- Every open connection is registered under its slot, and the slot is not taken for the
listening socket. -/
def Addressed (server : Server) : Prop :=
  ∀ slot descriptor, server.ServesAt slot descriptor → descriptor ≠ 1 →
    server.kernel.registered.lookup descriptor = some slot ∧ slot ≠ serverIndex

/-- No two open connections have one descriptor. -/
theorem Addressed.alone (addressed : Addressed server) {first second descriptor : Nat}
    (one : server.ServesAt first descriptor) (other : server.ServesAt second descriptor)
    (apart : descriptor ≠ 1) : first = second :=
  Option.some.inj ((addressed first descriptor one apart).1.symm.trans
    (addressed second descriptor other apart).1)

/-- A step under the condition on indices keeps every open connection registered under its
slot. -/
theorem Effect.addressed {capacity : Nat} (effect : Effect before action after calls)
    (allocated : Allocated capacity before) (identified : Identified before)
    (tracked : Tracked before.kernel) (positioned : Positioned before)
    (kept : IndexKept before action) (addressed : Addressed before) : Addressed after := by
  intro slot descriptor serves apart
  cases effect.stays allocated positioned serves with
  | served served closed =>
    obtain ⟨present, reachable⟩ := addressed slot descriptor served apart
    refine ⟨effect.registered present fun dropped => ?_, reachable⟩
    rcases closed dropped with one | fresh | ⟨other, different, there⟩
    · exact apart one
    · exact fresh (tracked.lookup present)
    · exact different (addressed.alone there served apart)
  | accepted index _ _ stored added =>
    obtain ⟨there, reachable, delivered⟩ :=
      (effect.indexed allocated identified tracked kept).addressed descriptor index added
    obtain rfl : slot = index := stored.unique there
    exact ⟨delivered.lookup, reachable⟩

/-- What a run under that condition keeps of slots and registrations. -/
structure Indexed (server : Server) : Prop where
  identified : Identified server
  addressed : Addressed server

/-- In a run whose accepts meet the condition on indices, every open connection is registered
under its slot. -/
theorem run_indexed {capacity listener : Nat} {own : Finset Nat} (listening : listener ∈ own)
    {trace : List Action}
    (run : Runs.Run step IndexKept (start capacity listener own) trace server) : Indexed server := by
  have nobody : Addressed (start capacity listener own) := by
    rintro slot descriptor ⟨connection, ⟨below, _⟩, _⟩
    exact absurd below (Nat.not_lt_zero _)
  apply run.induct (fun _ reached => Indexed reached) ⟨start_identified _ _ _, nobody⟩
  intro trace before action after earlier indexed kept taken
  obtain ⟨calls, made⟩ := step_calls taken
  have effect := (step_effect made).2.1
  have allocated := run_allocated earlier
  have tracked := run_tracked listening earlier
  exact ⟨(effect.indexed allocated indexed.identified tracked kept).identified,
    effect.addressed allocated indexed.identified tracked (run_positioned earlier) kept
      indexed.addressed⟩

end VHttp.EventLoop
