import Mathlib.Data.Finset.Card
import VHttp.RegisteredConnections
import VHttp.WholeServer

/-!
# The descriptors that are left open

A worker that leaves through its cleanup label marks its slot and closes descriptor 1; a worker
that answers by sendfile, or whose read of a file is short or fails, returns without closing the
file. In both cases a descriptor stays open that no slot and no variable of the server names any
more, so that nothing will ever close it. The account of a run has four entries: what the process
had open when it started, the clients in open slots, the connections that were cleaned up, and
the files that workers have left open. Descriptor 1 is kept
out of the account, since every cleanup closes it, whoever has it.
-/

namespace VHttp.EventLoop

variable {before after server : Server} {action : Action} {calls : List Syscall}

/-- The descriptor of the connection that a step cleans up. -/
def connectionLeft (server : Server) : Action → Option Nat
  | .serve (.cleanup _) =>
    ((WholeServer.due server).map TcpConnection.fileDescriptor).filter (fun left => left ≠ 1)
  | _ => none

/-- The file that the worker opens in a step and leaves open. -/
def fileOpened (server : Server) : Action → Option Nat
  | .serve outcome => if (WholeServer.due server).isSome then outcome.file else none
  | _ => none

/-- The file that a step leaves open, on another descriptor than 1. -/
def fileLeft (server : Server) (action : Action) : Option Nat :=
  (fileOpened server action).filter (fun left => left ≠ 1)

/-- All that the steps of a run leave, in order. -/
def leftBy (left : Server → Action → Option Nat) (server : Server) : List Action → List Nat
  | [] => []
  | action :: rest =>
    match step server action with
    | some after => (left server action).toList ++ leftBy left after rest
    | none => []

/-- The slots in use with an open connection. -/
def openSlots (server : Server) : Finset Nat :=
  (Finset.range server.connections.count).filter (fun slot =>
    (server.connections.slots[slot]?).any
      (fun connection => !connection.closed && decide (connection.fileDescriptor ≠ 1)))

/-- The descriptor in a slot. -/
def descriptorAt (server : Server) (slot : Nat) : Nat :=
  ((server.connections.slots[slot]?).map TcpConnection.fileDescriptor).getD 0

theorem leftBy_next {left : Server → Action → Option Nat} {origin : Server} {trace : List Action}
    (run : Runs.Run step Runs.anywhere origin trace before) (taken : step before action = some after) :
    leftBy left origin (trace ++ [action]) =
      leftBy left origin trace ++ (left before action).toList := by
  induction trace generalizing origin with
  | nil =>
    obtain rfl : origin = before := Option.some.inj run.executed
    simp [leftBy, taken]
  | cons first rest inductionHypothesis =>
    obtain ⟨middle, stepped, remaining⟩ := run.first
    simp only [List.cons_append, leftBy, stepped, inductionHypothesis remaining, List.append_assoc]

/-! ## What a step leaves -/

/-- A step that leaves a connection is a cleanup. -/
theorem connectionLeft_cleans {left : Nat} (leaves : connectionLeft before action = some left) :
    ∃ slot connection, CleansUp before action slot connection ∧
      connection.fileDescriptor = left ∧ left ≠ 1 := by
  unfold connectionLeft at leaves
  split at leaves
  · rename_i file
    obtain ⟨mapped, apart⟩ := Option.filter_eq_some_iff.mp leaves
    obtain ⟨connection, isDue, same⟩ := Option.map_eq_some_iff.mp mapped
    obtain ⟨slot, count, position, below, read, isOpen, readable⟩ := WholeServer.due_spec isDue
    exact ⟨slot, connection, ⟨count, file, rfl, position, below, read, isOpen, readable⟩, same,
      by simpa using apart⟩
  · cases leaves

/-- A cleanup leaves its connection, unless that is on descriptor 1. -/
theorem CleansUp.connectionLeft {slot : Nat} {connection : TcpConnection}
    (cleans : CleansUp before action slot connection) :
    connectionLeft before action =
      if connection.fileDescriptor = 1 then none else some connection.fileDescriptor := by
  obtain ⟨count, file, rfl, position, below, read, isOpen, readable⟩ := cleans
  have isDue : WholeServer.due before = some connection := by
    simp [WholeServer.due, position, below, read, isOpen, readable]
  by_cases one : connection.fileDescriptor = 1
  · simp [EventLoop.connectionLeft, isDue, one]
  · simp [EventLoop.connectionLeft, isDue, one]

/-- A step with other calls than those of a cleanup leaves no connection. -/
theorem no_connection_left (taken : stepCalls before action = some (after, calls))
    (other : calls ≠ [.closed 1]) : connectionLeft before action = none := by
  by_contra leaves
  obtain ⟨left, some⟩ := Option.ne_none_iff_exists'.mp leaves
  obtain ⟨_, _, cleans, _⟩ := connectionLeft_cleans some
  exact other (cleansUp_step cleans taken).1

/-- Where no worker is called, the process opens nothing of its own. -/
theorem own_kept (taken : stepCalls before action = some (after, calls))
    (other : ∀ outcome, action ≠ .serve outcome) : after.kernel.own = before.kernel.own := by
  have effect := (step_effect taken).2.1
  cases effect with
  | unchanged _ sameKernel => rw [sameKernel]
  | flagged _ _ _ _ _ _ _ _ _ sameKernel => rw [sameKernel]
  | hungUp _ _ _ _ _ _ _ _ closed => rw [closed]; rfl
  | reused _ _ _ _ _ _ _ _ _ _ opened => rw [opened]; rfl
  | appended _ _ _ _ _ _ opened => rw [opened]; rfl
  | turnedAway _ _ _ _ _ _ closed => rw [closed]; rfl
  | cleanedUp _ _ _ _ cleans _ _ _ _ _ _ =>
    obtain ⟨_, file, rfl, _⟩ := cleans
    exact absurd rfl (other (.cleanup file))
  | served slot count _ _ file position =>
    -- Only the end of `ProcessEvents` is left, which changes the position alone.
    cases action with
    | serve outcome => exact absurd rfl (other outcome)
    | finish =>
      simp only [stepCalls, position, Option.bind_eq_bind, Option.bind_eq_some_iff,
        Option.pure_def, Option.some.injEq, Prod.mk.injEq] at taken
      obtain ⟨_, _, rfl, _⟩ := taken
      rfl
    | _ => simp [stepCalls, position] at taken

/-- The descriptors of the process change by the file that the worker opens. -/
theorem own_step (taken : stepCalls before action = some (after, calls)) :
    after.kernel.own = (before.kernel.openFile (fileOpened before action)).own ∧
      ∀ descriptor ∈ fileOpened before action, descriptor ∉ before.kernel.opened := by
  cases action with
  | serve outcome =>
    simp only [stepCalls] at taken
    split at taken
    · rename_i slot count position
      simp only [Option.bind_eq_bind, Option.bind_eq_some_iff, Option.guard_eq_some',
        Option.pure_def, Option.some.injEq, Prod.mk.injEq, Prod.exists, serveSlot] at taken
      obtain ⟨_, below, middle, _, ⟨connection, read, handled⟩, rfl, rfl⟩ := taken
      cases isClosed : connection.closed with
      | true =>
        simp only [isClosed, ↓reduceIte, Option.some.injEq, Prod.mk.injEq] at handled
        obtain ⟨rfl, rfl⟩ := handled
        simp [fileOpened, WholeServer.due, position, below, read, isClosed, Kernel.openFile]
      | false =>
        cases isReadable : connection.readable with
        | false =>
          simp only [isClosed, isReadable, Bool.false_eq_true, ↓reduceIte, Option.some.injEq,
            Prod.mk.injEq] at handled
          obtain ⟨rfl, rfl⟩ := handled
          simp [fileOpened, WholeServer.due, position, below, read, isClosed, isReadable,
            Kernel.openFile, Server.write]
        | true =>
          simp only [isClosed, isReadable, Bool.false_eq_true, ↓reduceIte, Option.bind_eq_some_iff,
            Option.guard_eq_some', Option.some.injEq, Prod.mk.injEq] at handled
          obtain ⟨_, fresh, rfl, rfl⟩ := handled
          have isDue : WholeServer.due before = some connection := by
            simp [WholeServer.due, position, below, read, isClosed, isReadable]
          simp only [fileOpened, isDue, Option.isSome_some, ↓reduceIte]
          refine ⟨?_, fresh⟩
          cases outcome with
          | returned file => rfl
          | cleanup file => rfl
    · cases taken
  | _ => exact ⟨own_kept taken (by simp), by simp [fileOpened]⟩

/-! ## The account of the open descriptors -/

/-- Every open descriptor but 1 is the process's own, or that of one open slot, or was left by a
cleanup. -/
structure Accounted (left : List Nat) (server : Server) : Prop where
  opened : ∀ descriptor, descriptor ≠ 1 → (descriptor ∈ server.kernel.opened ↔
    descriptor ∈ server.kernel.own ∨ server.Serves descriptor ∨ descriptor ∈ left)
  clients : ∀ descriptor, descriptor ≠ 1 → server.Serves descriptor →
    descriptor ∉ server.kernel.own ∧ descriptor ∉ left
  leftOpen : ∀ descriptor ∈ left, descriptor ≠ 1 ∧ descriptor ∉ server.kernel.own
  once : left.Nodup
  distinct : ∀ first second descriptor, descriptor ≠ 1 → server.ServesAt first descriptor →
    server.ServesAt second descriptor → first = second

section Accounted

variable {left : List Nat} {slot descriptor : Nat}

/-- What is neither open nor descriptor 1 is in no entry of the account. -/
theorem Accounted.free (accounted : Accounted left server)
    (fresh : descriptor ∉ server.kernel.opened) (apart : descriptor ≠ 1) :
    descriptor ∉ server.kernel.own ∧ ¬ server.Serves descriptor ∧ descriptor ∉ left := by
  rw [accounted.opened descriptor apart] at fresh
  simpa only [not_or] using fresh

/-- The account reads the served pairs and the kernel's sets. -/
theorem Accounted.same (accounted : Accounted left before)
    (view : ∀ slot descriptor, after.ServesAt slot descriptor ↔ before.ServesAt slot descriptor)
    (opened : after.kernel.opened = before.kernel.opened)
    (own : after.kernel.own = before.kernel.own) : Accounted left after := by
  have serves : ∀ descriptor, after.Serves descriptor ↔ before.Serves descriptor :=
    fun descriptor => exists_congr (fun slot => view slot descriptor)
  constructor
  · intro descriptor apart
    rw [opened, own, serves]
    exact accounted.opened descriptor apart
  · intro descriptor apart served
    rw [own]
    exact accounted.clients descriptor apart ((serves descriptor).mp served)
  · rw [own]
    exact accounted.leftOpen
  · exact accounted.once
  · intro first second descriptor apart one other
    exact accounted.distinct first second descriptor apart ((view _ _).mp one) ((view _ _).mp other)

/-- A file on a free descriptor becomes the process's own. -/
theorem Accounted.openFile {file : Option Nat} (accounted : Accounted left server)
    (fresh : ∀ descriptor ∈ file, descriptor ∉ server.kernel.opened) :
    Accounted left { server with kernel := server.kernel.openFile file } := by
  cases file with
  | none => exact accounted
  | some opened =>
    have free := fresh opened rfl
    constructor
    · intro descriptor apart
      simp only [Kernel.openFile, Finset.mem_insert, accounted.opened descriptor apart, or_assoc]
      exact Iff.rfl
    · intro descriptor apart served
      obtain ⟨notOwn, notLeft⟩ := accounted.clients descriptor apart served
      refine ⟨?_, notLeft⟩
      simp only [Kernel.openFile, Finset.mem_insert, not_or]
      refine ⟨?_, notOwn⟩
      rintro rfl
      exact (accounted.free free apart).2.1 served
    · intro descriptor member
      obtain ⟨apart, notOwn⟩ := accounted.leftOpen descriptor member
      refine ⟨apart, ?_⟩
      simp only [Kernel.openFile, Finset.mem_insert, not_or]
      refine ⟨?_, notOwn⟩
      rintro rfl
      exact (accounted.free free apart).2.2 member
    · exact accounted.once
    · exact accounted.distinct

/-- A slot that is served no more takes its descriptor out of the served ones. -/
theorem Accounted.dropped (accounted : Accounted left before)
    (served : before.ServesAt slot descriptor)
    (view : ∀ tested other, after.ServesAt tested other ↔
      tested ≠ slot ∧ before.ServesAt tested other) (tested : Nat) (apart : tested ≠ 1) :
    after.Serves tested ↔ tested ≠ descriptor ∧ before.Serves tested := by
  constructor
  · rintro ⟨other, there⟩
    obtain ⟨different, earlier⟩ := (view other tested).mp there
    refine ⟨?_, other, earlier⟩
    rintro rfl
    exact different (accounted.distinct other slot tested apart earlier served)
  · rintro ⟨different, other, earlier⟩
    refine ⟨other, (view other tested).mpr ⟨?_, earlier⟩⟩
    rintro rfl
    exact different (ServesAt.functional earlier served)

/-- A hang-up takes a client out of the account. -/
theorem Accounted.hungUp (accounted : Accounted left before)
    (served : before.ServesAt slot descriptor)
    (view : ∀ tested other, after.ServesAt tested other ↔
      tested ≠ slot ∧ before.ServesAt tested other)
    (opened : after.kernel.opened = before.kernel.opened.erase descriptor)
    (own : after.kernel.own = before.kernel.own) : Accounted left after := by
  have serves := accounted.dropped served view
  constructor
  · intro tested apart
    rw [opened, own, serves tested apart, Finset.mem_erase, accounted.opened tested apart]
    by_cases same : tested = descriptor
    · subst same
      have unowned := accounted.clients tested apart ⟨slot, served⟩
      simp [unowned.1, unowned.2]
    · simp [same]
  · intro tested apart there
    rw [own]
    exact accounted.clients tested apart ((serves tested apart).mp there).2
  · rw [own]
    exact accounted.leftOpen
  · exact accounted.once
  · intro first second tested apart one other
    exact accounted.distinct first second tested apart ((view _ _).mp one).2 ((view _ _).mp other).2

/-- A cleanup moves a client to those that are left, and closes descriptor 1. -/
theorem Accounted.cleanedUp (accounted : Accounted left before)
    (served : before.ServesAt slot descriptor)
    (view : ∀ tested other, after.ServesAt tested other ↔
      tested ≠ slot ∧ before.ServesAt tested other)
    (opened : after.kernel.opened = before.kernel.opened.erase 1)
    (own : after.kernel.own = before.kernel.own) :
    Accounted (left ++ (if descriptor = 1 then none else some descriptor).toList) after := by
  have serves := accounted.dropped served view
  have member : ∀ tested, tested ≠ 1 →
      (tested ∈ left ++ (if descriptor = 1 then none else some descriptor).toList ↔
        tested ∈ left ∨ tested = descriptor) := by
    intro tested apart
    rw [List.mem_append]
    by_cases one : descriptor = 1
    · simp [one, apart]
    · simp [one, eq_comm]
  constructor
  · intro tested apart
    rw [opened, own, serves tested apart, Finset.mem_erase, accounted.opened tested apart,
      member tested apart]
    by_cases same : tested = descriptor
    · subst same
      have isServed : before.Serves tested := ⟨slot, served⟩
      simp [apart, isServed]
    · simp [apart, same]
  · intro tested apart there
    obtain ⟨different, earlier⟩ := (serves tested apart).mp there
    obtain ⟨notOwn, notLeft⟩ := accounted.clients tested apart earlier
    rw [own, member tested apart, not_or]
    exact ⟨notOwn, notLeft, different⟩
  · intro tested isLeft
    rw [own]
    rcases List.mem_append.mp isLeft with earlier | new
    · exact accounted.leftOpen tested earlier
    · by_cases one : descriptor = 1
      · simp [one] at new
      · obtain rfl : tested = descriptor := by simpa [one] using new
        exact ⟨one, (accounted.clients tested one ⟨slot, served⟩).1⟩
  · by_cases one : descriptor = 1
    · simpa [one] using accounted.once
    · have notLeft := (accounted.clients descriptor one ⟨slot, served⟩).2
      rw [if_neg one]
      refine List.nodup_append.mpr ⟨accounted.once, List.nodup_singleton descriptor, ?_⟩
      rintro tested isLeft other new rfl
      obtain rfl : tested = descriptor := List.mem_singleton.mp new
      exact notLeft isLeft
  · intro first second tested apart one other
    exact accounted.distinct first second tested apart ((view _ _).mp one).2 ((view _ _).mp other).2

/-- A client on a free descriptor enters the account. -/
theorem Accounted.stored (accounted : Accounted left before)
    (fresh : descriptor ∉ before.kernel.opened)
    (view : ∀ tested other, after.ServesAt tested other ↔
      (tested = slot ∧ other = descriptor) ∨ before.ServesAt tested other)
    (opened : after.kernel.opened = insert descriptor before.kernel.opened)
    (own : after.kernel.own = before.kernel.own) : Accounted left after := by
  have serves : ∀ tested, after.Serves tested ↔ tested = descriptor ∨ before.Serves tested := by
    intro tested
    constructor
    · rintro ⟨other, there⟩
      exact ((view other tested).mp there).imp And.right (fun earlier => ⟨other, earlier⟩)
    · rintro (rfl | ⟨other, earlier⟩)
      · exact ⟨slot, (view _ _).mpr (Or.inl ⟨rfl, rfl⟩)⟩
      · exact ⟨other, (view _ _).mpr (Or.inr earlier)⟩
  constructor
  · intro tested apart
    rw [opened, own, serves, Finset.mem_insert, accounted.opened tested apart]
    tauto
  · intro tested apart there
    rw [own]
    rcases (serves tested).mp there with rfl | earlier
    · have free := accounted.free fresh apart
      exact ⟨free.1, free.2.2⟩
    · exact accounted.clients tested apart earlier
  · rw [own]
    exact accounted.leftOpen
  · exact accounted.once
  · intro first second tested apart one other
    rcases (view _ _).mp one with ⟨rfl, rfl⟩ | earlierFirst
    · rcases (view _ _).mp other with ⟨rfl, _⟩ | earlierSecond
      · rfl
      · exact absurd ⟨second, earlierSecond⟩ (accounted.free fresh apart).2.1
    · rcases (view _ _).mp other with ⟨rfl, rfl⟩ | earlierSecond
      · exact absurd ⟨first, earlierFirst⟩ (accounted.free fresh apart).2.1
      · exact accounted.distinct first second tested apart earlierFirst earlierSecond

end Accounted

theorem start_accounted (capacity listener : Nat) (own : Finset Nat) :
    Accounted [] (start capacity listener own) := by
  have serves : ∀ slot descriptor, ¬ (start capacity listener own).ServesAt slot descriptor := by
    rintro slot descriptor ⟨connection, ⟨below, _⟩, _⟩
    exact absurd below (Nat.not_lt_zero _)
  constructor
  · intro descriptor _
    constructor
    · exact Or.inl
    · rintro (mine | ⟨slot, served⟩ | impossible)
      · exact mine
      · exact absurd served (serves slot descriptor)
      · cases impossible
  · rintro descriptor _ ⟨slot, served⟩
    exact absurd served (serves slot descriptor)
  · exact fun descriptor impossible => absurd impossible List.not_mem_nil
  · exact List.nodup_nil
  · exact fun first _ descriptor _ served _ => absurd served (serves first descriptor)

/-- Every step keeps the account, with what it leaves. -/
theorem step_accounted {capacity : Nat} {left : List Nat} (allocated : Allocated capacity before)
    (positioned : Positioned before) (accounted : Accounted left before)
    (taken : stepCalls before action = some (after, calls)) :
    Accounted (left ++ (connectionLeft before action).toList) after := by
  have effect := (step_effect taken).2.1
  cases effect with
  | unchanged sameConnections sameKernel =>
    rw [no_connection_left taken (by simp), Option.toList_none, List.append_nil]
    exact accounted.same (fun _ _ => servesAt_unchanged sameConnections) (by rw [sameKernel])
      (by rw [sameKernel])
  | flagged _ _ _ _ read _ sameDescriptor sameClosed written sameKernel =>
    rw [no_connection_left taken (by simp), Option.toList_none, List.append_nil]
    exact accounted.same (fun _ _ => servesAt_same read sameDescriptor sameClosed written)
      (by rw [sameKernel]) (by rw [sameKernel])
  | served _ _ _ _ file _ _ fresh read wasOpen _ sameDescriptor stillOpen written kept =>
    rw [no_connection_left taken (by simp), Option.toList_none, List.append_nil]
    exact (accounted.openFile fresh).same
      (fun _ _ => servesAt_same read sameDescriptor (stillOpen.trans wasOpen.symm) written)
      (by rw [kept]) (by rw [kept])
  | hungUp event rest old position reported read wasOpen written closed =>
    rw [no_connection_left taken (by simp), Option.toList_none, List.append_nil]
    have below := positioned.pending event
      (still_pending position (List.Subset.refl _) List.mem_cons_self) reported
    exact accounted.hungUp ⟨old, ⟨below, read⟩, wasOpen, rfl⟩
      (fun _ _ => servesAt_closed rfl written) (by rw [closed]; rfl) (by rw [closed]; rfl)
  | reused descriptor slot index old _ fresh first read _ written opened =>
    rw [no_connection_left taken (by simp), Option.toList_none, List.append_nil]
    obtain ⟨held, wasClosed⟩ := firstClosed_some first read
    exact accounted.stored fresh (fun _ _ => servesAt_reused held wasClosed rfl written)
      (by rw [opened]; rfl) (by rw [opened]; rfl)
  | appended descriptor _ fresh _ room written opened =>
    rw [no_connection_left taken (by simp), Option.toList_none, List.append_nil]
    exact accounted.stored fresh (fun _ _ => servesAt_appended allocated room rfl written)
      (by rw [opened]; rfl) (by rw [opened]; rfl)
  | turnedAway descriptor _ fresh _ _ sameConnections closed =>
    rw [no_connection_left taken (by simp), Option.toList_none, List.append_nil]
    refine accounted.same (fun _ _ => servesAt_unchanged sameConnections) ?_ (by rw [closed]; rfl)
    rw [closed]
    exact Finset.erase_insert fresh
  | cleanedUp slot old _ file cleans fresh _ _ nowClosed written closed =>
    rw [cleans.connectionLeft]
    have filed := accounted.openFile fresh
    exact filed.cleanedUp (cleans.served positioned).2
      (fun _ _ => servesAt_closed nowClosed written) (by rw [closed]; rfl) (by rw [closed]; rfl)

/-- The account of a whole run. -/
theorem run_accounted {capacity listener : Nat} {own : Finset Nat} {trace : List Action}
    (run : Runs.Run step Runs.anywhere (start capacity listener own) trace server) :
    Accounted (leftBy connectionLeft (start capacity listener own) trace) server := by
  apply run.induct (fun taken reached =>
    Accounted (leftBy connectionLeft (start capacity listener own) taken) reached)
    (start_accounted capacity listener own)
  intro trace before action after earlier accounted _ taken
  obtain ⟨calls, made⟩ := step_calls taken
  rw [leftBy_next earlier taken]
  exact step_accounted (run_allocated earlier) (run_positioned earlier) accounted made

/-- The process's own descriptors are those it started with and the files left open, each once. -/
theorem run_own {capacity listener : Nat} {own : Finset Nat} {trace : List Action}
    (run : Runs.Run step Runs.anywhere (start capacity listener own) trace server) :
    (server.kernel.own.erase 1).card =
      (own.erase 1).card + (leftBy fileLeft (start capacity listener own) trace).length := by
  apply run.induct (fun taken reached => (reached.kernel.own.erase 1).card =
    (own.erase 1).card + (leftBy fileLeft (start capacity listener own) taken).length) rfl
  intro trace before action after earlier counted _ taken
  obtain ⟨calls, made⟩ := step_calls taken
  obtain ⟨owns, fresh⟩ := own_step made
  rw [leftBy_next earlier taken, List.length_append, ← Nat.add_assoc, ← counted, owns]
  unfold fileLeft
  cases opens : fileOpened before action with
  | none => rfl
  | some file =>
    by_cases one : file = 1
    · subst one
      simp [Kernel.openFile, Finset.erase_insert_eq_erase]
    · have notOwn := ((run_accounted earlier).free (fresh file opens) one).1
      have kept : (insert file before.kernel.own).erase 1 =
          insert file (before.kernel.own.erase 1) := Finset.erase_insert_of_ne one
      simp only [Kernel.openFile, kept]
      rw [Finset.card_insert_of_notMem (fun member => notOwn (Finset.mem_of_mem_erase member))]
      simp [Option.filter, one]

/-- Every descriptor of the process's own but 1 is one that it started with or a file left open. -/
theorem run_own_iff {capacity listener descriptor : Nat} {own : Finset Nat} {trace : List Action}
    (run : Runs.Run step Runs.anywhere (start capacity listener own) trace server)
    (apart : descriptor ≠ 1) : descriptor ∈ server.kernel.own ↔
      descriptor ∈ own ∨ descriptor ∈ leftBy fileLeft (start capacity listener own) trace := by
  apply run.induct (fun taken reached => descriptor ∈ reached.kernel.own ↔
    descriptor ∈ own ∨ descriptor ∈ leftBy fileLeft (start capacity listener own) taken)
  · exact ⟨Or.inl, fun mine => mine.resolve_right List.not_mem_nil⟩
  · intro trace before action after earlier known _ taken
    obtain ⟨calls, made⟩ := step_calls taken
    rw [leftBy_next earlier taken, (own_step made).1, List.mem_append, ← or_assoc, ← known, fileLeft]
    cases fileOpened before action with
    | none => simp [Kernel.openFile]
    | some opened =>
      by_cases one : opened = 1
      · simp [Kernel.openFile, Option.filter, one, apart]
      · simp [Kernel.openFile, Option.filter, one, or_comm]

/-- No file is left open on descriptor 1. -/
theorem fileLeft_apart {trace : List Action} {origin : Server} {file : Nat}
    (isLeft : file ∈ leftBy fileLeft origin trace) : file ≠ 1 := by
  induction trace generalizing origin with
  | nil => exact absurd isLeft List.not_mem_nil
  | cons action rest inductionHypothesis =>
    rw [leftBy] at isLeft
    split at isLeft
    · rcases List.mem_append.mp isLeft with first | later
      · obtain ⟨_, apart⟩ := Option.filter_eq_some_iff.mp (Option.mem_toList.mp first)
        simpa using apart
      · exact inductionHypothesis later
    · exact absurd isLeft List.not_mem_nil

theorem mem_openSlots {slot : Nat} : slot ∈ openSlots server ↔
    server.ServesAt slot (descriptorAt server slot) ∧ descriptorAt server slot ≠ 1 := by
  unfold openSlots descriptorAt Server.ServesAt Server.Holds
  rw [Finset.mem_filter, Finset.mem_range]
  cases server.connections.slots[slot]? with
  | none => simp
  | some connection => simp [and_assoc]

/-- An open slot serves the descriptor that is in it. -/
theorem descriptorAt_of_serves {slot descriptor : Nat} (serves : server.ServesAt slot descriptor) :
    descriptorAt server slot = descriptor := by
  obtain ⟨connection, held, _, rfl⟩ := serves
  simp [descriptorAt, held.2]

/-- The account, counted. -/
theorem Accounted.counts {left : List Nat} (accounted : Accounted left server) :
    (server.kernel.opened.erase 1).card =
      (server.kernel.own.erase 1).card + (openSlots server).card + left.length := by
  have served : ∀ descriptor, descriptor ∈ (openSlots server).image (descriptorAt server) ↔
      descriptor ≠ 1 ∧ server.Serves descriptor := by
    intro descriptor
    rw [Finset.mem_image]
    constructor
    · rintro ⟨slot, member, rfl⟩
      obtain ⟨serves, apart⟩ := mem_openSlots.mp member
      exact ⟨apart, slot, serves⟩
    · rintro ⟨apart, slot, serves⟩
      have same := descriptorAt_of_serves serves
      exact ⟨slot, mem_openSlots.mpr ⟨same.symm ▸ serves, same.symm ▸ apart⟩, same⟩
  have injective : Set.InjOn (descriptorAt server) (openSlots server) := by
    intro first one second other same
    obtain ⟨servesFirst, apart⟩ := mem_openSlots.mp one
    obtain ⟨servesSecond, _⟩ := mem_openSlots.mp other
    exact accounted.distinct first second _ apart servesFirst (same ▸ servesSecond)
  have entries : server.kernel.opened.erase 1 =
      (server.kernel.own.erase 1 ∪ (openSlots server).image (descriptorAt server)) ∪
        left.toFinset := by
    ext descriptor
    rw [Finset.mem_union, Finset.mem_union, served, Finset.mem_erase, Finset.mem_erase,
      List.mem_toFinset]
    constructor
    · rintro ⟨apart, isOpen⟩
      rcases (accounted.opened descriptor apart).mp isOpen with mine | serves | isLeft
      · exact Or.inl (Or.inl ⟨apart, mine⟩)
      · exact Or.inl (Or.inr ⟨apart, serves⟩)
      · exact Or.inr isLeft
    · rintro ((⟨apart, mine⟩ | ⟨apart, serves⟩) | isLeft)
      · exact ⟨apart, (accounted.opened descriptor apart).mpr (Or.inl mine)⟩
      · exact ⟨apart, (accounted.opened descriptor apart).mpr (Or.inr (Or.inl serves))⟩
      · have apart := (accounted.leftOpen descriptor isLeft).1
        exact ⟨apart, (accounted.opened descriptor apart).mpr (Or.inr (Or.inr isLeft))⟩
  have apartClients : Disjoint (server.kernel.own.erase 1)
      ((openSlots server).image (descriptorAt server)) := by
    rw [Finset.disjoint_left]
    intro descriptor mine member
    obtain ⟨apart, serves⟩ := (served descriptor).mp member
    exact (accounted.clients descriptor apart serves).1 (Finset.mem_of_mem_erase mine)
  have apartLeft : Disjoint
      (server.kernel.own.erase 1 ∪ (openSlots server).image (descriptorAt server))
      left.toFinset := by
    rw [Finset.disjoint_left]
    intro descriptor member isLeft
    rw [List.mem_toFinset] at isLeft
    rcases Finset.mem_union.mp member with mine | serves
    · exact (accounted.leftOpen descriptor isLeft).2 (Finset.mem_of_mem_erase mine)
    · obtain ⟨apart, there⟩ := (served descriptor).mp serves
      exact (accounted.clients descriptor apart there).2 isLeft
  rw [entries, Finset.card_union_of_disjoint apartLeft, Finset.card_union_of_disjoint apartClients,
    Finset.card_image_of_injOn injective, List.toFinset_card_of_nodup accounted.once]

/-! ## What is left stays -/

/-- Every open descriptor that is not the process's own is registered. -/
def Enlisted (kernel : Kernel) : Prop :=
  ∀ descriptor ∈ kernel.opened, descriptor ∉ kernel.own →
    ∃ index, (descriptor, index) ∈ kernel.registered

theorem Enlisted.close {kernel : Kernel} (enlisted : Enlisted kernel) (descriptor : Nat) :
    Enlisted (kernel.close descriptor) := by
  intro tested isOpen notOwn
  obtain ⟨different, wasOpen⟩ := Finset.mem_erase.mp isOpen
  obtain ⟨index, member⟩ := enlisted tested wasOpen notOwn
  exact ⟨index, List.mem_filter.mpr ⟨member, by simpa using different⟩⟩

theorem Enlisted.openFile {kernel : Kernel} (enlisted : Enlisted kernel) (file : Option Nat) :
    Enlisted (kernel.openFile file) := by
  cases file with
  | none => exact enlisted
  | some opened =>
    intro tested isOpen notOwn
    simp only [Kernel.openFile, Finset.mem_insert, not_or] at isOpen notOwn
    exact enlisted tested (isOpen.resolve_left notOwn.1) notOwn.2

/-- A client is registered as soon as it is accepted. -/
theorem Enlisted.stored {kernel : Kernel} (enlisted : Enlisted kernel) (descriptor index : Nat) :
    Enlisted ((kernel.accept descriptor).addFd descriptor index) := by
  intro tested isOpen notOwn
  rcases Finset.mem_insert.mp isOpen with rfl | wasOpen
  · exact ⟨index, List.mem_append_right _ (List.mem_singleton_self _)⟩
  · obtain ⟨other, member⟩ := enlisted tested wasOpen notOwn
    exact ⟨other, List.mem_append_left _ member⟩

theorem Effect.enlisted (effect : Effect before action after calls)
    (enlisted : Enlisted before.kernel) : Enlisted after.kernel := by
  cases effect with
  | unchanged _ sameKernel => exact sameKernel ▸ enlisted
  | flagged _ _ _ _ _ _ _ _ _ sameKernel => exact sameKernel ▸ enlisted
  | served _ _ _ _ file _ _ _ _ _ _ _ _ _ kept => exact kept ▸ enlisted.openFile file
  | cleanedUp _ _ _ file _ _ _ _ _ _ closed => exact closed ▸ (enlisted.openFile file).close 1
  | reused descriptor _ index _ _ _ _ _ _ _ opened => exact opened ▸ enlisted.stored descriptor index
  | appended descriptor _ _ _ _ _ opened => exact opened ▸ enlisted.stored descriptor _
  | hungUp event _ old _ _ _ _ _ closed =>
    rw [closed]
    intro tested isOpen notOwn
    obtain ⟨different, wasOpen⟩ := Finset.mem_erase.mp isOpen
    obtain ⟨index, member⟩ := enlisted tested wasOpen notOwn
    have kept : (tested, index) ∈ (before.kernel.removeFd old.fileDescriptor).registered :=
      List.mem_filter.mpr ⟨member, by simpa using different⟩
    exact ⟨index, List.mem_filter.mpr ⟨kept, by simpa using different⟩⟩
  | turnedAway descriptor _ fresh _ _ _ closed =>
    rw [closed]
    intro tested isOpen notOwn
    obtain ⟨different, isThere⟩ := Finset.mem_erase.mp isOpen
    obtain ⟨index, member⟩ := enlisted tested
      (Finset.mem_of_mem_insert_of_ne isThere different) notOwn
    exact ⟨index, List.mem_filter.mpr ⟨member, by simpa using different⟩⟩

theorem run_enlisted {capacity listener : Nat} {own : Finset Nat} {trace : List Action}
    (run : Runs.Run step Runs.anywhere (start capacity listener own) trace server) :
    Enlisted server.kernel := by
  apply run.invariant (fun reached => Enlisted reached.kernel)
  · exact fun descriptor isOpen notOwn => absurd isOpen notOwn
  · intro before action after enlisted _ taken
    obtain ⟨calls, made⟩ := step_calls taken
    exact (step_effect made).2.1.enlisted enlisted

/-- What the steps of a run have left is among what those of a longer one leave. -/
theorem leftBy_append (left : Server → Action → Option Nat) {origin later : Server}
    {trace more : List Action} (run : Runs.Run step Runs.anywhere origin trace server)
    (further : Runs.Run step Runs.anywhere server more later) :
    leftBy left origin trace <+: leftBy left origin (trace ++ more) := by
  induction further with
  | start => simp
  | next earlier _ taken inductionHypothesis =>
    rw [← List.append_assoc, leftBy_next (run.append earlier) taken]
    exact inductionHypothesis.trans (List.prefix_append _ _)

/-- In every run, a descriptor other than 1 is open exactly if the process started with it, an open
slot serves it, a worker has cleaned it up, or it is a file that a worker has left open; and the
four have none in common, and no two slots, cleanups or files have the same. What has been left is
left for good: no later step closes it, serves it, or is given its number by accept, and a
connection stays registered. -/
theorem open_descriptors_are_accounted_for {capacity listener : Nat} {own : Finset Nat}
    {trace : List Action}
    (run : Runs.Run step Runs.anywhere (start capacity listener own) trace server) :
    (∀ descriptor, descriptor ≠ 1 → (descriptor ∈ server.kernel.opened ↔
        descriptor ∈ own ∨ server.Serves descriptor ∨
        descriptor ∈ leftBy connectionLeft (start capacity listener own) trace ∨
        descriptor ∈ leftBy fileLeft (start capacity listener own) trace)) ∧
      (server.kernel.opened.erase 1).card = (own.erase 1).card + (openSlots server).card +
        (leftBy connectionLeft (start capacity listener own) trace).length +
        (leftBy fileLeft (start capacity listener own) trace).length ∧
      ∀ descriptor, descriptor ∈ leftBy connectionLeft (start capacity listener own) trace ∨
          descriptor ∈ leftBy fileLeft (start capacity listener own) trace →
        ∀ more later, Runs.Run step Runs.anywhere server more later →
          descriptor ∈ later.kernel.opened ∧ ¬ later.Serves descriptor ∧
          (∀ action, Accepts later action descriptor → step later action = none) ∧
          (descriptor ∈ leftBy connectionLeft (start capacity listener own) trace →
            ∃ index, (descriptor, index) ∈ later.kernel.registered) := by
  refine ⟨fun descriptor apart => ?_, ?_, ?_⟩
  · rw [(run_accounted run).opened descriptor apart, run_own_iff run apart]
    tauto
  · rw [(run_accounted run).counts, run_own run]
    omega
  · intro descriptor isLeft more later further
    have whole := run.append further
    have accounted := run_accounted whole
    have connections := (leftBy_append connectionLeft run further).subset
    have files := (leftBy_append fileLeft run further).subset
    have open_unserved : descriptor ∈ later.kernel.opened ∧ ¬ later.Serves descriptor := by
      rcases isLeft with connection | file
      · obtain ⟨apart, _⟩ := accounted.leftOpen descriptor (connections connection)
        exact ⟨(accounted.opened descriptor apart).mpr (Or.inr (Or.inr (connections connection))),
          fun serves => (accounted.clients descriptor apart serves).2 (connections connection)⟩
      · have apart := fileLeft_apart (files file)
        have mine := (run_own_iff whole apart).mpr (Or.inr (files file))
        exact ⟨(accounted.opened descriptor apart).mpr (Or.inl mine),
          fun serves => (accounted.clients descriptor apart serves).1 mine⟩
    refine ⟨open_unserved.1, open_unserved.2, ?_, ?_⟩
    · rintro action ⟨rfl, event, rest, position, readable, listening⟩
      simp [step, stepCalls, position, readable, listening, open_unserved.1]
    · intro connection
      obtain ⟨_, notOwn⟩ := accounted.leftOpen descriptor (connections connection)
      exact run_enlisted whole descriptor open_unserved.1 notOwn

/-- A client is accepted, a file is left open for it, and it is cleaned up. -/
def untilFirstCleanup : List Action :=
  [.wait [⟨3, false, true, false⟩], .hangUp, .read (some 4), .write, .process,
    .serve (.returned none), .finish, .wait [⟨4, false, true, true⟩], .hangUp, .read none, .write,
    .process, .serve (.returned (some 5)), .finish, .wait [⟨4, false, true, true⟩], .hangUp,
    .read none, .write, .process, .serve (.cleanup none)]

/-- Its descriptor and that of the file are open beside the listening socket's, and stay so when
the next client has taken the slot. -/
theorem open_descriptors_are_accounted_for_first_cleanup :
    ∃ server, Runs.Run step Runs.anywhere (start 2 3 {3}) untilFirstCleanup server ∧
      (∀ descriptor, descriptor ≠ 1 →
        (descriptor ∈ server.kernel.opened ↔ descriptor = 3 ∨ descriptor = 4 ∨ descriptor = 5)) ∧
      ∀ more later, Runs.Run step Runs.anywhere server more later →
        4 ∈ later.kernel.opened ∧ ¬ later.Serves 4 ∧ 5 ∈ later.kernel.opened := by
  have reached : ∃ server, Runs.Run step Runs.anywhere (start 2 3 {3}) untilFirstCleanup server ∧
      openSlots server = ∅ :=
    Runs.Run.reaches (fun server => openSlots server = ∅) (by decide)
  obtain ⟨server, run, slots⟩ := reached
  have left : leftBy connectionLeft (start 2 3 {3}) untilFirstCleanup = [4] := by decide
  have files : leftBy fileLeft (start 2 3 {3}) untilFirstCleanup = [5] := by decide
  obtain ⟨opened, _, stays⟩ := open_descriptors_are_accounted_for run
  refine ⟨server, run, fun descriptor apart => ?_, fun more later further => ?_⟩
  · have unserved : ¬ server.Serves descriptor := by
      rintro ⟨slot, serves⟩
      have member := mem_openSlots.mpr
        ⟨(descriptorAt_of_serves serves).symm ▸ serves, (descriptorAt_of_serves serves).symm ▸ apart⟩
      rw [slots] at member
      exact absurd member (Finset.notMem_empty slot)
    rw [opened descriptor apart, left, files]
    simp [unserved]
  · obtain ⟨isOpen, unserved, _⟩ := stays 4 (Or.inl (by rw [left]; decide)) more later further
    obtain ⟨fileOpen, _⟩ := stays 5 (Or.inr (by rw [files]; decide)) more later further
    exact ⟨isOpen, unserved, fileOpen⟩

end VHttp.EventLoop
