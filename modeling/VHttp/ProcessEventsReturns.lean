import Mathlib.Algebra.Order.BigOperators.Group.Finset
import VHttp.Foundations.Descent
import VHttp.LeftDescriptors
import VHttp.WorkLeft

/-!
# ProcessEvents returns

Between two epoll_waits the one thread of the server serves all connections that are readable, call
after call. What is left to do in such a pass is the rest of the call in progress and a call for
each slot ahead, with the bytes that wait on its socket. So a pass takes no more steps than that,
and those that peers add by sending while it runs.

What is needed of the environment is little: send and sendfile take bytes or, for send, fail. A
sendfile that fails for good is tried for ever, and is left out here.
-/

namespace VHttp.WholeServer

open EventLoop

/-- What send, sendfile and the file system keep to beside what the kernel and the parser promise.
A file is opened under a descriptor that is free. -/
def Obliges (limit : Nat) (state : WholeServer) (event : ServerEvent) : Prop :=
  Promised state event ∧ ∀ answer, event = .answers answer → Worker.Progresses limit answer ∧
    ∀ descriptor ∈ answer.opened, descriptor ∉ state.server.kernel.opened

/-- `ProcessEvents` runs. -/
def InPass (state : WholeServer) : Prop := ∃ slot count, state.server.phase = .processing slot count

/-- The steps of a pass, with those of peers. -/
def During (limit : Nat) (state : WholeServer) (event : ServerEvent) : Prop :=
  Obliges limit state event ∧ InPass state

/-- The steps of a pass alone. -/
def Own (limit : Nat) (state : WholeServer) (event : ServerEvent) : Prop :=
  During limit state event ∧ (∀ descriptor bytes, event ≠ .arrives descriptor bytes) ∧
    ∀ descriptor, event ≠ .finishes descriptor

/-- What a slot may take, with so many bytes waiting on its socket: a call, from its beginning to
its return. -/
def slotWork (limit waiting : Nat) : Nat := 4 * (waiting + 5) + Worker.tail limit + 3

/-- What the slots ahead may take. -/
def ahead (limit : Nat) (state : WholeServer) (slot count : Nat) : Nat :=
  ∑ index ∈ Finset.Ico slot count,
    slotWork limit (state.sockets (descriptorAt state.server index)).waiting.length

/-- What is left to do in a pass. -/
def left (limit : Nat) (state : WholeServer) : Nat :=
  match state.server.phase, state.working with
  | .processing slot count, none => ahead limit state slot count + 1
  | .processing slot count, some worker =>
    worker.work limit (state.sockets worker.fileDescriptor).waiting.length +
      ahead limit state (slot + 1) count + 2
  | _, _ => 0

/-- What a peer adds to it: a step, and four calls for each byte in each slot. -/
def cost (capacity : Nat) : ServerEvent → Nat
  | .arrives _ bytes => 4 * bytes.length * capacity + 1
  | .finishes _ => 1
  | _ => 0

/-- What holds of the call in progress. -/
structure Engaged (state : WholeServer) (worker : Worker) : Prop where
  few : worker.phase.InLoop → worker.tries < 5
  waits : ∀ size, worker.phase = .discarding size →
    (state.sockets worker.fileDescriptor).waiting ≠ []
  url : worker.phase.InLoop ∨ worker.phase = .serving → worker.request.url.Valid
  file : ∀ descriptor ∈ worker.openFile, descriptor ∉ state.server.kernel.opened
  unfinished : ∀ responseLen file sended, worker.phase = .sendingFile responseLen file sended →
    sended < file.info.size

/-- What holds in every state of the server. -/
structure Kept (capacity : Nat) (state : WholeServer) : Prop where
  allocated : Allocated capacity state.server
  positioned : Positioned state.server
  called : Called state
  engaged : ∀ worker, state.working = some worker → Engaged state worker

section Steps

variable {limit capacity : Nat} {before after : WholeServer} {event : ServerEvent}

/-- Bytes that come in, or the end of a stream, keep what a call counts on. -/
theorem Engaged.peer {state : WholeServer} {worker : Worker} (engaged : Engaged state worker)
    {changed : Nat} {socket : Socket}
    (grows : (state.sockets changed).waiting <+: socket.waiting) :
    Engaged (state.setSocket changed socket) worker := by
  refine ⟨engaged.few, fun size discarding => ?_, engaged.url, engaged.file, engaged.unfinished⟩
  have waits := engaged.waits size discarding
  by_cases here : worker.fileDescriptor = changed
  · simp only [setSocket, here, ↓reduceIte]
    intro empty
    rw [empty, ← here] at grows
    exact waits (List.prefix_nil.mp grows)
  · simpa only [setSocket, here, ↓reduceIte] using waits

/-- Every answer keeps what a call counts on. -/
theorem Engaged.answers {answer : Worker.Answer} {worker next : Worker}
    (engaged : Engaged before worker) (obliges : Obliges limit before (.answers answer))
    (working : before.working = some worker) (stepped : worker.step answer = some next) :
    Engaged { before.setSocket worker.fileDescriptor
        { before.sockets worker.fileDescriptor with
          waiting := (before.sockets worker.fileDescriptor).waiting.drop answer.taken.length } with
      working := some next } next := by
  obtain ⟨promised, progresses⟩ := obliges
  obtain ⟨_, fresh⟩ := progresses answer rfl
  have answered := promised worker working
  constructor
  · intro still
    have remains := Worker.step_remains stepped still
    exact remains.few (engaged.few remains.inside)
  · intro size discarding
    have still : next.phase.InLoop := by
      rw [discarding]
      trivial
    cases Worker.step_remains stepped still with
    | found byte bytes behind _ phase peeked _ _ =>
      subst peeked
      simp only [Socket.Answers, phase] at answered
      have nonempty : (before.sockets worker.fileDescriptor).waiting ≠ [] := by
        intro empty
        rw [empty] at answered
        exact List.cons_ne_nil _ _ (List.prefix_nil.mp answered.1)
      simpa [Worker.step_descriptor stepped, setSocket, Worker.Answer.taken] using nonempty
    | tried _ _ _ _ other | takes _ _ _ _ other => simp [discarding] at other
    | parses _ _ _ other => simp [discarding] at other
    | drains _ other => simp [discarding] at other
  · intro reaches
    have came : worker.phase.InLoop := by
      by_contra outside
      obtain ⟨inLoop, serving⟩ := (Worker.answer_quiet outside stepped).beyond
      exact reaches.elim inLoop serving
    have valid := engaged.url (Or.inl came)
    apply Worker.step_url_valid valid _ stepped reaches
    rintro result rfl
    have phase := Worker.parse_phase stepped
    simp only [Socket.Answers, phase] at answered
    obtain ⟨_, _, parsed⟩ := answered
    exact VHttpRequest.parse_url_valid valid parsed
  · intro descriptor isOpen
    exact (Worker.step_openFile stepped descriptor isOpen).elim (engaged.file descriptor)
      (fresh descriptor)
  · intro responseLen file sended sending
    exact Worker.step_unfinished stepped sending

/-- A slot with more bytes may take four calls more for each. -/
theorem ahead_arrives {state : WholeServer} {bytes changed : Nat} {socket : Socket}
    (limit slot count : Nat)
    (more : socket.waiting.length ≤ (state.sockets changed).waiting.length + bytes) :
    ahead limit (state.setSocket changed socket) slot count ≤
      ahead limit state slot count + 4 * bytes * (count - slot) := by
  calc ahead limit (state.setSocket changed socket) slot count
      ≤ ∑ index ∈ Finset.Ico slot count,
          (slotWork limit (state.sockets (descriptorAt state.server index)).waiting.length +
            4 * bytes) := by
        apply Finset.sum_le_sum
        intro index _
        by_cases here : descriptorAt state.server index = changed
        · simp only [setSocket, here, ↓reduceIte, slotWork]
          omega
        · simp only [setSocket, here, ↓reduceIte]
          omega
    _ = ahead limit state slot count + 4 * bytes * (count - slot) := by
        rw [Finset.sum_add_distrib, Finset.sum_const_nat (fun _ _ => rfl), Nat.card_Ico, ahead,
          Nat.mul_comm (count - slot)]

/-- A pass goes through slots that there are. -/
theorem Kept.within {state : WholeServer} (kept : Kept capacity state) {slot count : Nat}
    (position : state.server.phase = .processing slot count) : count ≤ capacity :=
  (kept.positioned.processing slot count position).trans kept.allocated.bound

/-- A call is in progress for a slot of the pass. -/
theorem Kept.below {state : WholeServer} (kept : Kept capacity state) {slot count : Nat}
    (position : state.server.phase = .processing slot count) {worker : Worker}
    (working : state.working = some worker) : slot < count := by
  obtain ⟨_, isDue, _⟩ := kept.called.descriptor working
  obtain ⟨here, total, same, inside, _⟩ := due_spec isDue
  obtain ⟨rfl, rfl⟩ := Phase.processing.inj (position.symm.trans same)
  exact inside

/-- A peer that sends adds four calls for each byte in each slot. -/
theorem Kept.arrives {state : WholeServer} (kept : Kept capacity state) {bytes changed : Nat}
    {socket : Socket} (limit : Nat)
    (more : socket.waiting.length ≤ (state.sockets changed).waiting.length + bytes) :
    left limit (state.setSocket changed socket) ≤ left limit state + 4 * bytes * capacity := by
  have sameServer : (state.setSocket changed socket).server = state.server := rfl
  have sameWorking : (state.setSocket changed socket).working = state.working := rfl
  unfold left
  rw [sameServer, sameWorking]
  cases position : state.server.phase with
  | processing slot count =>
    have within := kept.within position
    cases working : state.working with
    | none =>
      have later := ahead_arrives limit slot count more
      have slots : 4 * bytes * (count - slot) ≤ 4 * bytes * capacity :=
        Nat.mul_le_mul_left _ (by omega)
      simp only
      omega
    | some worker =>
      have inside := kept.below position working
      have grows : ((state.setSocket changed socket).sockets worker.fileDescriptor).waiting.length ≤
          (state.sockets worker.fileDescriptor).waiting.length + bytes := by
        by_cases here : worker.fileDescriptor = changed
        · simpa only [setSocket, here, ↓reduceIte] using more
        · simp only [setSocket, here, ↓reduceIte]
          omega
      have call := Worker.work_arrives limit worker grows
      have later := ahead_arrives limit (slot + 1) count more
      have slots : 4 * bytes * (count - (slot + 1) + 1) ≤ 4 * bytes * capacity :=
        Nat.mul_le_mul_left _ (by omega)
      rw [Nat.mul_succ] at slots
      simp only
      omega
  | _ => exact Nat.zero_le _

/-- The steps of a pass alone are not paid for by a peer. -/
theorem Own.free (owns : Own limit before event) (capacity : Nat) : cost capacity event = 0 := by
  obtain ⟨_, silent, lasting⟩ := owns
  cases event with
  | arrives descriptor bytes => exact absurd rfl (silent descriptor bytes)
  | finishes descriptor => exact absurd rfl (lasting descriptor)
  | _ => rfl

end Steps

end VHttp.WholeServer
