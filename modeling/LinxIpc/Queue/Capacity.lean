import LinxIpc.Queue.History
import LinxIpc.Udp.Factory
import LinxIpc.Unix.Factory

/-!
The size that a caller of a factory asks for, and the size its queue keeps to.

`queueSize` comes as a `std::size_t`, is stored as an `int`, and is compared as a
`std::size_t` again.
-/

namespace LinxIpc

/-! ### From `std::size_t` to `int` and back -/

theorem ofSizeT_toInt (n : Nat) :
    (ofSizeT n).toInt =
      if n % 4294967296 < 2147483648 then ((n % 4294967296 : Nat) : Int)
      else ((n % 4294967296 : Nat) : Int) - 4294967296 := by
  rw [ofSizeT, Int32.toInt_ofNat', Int.bmod_def]
  have size : ((Int32.size : Nat) : Int) = 4294967296 := rfl
  rw [size]
  split <;> split <;> omega

theorem toSizeT_ofSizeT_cases (n : Nat) :
    (n % 4294967296 < 2147483648 ∧ 0 ≤ (ofSizeT n).toInt ∧
        toSizeT (ofSizeT n) = n % 4294967296) ∨
      (2147483648 ≤ n % 4294967296 ∧ (ofSizeT n).toInt < 0 ∧
        18446744071562067968 ≤ toSizeT (ofSizeT n)) := by
  rw [toSizeT, ofSizeT_toInt]
  split <;> omega

namespace Queue

theorem capacity_ofSizeT_iff (n : Nat) : capacity (ofSizeT n) = n ↔ n < 2147483648 := by
  have limit : listMaxSize = 384307168202282325 := by decide
  rcases toSizeT_ofSizeT_cases n with ⟨low, -, kept⟩ | ⟨high, -, huge⟩
  · rw [capacity, kept, limit]
    omega
  · rw [capacity, limit]
    omega

variable {τ ι : Type}

/-- Below the capacity `add` stores, at it the message stays with the caller; it
returns -1 only at `max_size`. -/
theorem add_result (q : LinxQueue ι) (msg : LinxReceivedMessage ι) :
    ((q.add msg).1 ≠ some 0 ↔ capacity q.maxSize ≤ q.queue.length) ∧
      ((q.add msg).1 = some (-1) ↔ toSizeT q.maxSize ≤ q.queue.length) := by
  unfold LinxQueue.add LinxQueue.addOutcome capacity
  by_cases room : q.queue.length < toSizeT q.maxSize
  · by_cases memory : q.queue.length < listMaxSize
    · simp only [if_pos room, if_pos memory]
      exact ⟨iff_of_false (by simp) (by omega), iff_of_false (by decide) (by omega)⟩
    · simp only [if_pos room, if_neg memory]
      exact ⟨iff_of_true (by simp) (by omega), iff_of_false (by simp) (by omega)⟩
  · simp only [if_neg room]
    exact ⟨iff_of_true (by decide) (by omega), iff_of_true trivial (by omega)⟩

theorem add_stored {q : LinxQueue ι} (room : q.queue.length < capacity q.maxSize)
    (msg : LinxReceivedMessage ι) :
    q.add msg =
      (some 0, none, { q with queue := q.queue ++ [msg], efd := q.efd.writeEvent.2 }) := by
  unfold capacity at room
  have below : q.queue.length < toSizeT q.maxSize := by omega
  have memory : q.queue.length < listMaxSize := by omega
  simp only [LinxQueue.add, LinxQueue.addOutcome, if_pos below, if_pos memory]

namespace Threads

variable [DecidableEq τ] [BEq ι]

theorem add_runs {s : Threads τ ι} {thread : τ} (quiet : s.pc thread = .idle)
    (room : s.shared.queue.length < capacity s.shared.maxSize) (msg : LinxReceivedMessage ι) :
    ∃ next events, machine.run s [.call thread (.add msg), .lock thread, .notify thread,
        .ret thread] = some (next, events) ∧
      next.shared.queue = s.shared.queue ++ [msg] ∧ next.pc thread = .idle := by
  let called := s.setPc thread (.locking (.add msg))
  let stored : LinxQueue ι :=
    { s.shared with queue := s.shared.queue ++ [msg], efd := s.shared.efd.writeEvent.2 }
  let locked := called.leave stored thread (.notifying (.add (some 0) none))
  let notified := (locked.setPc thread (.returning (.add (some 0) none))).notifyAll
  have first : machine.step s (.call thread (.add msg)) =
      some (called, [.invoked thread (.add msg)]) := by
    simp only [machine, step, quiet, called]
  have second : machine.step called (.lock thread) =
      some (locked, [.committed thread (.add msg) (.add (some 0) none)]) := by
    simp [machine, step, lockSection, called, lockAdd, add_stored room, locked, stored]
  have third : machine.step locked (.notify thread) = some (notified, []) := by
    simp [machine, step, locked, notified]
  have fourth : machine.step notified (.ret thread) =
      some (notified.setPc thread .idle, [.returned thread (.add (some 0) none)]) := by
    simp [machine, step, notified, Pc.notified]
  refine ⟨_, _, machine.run_cons_some first (machine.run_cons_some second
    (machine.run_cons_some third (machine.run_single fourth))), rfl, ?_⟩
  simp

theorem fills (thread : τ) (efd : LinxEventFd) {size : Int32} {count : Nat}
    (within : count ≤ capacity size) :
    ∃ (actions : List (Action τ ι)) (s : Threads τ ι) (events : List (Event τ ι)),
      machine.run (initial efd size) actions = some (s, events) ∧
        s.shared.queue.length = count ∧ s.pc thread = .idle := by
  induction count with
  | zero => exact ⟨[], initial efd size, [], rfl, rfl, rfl⟩
  | succ count ih =>
      obtain ⟨actions, s, events, ran, length, quiet⟩ := ih (Nat.le_of_succ_le within)
      have room : s.shared.queue.length < capacity s.shared.maxSize := by
        rw [(run_replays ran).1, length]
        exact within
      obtain ⟨next, more, added, stored, idle⟩ :=
        add_runs quiet room { message := { reqId := 0, payload := [] }, sender := none }
      refine ⟨_, next, _, machine.run_append ran added, ?_, idle⟩
      rw [stored, List.length_append, length, List.length_singleton]

theorem step_added {s next : Threads τ ι} {action : Action τ ι} {emitted : List (Event τ ι)}
    (stepped : s.step action = some (next, emitted)) {thread : τ} {msg : LinxReceivedMessage ι}
    {result : Option Int} {kept : Option (LinxReceivedMessage ι)}
    (member : ⟨thread, .add msg, .add result kept⟩ ∈ commits emitted) :
    (s.shared.add msg).1 = result := by
  cases step_cases stepped with
  | added ready computed =>
      cases List.mem_singleton.mp member
      rw [computed]
  | got ready computed may =>
      rw [commits_removal] at member
      cases List.mem_singleton.mp member
  | cleared | stopped => cases List.mem_singleton.mp member
  | invoked | slept | notified | woke | timedOut | returned => cases member

theorem add_commits_at (thread : τ) (efd : LinxEventFd) {size : Int32} {count : Nat}
    (within : count ≤ capacity size) :
    ∃ (actions : List (Action τ ι)) (s : Threads τ ι) (events : List (Event τ ι))
      (next : Threads τ ι) (emitted : List (Event τ ι)) (msg : LinxReceivedMessage ι)
      (result : Option Int) (kept : Option (LinxReceivedMessage ι)),
      machine.run (initial efd size) actions = some (s, events) ∧
        s.shared.queue.length = count ∧ s.step (.lock thread) = some (next, emitted) ∧
        ⟨thread, .add msg, .add result kept⟩ ∈ commits emitted := by
  obtain ⟨actions, s, events, ran, length, quiet⟩ := @fills τ ι _ _ thread efd size count within
  let msg : LinxReceivedMessage ι := { message := { reqId := 0, payload := [] }, sender := none }
  have called : machine.step s (.call thread (.add msg)) =
      some (s.setPc thread (.locking (.add msg)), [.invoked thread (.add msg)]) := by
    simp only [machine, step, quiet]
  have locked : (s.setPc thread (.locking (.add msg))).step (.lock thread) =
      some ((s.setPc thread (.locking (.add msg))).lockAdd thread msg) := by
    simp [step, lockSection]
  refine ⟨_, _, _, _, _, msg, _, _, machine.run_append ran (machine.run_single called), length,
    locked, List.mem_singleton_self _⟩

/-! ### The requested capacity -/

/-- In every run the queue holds at most `queueSize` messages, and an `add` is
rejected exactly when it finds that many. -/
def Enforces (τ : Type) [DecidableEq τ] (rejected : Option Int → Prop) (queue : LinxQueue ι)
    (queueSize : Nat) : Prop :=
  ∀ (actions : List (Action τ ι)) (s : Threads τ ι) (events : List (Event τ ι)),
    machine.run { shared := queue, pc := fun _ => .idle } actions = some (s, events) →
      s.shared.queue.length ≤ queueSize ∧
        ∀ (action : Action τ ι) (next : Threads τ ι) (emitted : List (Event τ ι)) (thread : τ)
          (msg : LinxReceivedMessage ι) (result : Option Int)
          (kept : Option (LinxReceivedMessage ι)),
          s.step action = some (next, emitted) →
            ⟨thread, .add msg, .add result kept⟩ ∈ commits emitted →
              (rejected result ↔ s.shared.queue.length = queueSize)

theorem enforces_iff (thread : τ) (efd : LinxEventFd) {size : Int32}
    {rejected : Option Int → Prop} (limit : Nat)
    (rejects : ∀ (q : LinxQueue ι) (msg : LinxReceivedMessage ι), q.maxSize = size →
      (rejected (q.add msg).1 ↔ limit ≤ q.queue.length)) (queueSize : Nat) :
    Enforces τ rejected (LinxQueue.create efd size : LinxQueue ι) queueSize ↔
      capacity size ≤ queueSize ∧ ∀ count ≤ capacity size, (limit ≤ count ↔ count = queueSize) := by
  constructor
  · intro enforces
    constructor
    · obtain ⟨actions, s, events, ran, length, -⟩ :=
        @fills τ ι _ _ thread efd size _ (Nat.le_refl _)
      rw [← length]
      exact (enforces actions s events ran).1
    · intro count within
      obtain ⟨actions, s, events, next, emitted, msg, result, kept, ran, rfl, stepped, member⟩ :=
        @add_commits_at τ ι _ _ thread efd size count within
      rw [← (enforces actions s events ran).2 _ next emitted thread msg result kept stepped member,
        ← step_added stepped member, rejects s.shared msg (run_replays ran).1]
  · rintro ⟨below, exact⟩ actions s events ran
    have within := run_within ran
    refine ⟨Nat.le_trans within below, ?_⟩
    intro action next emitted other msg result kept stepped member
    rw [← exact _ within, ← step_added stepped member, rejects s.shared msg (run_replays ran).1]

theorem enforces_capacity_iff (thread : τ) (efd : LinxEventFd) {size : Int32}
    {rejected : Option Int → Prop}
    (rejects : ∀ (q : LinxQueue ι) (msg : LinxReceivedMessage ι), q.maxSize = size →
      (rejected (q.add msg).1 ↔ capacity size ≤ q.queue.length)) (queueSize : Nat) :
    Enforces τ rejected (LinxQueue.create efd size : LinxQueue ι) queueSize ↔
      capacity size = queueSize := by
  rw [enforces_iff thread efd _ rejects]
  constructor
  · rintro ⟨-, exact⟩
    exact (exact _ (Nat.le_refl _)).mp (Nat.le_refl _)
  · intro same
    rw [same]
    refine ⟨Nat.le_refl _, ?_⟩
    intro count within
    exact ⟨Nat.le_antisymm within, fun reached => Nat.le_of_eq reached.symm⟩

def Refused (result : Option Int) : Prop := result ≠ some 0

def ReturnedFull (result : Option Int) : Prop := result = some (-1)

theorem enforces_refused_iff (thread : τ) (efd : LinxEventFd) (queueSize : Nat) :
    Enforces τ Refused (LinxQueue.create efd (ofSizeT queueSize) : LinxQueue ι) queueSize ↔
      queueSize < 2147483648 := by
  have rejects : ∀ (q : LinxQueue ι) (msg : LinxReceivedMessage ι),
      q.maxSize = ofSizeT queueSize →
        (Refused (q.add msg).1 ↔ capacity (ofSizeT queueSize) ≤ q.queue.length) := by
    intro q msg sameSize
    rw [← sameSize]
    exact (add_result q msg).1
  rw [← capacity_ofSizeT_iff, enforces_capacity_iff thread efd rejects]

theorem enforces_returnedFull_iff (thread : τ) (efd : LinxEventFd) (queueSize : Nat) :
    Enforces τ ReturnedFull (LinxQueue.create efd (ofSizeT queueSize) : LinxQueue ι) queueSize ↔
      queueSize < 2147483648 ∨ (listMaxSize < queueSize ∧ (ofSizeT queueSize).toInt < 0) := by
  have rejects : ∀ (q : LinxQueue ι) (msg : LinxReceivedMessage ι),
      q.maxSize = ofSizeT queueSize →
        (ReturnedFull (q.add msg).1 ↔ toSizeT (ofSizeT queueSize) ≤ q.queue.length) := by
    intro q msg sameSize
    rw [← sameSize]
    exact (add_result q msg).2
  have limit : listMaxSize = 384307168202282325 := by decide
  rcases toSizeT_ofSizeT_cases queueSize with ⟨low, nonneg, kept⟩ | ⟨high, negative, huge⟩
  · have same : capacity (ofSizeT queueSize) = toSizeT (ofSizeT queueSize) := by
      rw [capacity, limit]
      omega
    rw [← same] at rejects
    rw [enforces_capacity_iff thread efd rejects, capacity_ofSizeT_iff,
      or_iff_left (fun both => Int.not_lt.mpr nonneg both.2)]
  · -- the list ends before any count of messages is rejected
    have same : capacity (ofSizeT queueSize) = listMaxSize := by
      rw [capacity, limit]
      omega
    have large : ¬ queueSize < 2147483648 := by omega
    rw [enforces_iff thread efd _ rejects, same, or_iff_right large, and_iff_left negative]
    constructor
    · rintro ⟨-, exact⟩
      refine Nat.not_le.mp ?_
      intro within
      have reached := (exact queueSize within).mpr rfl
      omega
    · intro beyond
      refine ⟨Nat.le_of_lt beyond, ?_⟩
      intro count within
      refine iff_of_false ?_ ?_
      · omega
      · omega

theorem enforces_created_iff (thread : τ) {queue : LinxQueue ι} {efd : LinxEventFd}
    {queueSize : Nat} (created : queue = .create efd (ofSizeT queueSize)) :
    (Enforces τ Refused queue queueSize ↔ queueSize < 2147483648) ∧
      (Enforces τ ReturnedFull queue queueSize ↔ queueSize < 2147483648 ∨
        (listMaxSize < queueSize ∧ (ofSizeT queueSize).toInt < 0)) := by
  rw [created]
  exact ⟨enforces_refused_iff thread efd queueSize, enforces_returnedFull_iff thread efd queueSize⟩

end Threads

end Queue

/-! ### The factories -/

def AfUnixServer.queue (self : AfUnixServer) (efd : LinxEventFd) : LinxQueue UnixInfo :=
  .create efd (ofSizeT self.queueSize)

theorem AfUnixFactory.createServer_queue {inUse : List (List UInt8)} {socketFd : Int}
    {name : StdString} {queueSize : Nat} {server : AfUnixServer}
    (created : createServer inUse socketFd name queueSize = some (some server))
    (efd : LinxEventFd) : server.queue efd = .create efd (ofSizeT queueSize) := by
  unfold createServer withSocket at created
  split at created
  · cases created
  · split at created
    · cases created
    · cases created
      rfl

open Queue.Threads (Enforces Refused ReturnedFull)

/-- For which sizes a server's queue keeps to the size asked for: if every `add`
that does not store its message counts as rejected, and if only a result of -1
does. -/
theorem requested_capacity_enforced_iff {τ : Type} [DecidableEq τ] (thread : τ)
    (queueSize : Nat) :
    (∀ (inUse : List (List UInt8)) (socketFd : Int) (name : StdString) (efd : LinxEventFd)
        (server : AfUnixServer),
        AfUnixFactory.createServer inUse socketFd name queueSize = some (some server) →
          (Enforces τ Refused (server.queue efd) queueSize ↔ queueSize < 2147483648) ∧
            (Enforces τ ReturnedFull (server.queue efd) queueSize ↔ queueSize < 2147483648 ∨
              (listMaxSize < queueSize ∧ (ofSizeT queueSize).toInt < 0))) ∧
      (∀ (kernel : UdpKernel) (socketFd : Int) (efd : LinxEventFd) (port : UInt16)
        (server : UdpServer),
        UdpFactory.createServer kernel socketFd efd port queueSize = some server →
          (Enforces τ Refused server.queue queueSize ↔ queueSize < 2147483648) ∧
            (Enforces τ ReturnedFull server.queue queueSize ↔ queueSize < 2147483648 ∨
              (listMaxSize < queueSize ∧ (ofSizeT queueSize).toInt < 0))) ∧
      ∀ (kernel : UdpKernel) (socketFd : Int) (efd : LinxEventFd) (multicastIp : StdString)
        (port : UInt16) (server : UdpServer),
        UdpFactory.createMulticastServer kernel socketFd efd multicastIp port queueSize =
            some server →
          (Enforces τ Refused server.queue queueSize ↔ queueSize < 2147483648) ∧
            (Enforces τ ReturnedFull server.queue queueSize ↔ queueSize < 2147483648 ∨
              (listMaxSize < queueSize ∧ (ofSizeT queueSize).toInt < 0)) := by
  refine ⟨?_, ?_, ?_⟩
  · intro inUse socketFd name efd server created
    exact Queue.Threads.enforces_created_iff thread
      (AfUnixFactory.createServer_queue created efd)
  · intro kernel socketFd efd port server created
    exact Queue.Threads.enforces_created_iff thread (UdpFactory.createServer_queue created)
  · intro kernel socketFd efd multicastIp port server created
    exact Queue.Threads.enforces_created_iff thread
      (UdpFactory.createMulticastServer_queue created)

theorem requested_capacity_enforced_hundred :
    (∃ server, AfUnixFactory.createServer [] 3 (ofAscii "MyServer") 100 = some (some server) ∧
        (Enforces Unit Refused (server.queue ⟨4, 0⟩) 100 ↔ 100 < 2147483648)) ∧
      (∃ server, UdpFactory.createServer ⟨fun _ _ => 0, fun _ _ => 0⟩ 3 ⟨4, 0⟩ 8080 100 =
          some server ∧ (Enforces Unit Refused server.queue 100 ↔ 100 < 2147483648)) ∧
      ∃ server, UdpFactory.createMulticastServer ⟨fun _ _ => 0, fun _ _ => 0⟩ 3 ⟨4, 0⟩
          (ofAscii "239.0.0.1") 8080 100 = some server ∧
        (Enforces Unit Refused server.queue 100 ↔ 100 < 2147483648) := by
  obtain ⟨unix, udp, multicast⟩ := requested_capacity_enforced_iff () 100
  refine ⟨?_, ⟨_, rfl, (udp ⟨fun _ _ => 0, fun _ _ => 0⟩ 3 ⟨4, 0⟩ 8080 _ rfl).1⟩, ⟨_, rfl,
    (multicast ⟨fun _ _ => 0, fun _ _ => 0⟩ 3 ⟨4, 0⟩ (ofAscii "239.0.0.1") 8080 _ rfl).1⟩⟩
  obtain ⟨server, created⟩ :=
    (AfUnixFactory.withSocket_created_iff (show (0 : Int) ≤ 3 by decide)
      (show (ofAscii "MyServer").length ≤ 107 by decide) _).mpr
        (show 0 :: padded (ofAscii "MyServer") ∉ [] from List.not_mem_nil)
  exact ⟨server, created, (unix _ _ _ ⟨4, 0⟩ server created).1⟩

/-- A server for 2³² messages stores none. -/
theorem large_queueSize_rejects_all :
    ∃ server, UdpFactory.createServer ⟨fun _ _ => 0, fun _ _ => 0⟩ 3 ⟨4, 0⟩ 8080 4294967296 =
        some server ∧
      ¬ Enforces Unit Refused server.queue 4294967296 ∧
      ¬ Enforces Unit ReturnedFull server.queue 4294967296 ∧
      ∃ s events, Queue.Threads.machine.run { shared := server.queue, pc := fun _ => .idle }
          [.call () (.add ⟨⟨7, []⟩, none⟩), .lock ()] = some (s, events) ∧
        Queue.commits events =
          [⟨(), .add ⟨⟨7, []⟩, none⟩, .add (some (-1)) (some ⟨⟨7, []⟩, none⟩)⟩] := by
  refine ⟨_, rfl, ?_, ?_, _, _, rfl, rfl⟩
  · rw [Queue.Threads.enforces_refused_iff () ⟨4, 0⟩ 4294967296]
    decide
  · rw [Queue.Threads.enforces_returnedFull_iff () ⟨4, 0⟩ 4294967296]
    decide

end LinxIpc
