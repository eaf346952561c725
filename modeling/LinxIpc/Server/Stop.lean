import LinxIpc.Queue.Wakeup
import LinxIpc.Server.Roles

/-!
What `GenericServer::stop` leaves in the queue.

`stop` closes the socket, then clears the queue, then waits for the worker.  A
worker that has taken a message from the socket and not yet locked the queue to add
it stores the message afterwards: `LinxQueue::add` does not look at `stopped`.  With
no such message the queue stays empty for good.
-/

namespace LinxIpc.Queue

variable {τ ι : Type}

/-! ### An empty queue stays empty -/

structure Emptied (q : LinxQueue ι) : Prop where
  queue : q.queue = []
  counter : q.efd.counter = 0

/-- `clearEvents` can bring the counter to zero: a descriptor that was never
opened has none to clear. -/
def Clearable (event : LinxEventFd) : Prop := 0 ≤ event.efd ∨ event.counter = 0

theorem Clearable.writeEvent {event : LinxEventFd} (clearable : Clearable event) :
    Clearable event.writeEvent.2 := by
  by_cases failed : event.efd < 0
  · rw [LinxEventFd.writeEvent, if_pos failed]
    exact clearable
  · left
    rw [LinxEventFd.writeEvent_efd]
    exact Int.not_lt.mp failed

theorem Clearable.readEvent {event : LinxEventFd} (clearable : Clearable event) :
    Clearable event.readEvent.2 := by
  by_cases failed : event.efd < 0
  · rw [LinxEventFd.readEvent, if_pos failed]
    exact clearable
  · left
    rw [LinxEventFd.readEvent_efd]
    exact Int.not_lt.mp failed

theorem Clearable.clearEvents {event : LinxEventFd} (clearable : Clearable event) :
    event.clearEvents.counter = 0 := by
  by_cases failed : event.efd < 0
  · rw [LinxEventFd.clearEvents, if_pos failed]
    exact clearable.resolve_left (Int.not_le.mpr failed)
  · rw [LinxEventFd.clearEvents_opened (Int.not_lt.mp failed)]

theorem Emptied.stop {q : LinxQueue ι} (clearable : Clearable q.efd) : Emptied q.stop :=
  ⟨rfl, clearable.clearEvents⟩

theorem Emptied.clear {q : LinxQueue ι} (clearable : Clearable q.efd) : Emptied q.clear :=
  ⟨rfl, clearable.clearEvents⟩

theorem Emptied.clearable {q : LinxQueue ι} (emptied : Emptied q) : Clearable q.efd :=
  .inr emptied.counter

theorem Emptied.unreadable {q : LinxQueue ι} (emptied : Emptied q) : q.efd.readable = false := by
  simp [LinxEventFd.readable, emptied.counter]

theorem Emptied.findMessage [BEq ι] {q : LinxQueue ι} (emptied : Emptied q)
    (sigsel : List UInt32) (sender : Option ι) : q.findMessage sigsel sender = (none, q) := by
  apply LinxQueue.findMessage_absent
  rw [emptied.queue]
  rfl

theorem add_nowhere {q : LinxQueue ι} (nowhere : capacity q.maxSize = 0)
    (msg : LinxReceivedMessage ι) : (q.add msg).2.2 = q := by
  unfold LinxQueue.add
  cases outcome : q.addOutcome with
  | full | badAlloc => rfl
  | stored =>
      unfold LinxQueue.addOutcome at outcome
      unfold capacity at nowhere
      split at outcome
      · split at outcome
        · omega
        · cases outcome
      · cases outcome

namespace Threads

variable [DecidableEq τ] [BEq ι]

theorem did_clearable {s next : Threads τ ι} {action : Action τ ι} {events : List (Event τ ι)}
    (clearable : Clearable s.shared.efd) (did : Did s action next events) :
    Clearable next.shared.efd := by
  cases did with
  | invoked | slept | notified | woke | timedOut | returned => exact clearable
  | @added thread msg result kept shared ready computed =>
      unfold LinxQueue.add at computed
      split at computed <;> cases computed
      · exact clearable.writeEvent
      · exact clearable
      · exact clearable
  | @got thread args msg shared ready computed may =>
      unfold LinxQueue.findMessage at computed
      split at computed <;> cases computed
      · exact clearable.readEvent
      · exact clearable
  | cleared => exact (Emptied.clear clearable).clearable
  | stopped => exact (Emptied.stop clearable).clearable

theorem did_emptied {s next : Threads τ ι} {action : Action τ ι} {events : List (Event τ ι)}
    (emptied : Emptied s.shared) (did : Did s action next events)
    (noAdd : ∀ thread msg, s.pc thread = .locking (.add msg) → capacity s.shared.maxSize = 0) :
    Emptied next.shared := by
  cases did with
  | invoked | slept | notified | woke | timedOut | returned => exact emptied
  | @added thread msg result kept shared ready computed =>
      have unchanged : shared = s.shared := by
        have same := add_nowhere (noAdd thread msg ready) msg
        rw [computed] at same
        exact same
      rw [leave_shared, unchanged]
      exact emptied
  | @got thread args msg shared ready computed may =>
      rw [emptied.findMessage] at computed
      cases computed
      exact emptied
  | cleared => exact .clear emptied.clearable
  | stopped => exact .stop emptied.clearable

/-- On an empty stopped queue every `get` returns null in its first section. -/
theorem lock_missed {s : Threads τ ι} (emptied : Emptied s.shared)
    (stopped : s.shared.stopped = true) {thread : τ} {args : Get ι}
    (called : s.pc thread = .locking (.get args)) :
    s.step (.lock thread) = some (s.leave s.shared thread (.returning (.get none)),
      [.committed thread (.get args) (.get none)]) := by
  have missing := emptied.findMessage args.sigsel args.sender
  simp only [step, lockSection, called]
  split
  · simp only [lockFind, missing]
    rfl
  · simp only [lockWait, LinxQueue.waitPredicate, missing, stopped, Bool.or_true, if_true]
    rfl

end Threads

end LinxIpc.Queue

namespace LinxIpc.Server.State

variable {κ α ι : Type}

open Queue (Clearable Emptied)

/-- The worker has taken a message from the socket and not yet locked the queue to add it,
and will find room in an empty one. -/
def LateAdd (s : State κ α ι) : Prop :=
  Queue.capacity s.queue.shared.maxSize ≠ 0 ∧
    ∃ msg, s.queue.pc .worker = .locking (.add msg)

/-- When `queue->stop` clears the queue, no message is on its way into it. -/
def InTime (s : State κ α ι) : Action κ α ι → Prop
  | .queue (.lock .control) => ¬ LateAdd s
  | _ => True

structure Quenched (s : State κ α ι) : Prop where
  clearable : Clearable s.queue.shared.efd
  emptied : s.queue.shared.stopped = true → Emptied s.queue.shared ∧ ¬ LateAdd s

/-- Nothing is left for anybody: no message, no readable descriptor, and null
from every `receive`, without waiting. -/
structure NothingLeft [DecidableEq κ] [BEq ι] (s : State κ α ι) : Prop where
  queue : s.queue.shared.queue = []
  counter : s.queue.shared.efd.counter = 0
  unreadable : s.queue.shared.efd.readable = false
  null : ∀ role args, s.queue.pc role = .locking (.get args) →
    ∃ next, s.queue.step (.lock role) =
      some (next, [.committed role (.get args) (.get none)]) ∧ next.pc role = .returning (.get none)
  awake : ∀ role args, s.queue.pc role ≠ .asleep args

theorem Sound.adds_worker {s : State κ α ι} (sound : Sound s) {role : Role κ}
    {msg : LinxReceivedMessage ι} (adds : s.queue.pc role = .locking (.add msg)) :
    role = .worker := by
  have calling := sound.calling adds
  cases role with
  | worker => rfl
  | control | consumer => cases calling

theorem Sound.stops_control {s : State κ α ι} (sound : Sound s) {role : Role κ}
    (stops : s.queue.pc role = .locking .stop) : role = .control := by
  have calling := sound.calling stops
  cases role with
  | control => rfl
  | worker | consumer => cases calling

variable [DecidableEq κ] [BEq ι]

theorem lateAdd_back {s next : State κ α ι} {action : Queue.Action (Role κ) ι}
    {events : List (Queue.Event (Role κ) ι)} (allowed : QueueAction action = true)
    (did : Queue.Threads.Did s.queue action next.queue events) (late : LateAdd next) :
    LateAdd s := by
  obtain ⟨room, msg, after⟩ := late
  have sameSize := (Queue.Threads.did_commits did).1
  refine ⟨sameSize ▸ room, msg, ?_⟩
  rcases role_moves allowed did .worker nofun with ⟨-, -, idle⟩ | ⟨-, goes⟩
  · rw [idle] at after
    cases after
  · rw [after] at goes
    exact goes_locking goes

theorem Quenched.queue {s next : State κ α ι} {action : Queue.Action (Role κ) ι}
    {events : List (Queue.Event (Role κ) ι)} (quenched : Quenched s) (sound : Sound s)
    (inTime : InTime s (.queue action)) (allowed : QueueAction action = true)
    (did : Queue.Threads.Did s.queue action next.queue events) : Quenched next := by
  refine ⟨Queue.Threads.did_clearable quenched.clearable did, fun stopped => ?_⟩
  rcases Queue.Threads.did_stopped did with ⟨same, -⟩ | ⟨role, rfl, stops, now⟩
  · obtain ⟨emptied, onTime⟩ := quenched.emptied (same ▸ stopped)
    refine ⟨Queue.Threads.did_emptied emptied did ?_,
      fun late => onTime (lateAdd_back allowed did late)⟩
    intro role msg adds
    obtain rfl := sound.adds_worker adds
    by_contra room
    exact onTime ⟨room, msg, adds⟩
  · obtain rfl := sound.stops_control stops
    refine ⟨?_, fun late => inTime (lateAdd_back allowed did late)⟩
    rw [now]
    exact .stop quenched.clearable

theorem Quenched.did {identifier : α → ι} {s next : State κ α ι} {action : Action κ α ι}
    {events : List (Event κ α ι)} (quenched : Quenched s) (sound : Sound s)
    (inTime : InTime s action) (did : Did identifier s action next events) : Quenched next := by
  cases did with
  | queue allowed stepped =>
      exact quenched.queue sound inTime allowed (Queue.Threads.step_cases stepped)
  | offered receiving opened atHead asked quiet =>
      refine ⟨quenched.clearable, fun stopped => ?_⟩
      rw [sound.closed stopped] at opened
      cases opened
  | stopping idle joinable quiet =>
      refine ⟨quenched.clearable, fun stopped => ?_⟩
      obtain ⟨emptied, onTime⟩ := quenched.emptied stopped
      have sameWorker : (s.queue.setPc .control (.locking .stop)).pc .worker =
          s.queue.pc .worker := by simp
      refine ⟨emptied, fun late => onTime ⟨late.1, ?_⟩⟩
      obtain ⟨msg, adds⟩ := late.2
      exact ⟨msg, sameWorker.symm.trans adds⟩
  | arrived | left | pinged | failed | answered | alreadyStarted | started | notStarted | joined =>
      exact ⟨quenched.clearable, quenched.emptied⟩

theorem stopped_stays {identifier : α → ι} {s next : State κ α ι} {action : Action κ α ι}
    {events : List (Event κ α ι)} (stopped : s.queue.shared.stopped = true)
    (did : Did identifier s action next events) : next.queue.shared.stopped = true := by
  cases did with
  | queue allowed stepped =>
      exact Queue.Threads.did_stays_stopped (Queue.Threads.step_cases stepped) stopped
  | arrived | left | pinged | offered | failed | answered | alreadyStarted | started | stopping
  | notStarted | joined => exact stopped

omit [DecidableEq κ] [BEq ι] in
theorem Quenched.inTime {s : State κ α ι} (quenched : Quenched s)
    (stopped : s.queue.shared.stopped = true) (action : Action κ α ι) : InTime s action := by
  unfold InTime
  split
  · exact (quenched.emptied stopped).2
  · trivial

theorem run_quenched {identifier : α → ι} {efd : LinxEventFd} {size : Int32}
    (unused : efd.counter = 0) {actions : List (Action κ α ι)} {s : State κ α ι}
    {events : List (Event κ α ι)}
    (inTime : (machine identifier).Along InTime (create efd size) actions)
    (ran : (machine identifier).run (create efd size) actions = some (s, events)) :
    Sound s ∧ Quenched s := by
  refine Machine.Along.invariant (motive := fun s => Sound s ∧ Quenched s) ?_
    ⟨sound_create efd size, .inr unused, nofun⟩ inTime ran
  intro s action next emitted held met stepped
  obtain ⟨sound, quenched⟩ := held
  exact ⟨sound.did (step_cases stepped), quenched.did sound met (step_cases stepped)⟩

theorem run_stopped {identifier : α → ι} {s last : State κ α ι} {later : List (Action κ α ι)}
    {events : List (Event κ α ι)} (sound : Sound s) (quenched : Quenched s)
    (stopped : s.queue.shared.stopped = true)
    (ran : (machine identifier).run s later = some (last, events)) :
    Quenched last ∧ last.queue.shared.stopped = true := by
  suffices all : Sound last ∧ Quenched last ∧ last.queue.shared.stopped = true from all.2
  refine (machine identifier).run_invariant
    (motive := fun _ _ s => Sound s ∧ Quenched s ∧ s.queue.shared.stopped = true)
    ⟨sound, quenched, stopped⟩ ?_ ran
  intro _ _ s action next emitted _ held stepped
  obtain ⟨sound, quenched, stopped⟩ := held
  have did := step_cases stepped
  exact ⟨sound.did did, quenched.did sound (quenched.inTime stopped action) did,
    stopped_stays stopped did⟩

/-- When no `add` is late, `stop` leaves nothing behind: in every state reached
after its return the queue is empty, the descriptor is unreadable, and `receive`
returns null at once. -/
theorem stop_leaves_nothing {identifier : α → ι} {efd : LinxEventFd} {size : Int32}
    (unused : efd.counter = 0) {actions later : List (Action κ α ι)} {s : State κ α ι}
    {events : List (Event κ α ι)}
    (inTime : (machine identifier).Along InTime (create efd size) actions)
    (ran : (machine identifier).run (create efd size) (actions ++ .join :: later) =
      some (s, events)) : NothingLeft s := by
  obtain ⟨before, stopping, rest, ranBefore, ranRest, rfl⟩ :=
    (machine identifier).run_append_inv ran
  obtain ⟨after, returned, emitted, returns, ranLater, rfl⟩ :=
    (machine identifier).run_cons_inv ranRest
  obtain ⟨sound, quenched⟩ := run_quenched unused inTime ranBefore
  have did : Did identifier before .join after returned := step_cases returns
  have wasStopped : after.queue.shared.stopped = true := by
    cases did with
    | joined joining ended => exact sound.joining joining
  have inTimeJoin : InTime before (.join : Action κ α ι) := trivial
  have quenchedAfter := quenched.did sound inTimeJoin did
  obtain ⟨lastQuenched, isStopped⟩ :=
    run_stopped (sound.did did) quenchedAfter wasStopped ranLater
  obtain ⟨emptied, -⟩ := lastQuenched.emptied isStopped
  obtain ⟨queueActions, ranQueue⟩ := run_queue ran
  have awake :=
    (Queue.Threads.wakeup_reachable ⟨queueActions, _, ranQueue⟩).awakeAfterStop isStopped
  refine ⟨emptied.queue, emptied.counter, emptied.unreadable, ?_, awake⟩
  intro role args called
  exact ⟨_, Queue.Threads.lock_missed emptied isStopped called, Function.update_self ..⟩

theorem stop_leaves_nothing_after_add :
    ∃ s : State Unit SockaddrIn PortInfo, s.control = .idle ∧ s.joinable = false ∧
      NothingLeft s := by
  have ran : (machine UdpSocket.identifier).run (create (κ := Unit) ⟨3, 0⟩ 4)
    ([.start, .arrive ⟨[0, 0, 0, 7], ⟨(127, 0, 0, 1), (0, 9)⟩⟩, .receive, .queue (.lock .worker),
      .stop, .queue (.lock .control), .queue (.ret .control), .queue (.notify .worker),
      .queue (.ret .worker), .receiveFails] ++ .join :: []) = some (_, _) := rfl
  refine ⟨_, rfl, rfl, stop_leaves_nothing rfl ?_ ran⟩
  refine .cons trivial rfl (.cons trivial rfl (.cons trivial rfl (.cons trivial rfl
    (.cons trivial rfl (.cons ?_ rfl (.cons trivial rfl (.cons trivial rfl (.cons trivial rfl
      (.cons trivial rfl trivial)))))))))
  rintro ⟨-, msg, adds⟩
  cases adds

/-- An `add` that is late: `stop` has returned, and the message is there. -/
theorem late_add_leaves_message :
    ∃ (s : State Unit SockaddrIn PortInfo) (events : List (Event Unit SockaddrIn PortInfo)),
      (machine UdpSocket.identifier).run (create ⟨3, 0⟩ 4)
        [.start, .arrive ⟨[0, 0, 0, 7], ⟨(127, 0, 0, 1), (0, 9)⟩⟩, .receive, .stop,
          .queue (.lock .control), .queue (.ret .control), .queue (.lock .worker),
          .queue (.notify .worker), .queue (.ret .worker), .receiveFails, .join] =
        some (s, events) ∧
      s.control = .idle ∧ s.joinable = false ∧ s.queue.shared.queue ≠ [] ∧
      s.queue.shared.efd.counter = 1 ∧ s.queue.shared.efd.readable = true ∧ ¬ NothingLeft s := by
  refine ⟨_, _, rfl, rfl, rfl, nofun, rfl, rfl, ?_⟩
  intro nothing
  cases nothing.queue

end LinxIpc.Server.State
