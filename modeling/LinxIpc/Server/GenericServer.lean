import LinxIpc.Queue.Refinement
import LinxIpc.Server.Task

/-!
`GenericServer`: the worker thread in `task`, one thread that calls `start` and
`stop`, and the consumers that call `receive`, on one socket and one `LinxQueue`.

The queue is the machine of `Threads` with these three kinds of threads, so every
step here is one of its steps or leaves it alone.  `socket->receive` takes one
datagram in one step, or fails with a result that is not positive; once the
socket is closed it can only fail.
-/

namespace LinxIpc.Server

variable {κ α ι : Type}

inductive Role (κ : Type) where
  | worker
  | control
  | consumer (name : κ)
  deriving DecidableEq

inductive Worker (ι : Type) where
  | absent
  | receiving
  | answering (peer : ι)
  | adding
  /-- Left the loop of `task`; still joinable. -/
  | ended
  deriving DecidableEq

inductive Control where
  | idle
  /-- `stop` has closed the socket and is in `queue->stop`. -/
  | stoppingQueue
  | joining
  deriving DecidableEq

structure State (κ α ι : Type) where
  inbox : List (Datagram α)
  opened : Bool
  queue : Queue.Threads (Role κ) ι
  worker : Worker ι
  joinable : Bool
  control : Control

inductive Action (κ α ι : Type) where
  | arrive (datagram : Datagram α)
  /-- `socket->receive` takes the datagram at the head. -/
  | receive
  /-- `socket->receive` returns 0 or an error. -/
  | receiveFails
  | answer
  | queue (action : Queue.Action (Role κ) ι)
  | start
  /-- `stop` up to its call of `queue->stop`. -/
  | stop
  | join

inductive Event (κ α ι : Type) where
  | arrived (datagram : Datagram α)
  | consumed (datagram : Datagram α)
  | terminated
  | sent (peer : ι)
  | queue (event : Queue.Event (Role κ) ι)
  | started
  | stopping
  | stopped

namespace State

/-- A server from a factory: the socket is open and nothing was started. -/
def create (efd : LinxEventFd) (size : Int32) : State κ α ι :=
  { inbox := [], opened := true, queue := .initial efd size, worker := .absent,
    joinable := false, control := .idle }

/-- Only consumers call into the queue on their own, and only through `receive`. -/
def QueueAction (action : Queue.Action (Role κ) ι) : Bool :=
  match action with
  | .call (.consumer _) (.get _) => true
  | .call _ _ => false
  | _ => true

def workerAfter (worker : Worker ι) : Queue.Action (Role κ) ι → Worker ι
  | .ret .worker => .receiving
  | _ => worker

def controlAfter (control : Control) : Queue.Action (Role κ) ι → Control
  | .ret .control => .joining
  | _ => control

variable [DecidableEq κ] [BEq ι]

def stepQueue (s : State κ α ι) (action : Queue.Action (Role κ) ι) :
    Option (State κ α ι × List (Queue.Event (Role κ) ι)) :=
  match s.queue.step action with
  | none => none
  | some (queue, events) => some ({ s with queue := queue }, events)

/-- The loop of `task` after `socket->receive` gave `received`. -/
def runTurn (s : State κ α ι) (received : Received ι) :
    Option (State κ α ι × List (Event κ α ι)) :=
  match taskTurn received with
  | none => none
  | some .leave => some ({ s with worker := .ended }, [.terminated])
  | some (.answer peer) => some ({ s with worker := .answering peer }, [])
  | some (.offer msg) =>
      match s.stepQueue (.call .worker (.add msg)) with
      | none => none
      | some (called, events) => some ({ called with worker := .adding }, events.map .queue)

def step (identifier : α → ι) (s : State κ α ι) :
    Action κ α ι → Option (State κ α ι × List (Event κ α ι))
  | .arrive datagram =>
      if s.opened then
        some ({ s with inbox := s.inbox ++ [datagram] }, [.arrived datagram])
      else none
  | .receive =>
      match s.worker, s.opened, s.inbox with
      | .receiving, true, datagram :: rest =>
          match { s with inbox := rest }.runTurn (received identifier datagram) with
          | none => none
          | some (next, events) => some (next, .consumed datagram :: events)
      | _, _, _ => none
  | .receiveFails =>
      match s.worker with
      | .receiving => some ({ s with worker := .ended }, [.terminated])
      | _ => none
  | .answer =>
      match s.worker with
      | .answering peer =>
          -- on a closed socket `send` fails, which the loop ignores
          some ({ s with worker := .receiving }, if s.opened then [.sent peer] else [])
      | _ => none
  | .queue action =>
      if QueueAction action then
        match s.stepQueue action with
        | none => none
        | some (next, events) =>
            some ({ next with
              worker := workerAfter s.worker action
              control := controlAfter s.control action }, events.map .queue)
      else none
  | .start =>
      match s.control with
      | .idle =>
          if s.joinable then some (s, [.started])
          else some ({ s with worker := .receiving, joinable := true }, [.started])
      | _ => none
  | .stop =>
      match s.control with
      | .idle =>
          if s.joinable then
            match s.stepQueue (.call .control .stop) with
            | none => none
            | some (called, events) =>
                some ({ called with opened := false, control := .stoppingQueue },
                  .stopping :: events.map .queue)
          else some (s, [.stopped])
      | _ => none
  | .join =>
      match s.control, s.worker with
      | .joining, .ended =>
          some ({ s with worker := .absent, joinable := false, control := .idle }, [.stopped])
      | _, _ => none

def machine (identifier : α → ι) : Machine (State κ α ι) (Action κ α ι) (Event κ α ι) where
  step := step identifier

/-! ### What a step can do -/

inductive Did (identifier : α → ι) (s : State κ α ι) :
    Action κ α ι → State κ α ι → List (Event κ α ι) → Prop where
  | arrived (datagram : Datagram α) (opened : s.opened = true) :
      Did identifier s (.arrive datagram) { s with inbox := s.inbox ++ [datagram] }
        [.arrived datagram]
  | left {datagram : Datagram α} {rest : List (Datagram α)} (receiving : s.worker = .receiving)
      (opened : s.opened = true) (atHead : s.inbox = datagram :: rest)
      (malformed : output? identifier datagram = none) :
      Did identifier s .receive { s with inbox := rest, worker := .ended }
        [.consumed datagram, .terminated]
  | pinged {datagram : Datagram α} {rest : List (Datagram α)} {peer : ι}
      (receiving : s.worker = .receiving) (opened : s.opened = true)
      (atHead : s.inbox = datagram :: rest)
      (asked : output? identifier datagram = some (.answered peer)) :
      Did identifier s .receive { s with inbox := rest, worker := .answering peer }
        [.consumed datagram]
  | offered {datagram : Datagram α} {rest : List (Datagram α)} {msg : LinxReceivedMessage ι}
      (receiving : s.worker = .receiving) (opened : s.opened = true)
      (atHead : s.inbox = datagram :: rest)
      (asked : output? identifier datagram = some (.offered msg))
      (quiet : s.queue.pc .worker = .idle) :
      Did identifier s .receive
        { s with
          inbox := rest, worker := .adding
          queue := s.queue.setPc .worker (.locking (.add msg)) }
        [.consumed datagram, .queue (.invoked .worker (.add msg))]
  | failed (receiving : s.worker = .receiving) :
      Did identifier s .receiveFails { s with worker := .ended } [.terminated]
  | answered {peer : ι} (answering : s.worker = .answering peer) :
      Did identifier s .answer { s with worker := .receiving }
        (if s.opened then [.sent peer] else [])
  | queue {action : Queue.Action (Role κ) ι} {queue : Queue.Threads (Role κ) ι}
      {events : List (Queue.Event (Role κ) ι)} (allowed : QueueAction action = true)
      (stepped : s.queue.step action = some (queue, events)) :
      Did identifier s (.queue action)
        { s with
          queue := queue
          worker := workerAfter s.worker action
          control := controlAfter s.control action }
        (events.map .queue)
  | alreadyStarted (idle : s.control = .idle) (joinable : s.joinable = true) :
      Did identifier s .start s [.started]
  | started (idle : s.control = .idle) (joinable : s.joinable = false) :
      Did identifier s .start { s with worker := .receiving, joinable := true } [.started]
  | stopping (idle : s.control = .idle) (joinable : s.joinable = true)
      (quiet : s.queue.pc .control = .idle) :
      Did identifier s .stop
        { s with
          opened := false, control := .stoppingQueue
          queue := s.queue.setPc .control (.locking .stop) }
        [.stopping, .queue (.invoked .control .stop)]
  | notStarted (idle : s.control = .idle) (joinable : s.joinable = false) :
      Did identifier s .stop s [.stopped]
  | joined (joining : s.control = .joining) (ended : s.worker = .ended) :
      Did identifier s .join
        { s with worker := .absent, joinable := false, control := .idle } [.stopped]

theorem stepQueue_call {s called : State κ α ι} {role : Role κ} {call : Queue.Call ι}
    {events : List (Queue.Event (Role κ) ι)}
    (stepped : s.stepQueue (.call role call) = some (called, events)) :
    s.queue.pc role = .idle ∧ events = [.invoked role call] ∧
      called = { s with queue := s.queue.setPc role (.locking call) } := by
  simp only [stepQueue, Queue.Threads.step] at stepped
  cases atRole : s.queue.pc role with
  | idle =>
      simp only [atRole] at stepped
      cases stepped
      exact ⟨rfl, rfl, rfl⟩
  | locking | notifying | asleep | woken | expired | returning =>
      simp only [atRole, reduceCtorEq] at stepped

theorem did_receive {identifier : α → ι} {s next : State κ α ι} {events : List (Event κ α ι)}
    {datagram : Datagram α} {rest : List (Datagram α)} (receiving : s.worker = .receiving)
    (opened : s.opened = true) (atHead : s.inbox = datagram :: rest)
    (turned : { s with inbox := rest }.runTurn (received identifier datagram) =
      some (next, events)) :
    Did identifier s .receive next (.consumed datagram :: events) := by
  by_cases wellFormed : WellFormed datagram
  · obtain ⟨turn, output, taken, stays, same, asked⟩ := taskTurn_wellFormed identifier wellFormed
    rw [runTurn, taken] at turned
    cases turn with
    | leave => exact absurd rfl stays
    | answer peer =>
        cases same
        cases turned
        exact .pinged receiving opened atHead asked
    | offer msg =>
        cases same
        simp only at turned
        split at turned
        · cases turned
        · rename_i called emitted stepped
          obtain ⟨quiet, rfl, rfl⟩ := stepQueue_call stepped
          cases turned
          exact .offered receiving opened atHead asked quiet
  · have malformed : output? identifier datagram = none := by
      rw [← Option.not_isSome_iff_eq_none, output_isSome_iff]
      exact wellFormed
    rw [runTurn, taskTurn_malformed identifier wellFormed] at turned
    cases turned
    exact .left receiving opened atHead malformed

theorem step_cases {identifier : α → ι} {s next : State κ α ι} {action : Action κ α ι}
    {events : List (Event κ α ι)} (stepped : step identifier s action = some (next, events)) :
    Did identifier s action next events := by
  cases action with
  | arrive datagram =>
      simp only [step] at stepped
      split at stepped
      · rename_i opened
        cases stepped
        exact .arrived datagram opened
      · cases stepped
  | receive =>
      simp only [step] at stepped
      split at stepped
      · rename_i datagram rest receiving opened atHead
        split at stepped
        · cases stepped
        · rename_i turned
          cases stepped
          exact did_receive receiving opened atHead turned
      · cases stepped
  | receiveFails =>
      simp only [step] at stepped
      split at stepped
      · rename_i receiving
        cases stepped
        exact .failed receiving
      · cases stepped
  | answer =>
      simp only [step] at stepped
      split at stepped
      · rename_i peer answering
        cases stepped
        exact .answered answering
      · cases stepped
  | queue action =>
      simp only [step, stepQueue] at stepped
      split at stepped
      · rename_i allowed
        cases moved : s.queue.step action with
        | none => simp only [moved, reduceCtorEq] at stepped
        | some result =>
            simp only [moved] at stepped
            cases stepped
            exact .queue allowed moved
      · cases stepped
  | start =>
      simp only [step] at stepped
      split at stepped
      · rename_i idle
        split at stepped
        · rename_i joinable
          cases stepped
          exact .alreadyStarted idle joinable
        · rename_i joinable
          cases stepped
          exact .started idle (Bool.eq_false_iff.mpr joinable)
      · cases stepped
  | stop =>
      simp only [step] at stepped
      split at stepped
      · rename_i idle
        split at stepped
        · rename_i joinable
          split at stepped
          · cases stepped
          · rename_i called emitted moved
            obtain ⟨quiet, rfl, rfl⟩ := stepQueue_call moved
            cases stepped
            exact .stopping idle joinable quiet
        · rename_i joinable
          cases stepped
          exact .notStarted idle (Bool.eq_false_iff.mpr joinable)
      · cases stepped
  | join =>
      simp only [step] at stepped
      split at stepped
      · rename_i joining ended
        cases stepped
        exact .joined joining ended
      · cases stepped

/-! ### The queue of a server -/

def queueEvents (events : List (Event κ α ι)) : List (Queue.Event (Role κ) ι) :=
  events.filterMap fun
    | .queue event => some event
    | _ => none

omit [DecidableEq κ] [BEq ι] in
@[simp]
theorem queueEvents_map (events : List (Queue.Event (Role κ) ι)) :
    queueEvents (events.map (Event.queue (α := α))) = events := by
  unfold queueEvents
  rw [List.filterMap_map]
  exact List.filterMap_some

theorem step_call {queue : Queue.Threads (Role κ) ι} {role : Role κ}
    (quiet : queue.pc role = .idle) (call : Queue.Call ι) :
    queue.step (.call role call) =
      some (queue.setPc role (.locking call), [.invoked role call]) := by
  simp only [Queue.Threads.step, quiet]

theorem did_queue {identifier : α → ι} {s next : State κ α ι} {action : Action κ α ι}
    {events : List (Event κ α ι)} (did : Did identifier s action next events) :
    ∃ actions, Queue.Threads.machine.run s.queue actions =
      some (next.queue, queueEvents events) := by
  cases did with
  | @offered datagram rest msg receiving opened atHead asked quiet =>
      exact ⟨[.call .worker (.add msg)], Queue.Threads.machine.run_single (step_call quiet _)⟩
  | stopping idle joinable quiet =>
      exact ⟨[.call .control .stop], Queue.Threads.machine.run_single (step_call quiet _)⟩
  | @queue action queue events allowed stepped =>
      rw [queueEvents_map]
      exact ⟨[action], Queue.Threads.machine.run_single stepped⟩
  | answered answering =>
      refine ⟨[], ?_⟩
      cases s.opened <;> rfl
  | arrived | left | pinged | failed | alreadyStarted | started | notStarted | joined =>
      exact ⟨[], rfl⟩

/-- The queue of a server is a queue under threads, so every result about those
holds of it. -/
def queueOf (identifier : α → ι) :
    Machine.Simulation (machine (κ := κ) identifier) Queue.Threads.machine queueEvents where
  related := fun s queue => s.queue = queue
  visibleNil := rfl
  visibleAppend := fun _ _ => List.filterMap_append ..
  answered := by
    intro s action next events queue same stepped
    obtain ⟨actions, ran⟩ := did_queue (step_cases stepped)
    exact ⟨actions, next.queue, same ▸ ran, rfl⟩

theorem run_queue {identifier : α → ι} {start s : State κ α ι} {actions : List (Action κ α ι)}
    {events : List (Event κ α ι)}
    (ran : (machine identifier).run start actions = some (s, events)) :
    ∃ queueActions, Queue.Threads.machine.run start.queue queueActions =
      some (s.queue, queueEvents events) := by
  obtain ⟨queueActions, queue, ranQueue, same⟩ := (queueOf identifier).run_answered rfl ran
  obtain rfl : s.queue = queue := same
  exact ⟨queueActions, ranQueue⟩

end State

end LinxIpc.Server
