import LinxIpc.Server.HandlerCost

/-!
A handler whose thread calls `handleMessage()` in a loop.

Beside the worker it keeps up as well.  A datagram costs the two so many steps, of
which the next can always be taken, and when nothing is left to do each message was
handed to a callback, was looked up in vain, or met a full queue.
-/

namespace LinxIpc.Server.Pipeline

variable {α β δ ι : Type} [BEq ι]

/-! ### Either thread can go on, or waits -/

def Works (identifier : α → ι) (p : Pipeline α β δ ι) : Prop :=
  ∃ action : Action α β δ ι, action.isWork = true ∧
    ((machine identifier).restrict Looping).step p action ≠ none

theorem server_enabled {identifier : α → ι} {p : Pipeline α β δ ι}
    {action : Server.Action Unit α ι} (own : ServerAction action = true)
    (enabled : p.server.step identifier action ≠ none) :
    p.step identifier (.server action) ≠ none := by
  obtain ⟨⟨server, events⟩, stepped⟩ := Option.ne_none_iff_exists'.mp enabled
  simp only [step, own, if_true, stepped]
  exact Option.some_ne_none _

theorem Loops.queue_works {identifier : α → ι} {p : Pipeline α β δ ι}
    {action : Queue.Action (Role Unit) ι} (inner : action.Inner)
    (own : ServerAction (.queue action : Server.Action Unit α ι) = true)
    (enabled : p.server.step identifier (.queue action) ≠ none) : Works identifier p := by
  refine ⟨.server (.queue action), ?_, Machine.restrict_enabled rfl (server_enabled own enabled)⟩
  cases action with
  | call | spurious => exact inner.elim
  | lock | notify | timeout | ret => rfl

theorem Loops.worker_works (identifier : α → ι) {p : Pipeline α β δ ι} (loops : Loops p)
    (started : p.server.worker ≠ .absent) :
    (p.server.worker = .receiving ∧ p.server.inbox = []) ∨ Works identifier p := by
  cases atWorker : p.server.worker with
  | absent => exact absurd atWorker started
  | ended => exact absurd atWorker loops.stays
  | receiving =>
      cases atHead : p.server.inbox with
      | nil => exact .inl ⟨rfl, rfl⟩
      | cons datagram rest =>
          have wellFormed := loops.wellFormed datagram (by rw [atHead]; exact List.mem_cons_self)
          obtain ⟨next, _, _, stepped, -⟩ :=
            loops.sound.takes loops.opened atWorker atHead wellFormed
          have enabled : p.server.step identifier .receive ≠ none := by
            rw [stepped]
            exact Option.some_ne_none _
          exact .inr ⟨.server .receive, rfl,
            Machine.restrict_enabled rfl (server_enabled rfl enabled)⟩
  | answering peer =>
      have enabled : p.server.step identifier .answer ≠ none := by
        simp only [State.step, atWorker]
        exact Option.some_ne_none _
      exact .inr ⟨.server .answer, rfl,
        Machine.restrict_enabled rfl (server_enabled rfl enabled)⟩
  | adding =>
      have inside : p.server.queue.pc .worker ≠ .idle := by
        intro idle
        have adds := loops.sound.workerAdds atWorker
        rw [idle] at adds
        cases adds
      obtain ⟨action, inner, thread, enabled⟩ :=
        loops.sound.queue_enabled identifier State.worker_own inside
      refine .inr (queue_works inner ?_ enabled)
      cases action with
      | call | spurious => exact inner.elim
      | lock | notify | timeout => rfl
      | ret role =>
          obtain rfl : role = .worker := thread
          rfl

theorem Loops.handler_works (identifier : α → ι) {p : Pipeline α β δ ι} (loops : Loops p) :
    (p.callbacks = [] ∧ ∃ args, p.server.queue.pc (.consumer ()) = .asleep args) ∨
      Works identifier p := by
  cases receiving : p.receiving with
  | false =>
      right
      cases inside : p.callbacks with
      | cons container callbacks =>
          refine ⟨.callbackReturns 0, rfl, Machine.restrict_enabled rfl ?_⟩
          simp only [machine, step, receiving, inside]
          exact Option.some_ne_none _
      | nil =>
          have idle : p.server.queue.pc (.consumer ()) = .idle := by
            by_contra busy
            rw [loops.inCall.mpr busy] at receiving
            cases receiving
          refine ⟨.handleMessage infiniteTimeout, rfl, Machine.restrict_enabled ?_ ?_⟩
          · simp only [Looping, inside, List.isEmpty_nil, decide_true, Bool.and_self]
          · simp only [machine, step, receiving, Bool.false_eq_true, if_false, State.step,
              State.QueueAction, if_true, State.stepQueue, State.step_call idle]
            exact Option.some_ne_none _
  | true =>
      have outside := loops.outside receiving
      have gets := loops.sound.consumerGets ()
      have locks : p.server.queue.step (.lock (.consumer ())) ≠ none → Works identifier p := by
        intro enabled
        obtain ⟨⟨queue, events⟩, stepped⟩ := Option.ne_none_iff_exists'.mp enabled
        refine queue_works (show Queue.Action.Inner (.lock (.consumer ())) from trivial) rfl ?_
        simp only [State.step, State.QueueAction, if_true, State.stepQueue, stepped]
        exact Option.some_ne_none _
      generalize atPoint : p.server.queue.pc (.consumer ()) = pc at gets
      cases gets with
      | idle => exact absurd atPoint (loops.inCall.mp receiving)
      | asleep args => exact .inl ⟨outside, args, rfl⟩
      | locking args =>
          refine .inr (locks ?_)
          simp only [Queue.Threads.step, Queue.Threads.lockSection, atPoint]
          split
          · exact Option.some_ne_none _
          · exact Option.some_ne_none _
      | woken args | expired args =>
          refine .inr (locks ?_)
          simp only [Queue.Threads.step, Queue.Threads.lockSection, atPoint]
          exact Option.some_ne_none _
      | returning recvMsg =>
          refine .inr ⟨.dispatch, rfl, Machine.restrict_enabled rfl ?_⟩
          simp only [machine, step, recvMsg?, atPoint, State.step, State.QueueAction, if_true,
            State.stepQueue, Queue.Threads.step]
          exact Option.some_ne_none _

/-! ### Nothing left to do -/

omit [BEq ι] in
theorem fates_perm {record : List (LinxReceivedMessage ι × Fate β δ)}
    (queued : record.filterMap (placed? .queued) = [])
    (handling : record.filterMap (placed? .handling) = [])
    (offering : record.filterMap (placed? .offering) = []) :
    ((record.filterMap invoked?).map Prod.snd ++ (record.filterMap (placed? .unhandled) ++
      record.filterMap (placed? .dropped))).Perm (record.map Prod.fst) := by
  induction record with
  | nil => exact .refl _
  | cons entry record ih =>
      obtain ⟨msg, fate⟩ := entry
      have tails : ∀ place, ((msg, fate) :: record).filterMap (placed? place) = [] →
          placed? place (msg, fate) = none ∧ record.filterMap (placed? place) = [] := by
        intro place none
        rw [List.filterMap_eq_nil_iff, List.forall_mem_cons] at none
        exact ⟨none.1, List.filterMap_eq_nil_iff.mpr none.2⟩
      obtain ⟨notQueued, queued⟩ := tails _ queued
      obtain ⟨notHandling, handling⟩ := tails _ handling
      obtain ⟨notOffering, offering⟩ := tails _ offering
      have rest := ih queued handling offering
      cases fate with
      | invoked container => exact rest.cons msg
      | placed place =>
          cases place with
          | offering => cases notOffering
          | queued => cases notQueued
          | handling => cases notHandling
          | unhandled => exact List.perm_middle.trans (rest.cons msg)
          | dropped =>
              rw [← List.append_assoc] at rest
              change (_ ++ (_ ++ msg :: _)).Perm (msg :: _)
              rw [← List.append_assoc]
              exact List.perm_middle.trans (rest.cons msg)

theorem asleep_any {identifier : α → ι} {efd : LinxEventFd} {size : Int32}
    {actions : List (Action α β δ ι)} {p : Pipeline α β δ ι} {events : List (Event α β δ ι)}
    (running : ∀ action ∈ actions, action ≠ .server .stop)
    (ran : (machine identifier).run (create efd size) actions = some (p, events))
    {args : Queue.Get ι} (asleep : p.server.queue.pc (.consumer ()) = .asleep args)
    (msg : LinxReceivedMessage ι) : args.matches msg = true := by
  obtain ⟨queueActions, ranQueue⟩ := run_queue ran
  have logged := (Queue.Threads.run_open ranQueue (.consumer ())).2
  rw [asleep, (Queue.Pc.waiting_open args).1.1] at logged
  have invoked : Queue.Call.get args ∈
      Queue.invokedBy (.consumer ()) (State.queueEvents (serverEvents events)) := by
    rw [logged]
    exact List.mem_append_right _ List.mem_cons_self
  obtain ⟨event, present, same⟩ := List.mem_filterMap.mp invoked
  cases event with
  | invoked role call =>
      simp only [Queue.Event.invokedBy?, Option.ite_none_right_eq_some, Option.some.injEq] at same
      obtain ⟨rfl, rfl⟩ := same
      cases run_calls running ran present with
      | gets timeoutMs => exact matchesFilter_any msg
  | removed | committed | returned => cases same

structure Quiet (p : Pipeline α β δ ι) : Prop where
  receiving : p.server.worker = .receiving
  inbox : p.server.inbox = []
  queue : p.server.queue.shared.queue = []
  asleep : ∃ args, p.server.queue.pc (.consumer ()) = .asleep args
  callbacks : p.callbacks = []

theorem Loops.works_or_quiet {identifier : α → ι} {efd : LinxEventFd} {size : Int32}
    {actions : List (Action α β δ ι)} {p : Pipeline α β δ ι} {events : List (Event α β δ ι)}
    (loops : Loops p) (running : ∀ action ∈ actions, action ≠ .server .stop)
    (ran : (machine identifier).run (create efd size) actions = some (p, events))
    (started : p.server.worker ≠ .absent) : Works identifier p ∨ Quiet p := by
  rcases loops.worker_works identifier started with ⟨receiving, inbox⟩ | works
  · rcases loops.handler_works identifier with ⟨callbacks, args, asleep⟩ | works
    · refine .inr ⟨receiving, inbox, ?_, ⟨args, asleep⟩, callbacks⟩
      -- a message would be covered by a thread that is about to notify
      by_contra nonempty
      obtain ⟨msg, member⟩ := List.exists_mem_of_ne_nil _ nonempty
      obtain ⟨queueActions, ranQueue⟩ := run_queue ran
      have wakeup := Queue.Threads.wakeup_reachable ⟨queueActions, _, ranQueue⟩
      obtain ⟨role, result, kept, notifying⟩ :=
        wakeup.covered _ args asleep (.inr ⟨msg, member, asleep_any running ran asleep msg⟩)
      cases role with
      | worker =>
          rw [loops.sound.workerIdle (by rw [receiving]; simp)] at notifying
          cases notifying
      | control =>
          rw [loops.tended.idle] at notifying
          cases notifying
      | consumer name =>
          rw [asleep] at notifying
          cases notifying
    · exact .inl works
  · exact .inl works

theorem Quiet.accounts {identifier : α → ι} {efd : LinxEventFd} {size : Int32}
    {actions : List (Action α β δ ι)} {p : Pipeline α β δ ι} {events : List (Event α β δ ι)}
    (quiet : Quiet p) (running : ∀ action ∈ actions, action ≠ .server .stop)
    (ran : (machine identifier).run (create efd size) actions = some (p, events)) :
    ponged (serverEvents events) = pings identifier (arrivals (serverEvents events)) ∧
      ((invocations events).map Prod.snd ++
        (unhandledMessages events ++ droppedMessages events)).Perm
          (messages identifier (arrivals (serverEvents events))) := by
  obtain ⟨receiving, inbox, queue, ⟨args, asleep⟩, callbacks⟩ := quiet
  obtain ⟨serverActions, ranServer⟩ := run_server ran
  have flow := State.run_flow ranServer
  have everything := flow.arrived
  rw [inbox, List.append_nil] at everything
  rw [everything]
  constructor
  · have answered := flow.answered (run_opened running ran)
    have nothing : (Worker.receiving : Worker ι).owes = [] := rfl
    rw [receiving, nothing, List.filterMap_nil, List.append_nil] at answered
    exact answered
  · have accounted := run_accounted running ran
    have handling : p.handling = [] := by
      rw [Pipeline.handling, asleep, (Queue.Pc.waiting_open args).1.2]
      rfl
    have offering := (run_outside ran).1 (by rw [receiving]; simp)
    rw [← accounted.received, ← accounted.invoked, ← accounted.unhandled, ← accounted.dropped]
    exact fates_perm (accounted.queued.trans queue) (accounted.handling.trans handling)
      (accounted.offering.trans offering)

/-! ### Whole runs -/

theorem looping_unstopped {identifier : α → ι} {start p : Pipeline α β δ ι}
    {actions : List (Action α β δ ι)} {events : List (Event α β δ ι)}
    (ran : ((machine identifier).restrict Looping).run start actions = some (p, events)) :
    ∀ action ∈ actions, action ≠ .server .stop := by
  refine Machine.restrict_within ?_ ran
  rintro p action looping rfl
  cases looping

omit [BEq ι] in
theorem cost_create (reply : Nat) (efd : LinxEventFd) (size : Int32) :
    cost reply (create (α := α) (β := β) (δ := δ) (ι := ι) efd size) = 3 := by
  simp [cost, queueCost, create, State.create, Queue.Threads.initial, LinxQueue.create,
    Worker.owes, addCost, handlerCost]

theorem loops_fed (identifier : α → ι) (reply : Nat) :
    ((machine (β := β) (δ := δ) identifier).restrict Looping).Fed Loops (fun _ => True)
      Action.isWork (Action.brings reply) (cost reply) where
  kept _ _ _ _ loops _ stepped := by
    obtain ⟨looping, moved⟩ := Machine.restrict_step.mp stepped
    exact (loops.did reply looping (step_cases moved)).1
  lowered _ _ _ _ loops _ stepped := by
    obtain ⟨looping, moved⟩ := Machine.restrict_step.mp stepped
    exact Nat.le_trans (Nat.le_add_right _ _) (loops.did reply looping (step_cases moved)).2

omit [BEq ι] in
theorem sum_brings (reply : Nat) (actions : List (Action α β δ ι)) :
    (actions.map (Action.brings reply)).sum =
      actions.countP Action.isArrival * (reply + 9) + actions.countP Action.isSpurious := by
  change (actions.map fun action =>
    action.isArrival.toNat * (reply + 9) + action.isSpurious.toNat).sum = _
  rw [List.sum_map_add, Machine.sum_portions, Machine.sum_marked]

/-- A handler that calls `handleMessage()` in a loop on a server that nobody stops: the
worker and the handler need so many steps for each datagram, have a next one unless
they wait, and when they wait every ping is answered and every message was handed to
a callback, was looked up in vain, or met a full queue. -/
theorem handler_keeps_up {identifier : α → ι} {efd : LinxEventFd} {size : Int32}
    {actions : List (Action α β δ ι)} {p : Pipeline α β δ ι} {events : List (Event α β δ ι)}
    (ran : ((machine identifier).restrict Looping).run (create efd size) actions =
      some (p, events)) :
    actions.countP Action.isWork ≤
        actions.countP Action.isArrival * 9 + actions.countP Action.isSpurious + 3 ∧
      (p.server.worker = .absent ∨ Works identifier p ∨
        (p.server.inbox = [] ∧ p.server.queue.shared.queue = [] ∧ p.callbacks = []) ∧
          ponged (serverEvents events) = pings identifier (arrivals (serverEvents events)) ∧
          ((invocations events).map Prod.snd ++
            (unhandledMessages events ++ droppedMessages events)).Perm
              (messages identifier (arrivals (serverEvents events)))) := by
  obtain ⟨loops, bound⟩ :=
    (loops_fed identifier 0).run (loops_create efd size) (fun _ _ => trivial) ran
  have running := looping_unstopped ran
  have plain := Machine.restrict_run ran
  constructor
  · rw [sum_brings, cost_create] at bound
    omega
  · by_cases started : p.server.worker = .absent
    · exact .inl started
    · rcases loops.works_or_quiet running plain started with works | quiet
      · exact .inr (.inl works)
      · exact .inr (.inr ⟨⟨quiet.inbox, quiet.queue, quiet.callbacks⟩,
          quiet.accounts running plain⟩)

theorem handler_keeps_up_one_datagram :
    ∃ (p : Pipeline SockaddrIn Nat Unit PortInfo)
      (events : List (Event SockaddrIn Nat Unit PortInfo)),
      (Works UdpSocket.identifier p ∨
        (p.server.inbox = [] ∧ p.server.queue.shared.queue = [] ∧ p.callbacks = []) ∧
          ponged (serverEvents events) =
            pings UdpSocket.identifier (arrivals (serverEvents events)) ∧
          ((invocations events).map Prod.snd ++
            (unhandledMessages events ++ droppedMessages events)).Perm
              (messages UdpSocket.identifier (arrivals (serverEvents events)))) ∧
      (invocations events).length = 1 := by
  have ran : ((machine UdpSocket.identifier).restrict Looping).run
    (create (β := Nat) (δ := Unit) ⟨3, 0⟩ 2)
    [.registerCallback 7 1 (), .server .start, .handleMessage infiniteTimeout,
      .server (.queue (.lock (.consumer ()))),
      .server (.arrive ⟨[0, 0, 0, 7, 1], ⟨(127, 0, 0, 1), (0, 9)⟩⟩), .server .receive,
      .server (.queue (.lock .worker)), .server (.queue (.notify .worker)),
      .server (.queue (.ret .worker)), .server (.queue (.lock (.consumer ()))), .dispatch,
      .callbackReturns 0, .handleMessage infiniteTimeout,
      .server (.queue (.lock (.consumer ())))] = some (_, _) := rfl
  obtain ⟨-, absent | next⟩ := handler_keeps_up ran
  · cases absent
  · exact ⟨_, _, next, rfl⟩

end LinxIpc.Server.Pipeline
