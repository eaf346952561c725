import LinxIpc.Queue.History
import LinxIpc.Server.Datagrams
import LinxIpc.Server.SimpleServer

/-!
The worker server against the simple server, under one filter.

One stores every message and lets the consumer search the queue; the other
filters while it reads the socket.  As long as every `add` is accepted and
nobody calls `stop`, the consumer of the first gets what the caller of the
second gets.
-/

namespace LinxIpc.Server

variable {κ α ι : Type}

open Queue (Commit committedBy commits invokedBy returnedBy)

def ponged (events : List (Event κ α ι)) : List ι :=
  events.filterMap fun
    | .sent peer => some peer
    | _ => none

namespace State

/-- Nobody calls `stop`, and `receive` is only called by one consumer, always
with the same arguments. -/
def Plays (consumer : κ) (args : Queue.Get ι) : Action κ α ι → Prop
  | .stop => False
  | .queue (.call (.consumer name) call) => name = consumer ∧ call = .get args
  | _ => True

def addRejected : Event κ α ι → Bool
  | .queue (.committed _ (.add _) (.add result _)) => result != some 0
  | _ => false

def Roomy (events : List (Event κ α ι)) : Prop := ∀ event ∈ events, addRejected event = false

inductive Agreed (consumer : κ) (args : Queue.Get ι) : Queue.Event (Role κ) ι → Prop where
  | adds (msg : LinxReceivedMessage ι) : Agreed consumer args (.invoked .worker (.add msg))
  | gets : Agreed consumer args (.invoked (.consumer consumer) (.get args))
  | removed (role : Role κ) (msg : LinxReceivedMessage ι) :
      Agreed consumer args (.removed role msg)
  | added (msg : LinxReceivedMessage ι) (result : Option Int)
      (kept : Option (LinxReceivedMessage ι)) :
      Agreed consumer args (.committed .worker (.add msg) (.add result kept))
  | got (msg : LinxReceivedMessage ι) :
      Agreed consumer args (.committed (.consumer consumer) (.get args) (.get (some msg)))
  | returned (role : Role κ) (result : Queue.Return ι) :
      Agreed consumer args (.returned role result)

variable [DecidableEq κ] [BEq ι]

theorem Did.opened_kept {identifier : α → ι} {s next : State κ α ι} {action : Action κ α ι}
    {events : List (Event κ α ι)} (did : Did identifier s action next events)
    (running : action ≠ .stop) : next.opened = s.opened := by
  cases did with
  | stopping | notStarted => exact absurd rfl running
  | arrived | left | pinged | offered | failed | answered | queue | alreadyStarted | started
  | joined => rfl

theorem run_opened {identifier : α → ι} {efd : LinxEventFd} {size : Int32} {consumer : κ}
    {args : Queue.Get ι} {actions : List (Action κ α ι)} {s : State κ α ι}
    {events : List (Event κ α ι)} (plays : ∀ action ∈ actions, Plays consumer args action)
    (ran : (machine identifier).run (create efd size) actions = some (s, events)) :
    s.opened = true := by
  refine (machine identifier).run_invariant_within
    (motive := fun _ _ s => s.opened = true) rfl ?_ plays ran
  intro _ _ s action next emitted _ opened allowed stepped
  rw [(step_cases stepped).opened_kept (by rintro rfl; exact allowed)]
  exact opened

theorem uncommitted_agreed {identifier : α → ι} {efd : LinxEventFd} {size : Int32} {consumer : κ}
    {args : Queue.Get ι} {actions : List (Action κ α ι)} {s : State κ α ι}
    {events : List (Event κ α ι)}
    (ran : (machine identifier).run (create efd size) actions = some (s, events))
    (agreed : ∀ event ∈ queueEvents events, Agreed consumer args event)
    {role : Role κ} {call : Queue.Call ι} (begun : call ∈ (s.queue.pc role).uncommitted) :
    Agreed consumer args (.invoked role call) := by
  obtain ⟨queueActions, ranQueue⟩ := run_queue ran
  have calls := (Queue.Threads.run_logged ranQueue role).calls
  have invoked : call ∈ invokedBy role (queueEvents events) := by
    have started : ((create efd size : State κ α ι).queue.pc role).uncommitted = [] := rfl
    rw [started, List.nil_append] at calls
    rw [calls]
    exact List.mem_append_right _ begun
  obtain ⟨event, member, same⟩ := List.mem_filterMap.mp invoked
  cases event with
  | invoked other began =>
      simp only [Queue.Event.invokedBy?, Option.ite_none_right_eq_some, Option.some.injEq] at same
      obtain ⟨rfl, rfl⟩ := same
      exact agreed _ member
  | removed | committed | returned => cases same

theorem agreed_did {identifier : α → ι} {efd : LinxEventFd} {size : Int32} {consumer : κ}
    {args : Queue.Get ι} (infinite : args.timeoutMs = infiniteTimeout)
    {actions : List (Action κ α ι)} {s : State κ α ι} {events : List (Event κ α ι)}
    (ran : (machine identifier).run (create efd size) actions = some (s, events))
    (opened : s.opened = true)
    (agreed : ∀ event ∈ queueEvents events, Agreed consumer args event)
    {action : Queue.Action (Role κ) ι} {queue : Queue.Threads (Role κ) ι}
    {emitted : List (Queue.Event (Role κ) ι)} (allowed : QueueAction action = true)
    (plays : Plays (α := α) consumer args (.queue action))
    (did : Queue.Threads.Did s.queue action queue emitted) :
    ∀ event ∈ emitted, Agreed consumer args event := by
  have begun := @uncommitted_agreed _ _ _ _ _ _ _ _ _ _ _ _ _ ran agreed
  cases did with
  | slept | notified | woke | timedOut => exact List.forall_mem_nil _
  | @invoked role call ready =>
      rw [List.forall_mem_singleton]
      cases role with
      | worker | control => cases allowed
      | consumer name =>
          obtain ⟨rfl, rfl⟩ := plays
          exact .gets
  | @returned role result ready =>
      rw [List.forall_mem_singleton]
      exact .returned role result
  | @added role msg result kept shared ready computed =>
      rw [List.forall_mem_singleton]
      have invoked := @begun role (.add msg) (by rw [ready]; exact List.mem_singleton_self _)
      cases invoked
      exact .added msg result kept
  | @cleared role ready =>
      have invoked := @begun role .clear (by rw [ready]; exact List.mem_singleton_self _)
      cases invoked
  | @stopped role ready =>
      have invoked := @begun role .stop (by rw [ready]; exact List.mem_singleton_self _)
      cases invoked
  | @got role others msg shared ready computed may =>
      have invoked := @begun role (.get others)
        (by rcases ready with ready | ready | ready <;> rw [ready] <;>
          exact List.mem_singleton_self _)
      cases invoked
      obtain ⟨queueActions, ranQueue⟩ := run_queue ran
      have reached : Queue.Threads.machine.Reachable (.initial efd size) s.queue :=
        ⟨queueActions, _, ranQueue⟩
      have found : msg.isSome = true := by
        rcases may with found | immediate | expired | stopped
        · exact found
        · rw [infinite] at immediate
          cases immediate
        · exact absurd infinite (Queue.Threads.reachable_expired reached expired)
        · rw [(sound_reachable ⟨actions, events, ran⟩).closed stopped] at opened
          cases opened
      obtain ⟨value, rfl⟩ := Option.isSome_iff_exists.mp found
      intro event member
      rcases List.mem_append.mp member with removal | committed
      · obtain ⟨_, -, rfl⟩ := List.mem_map.mp removal
        exact .removed _ _
      · obtain rfl := List.mem_singleton.mp committed
        exact .got value

theorem run_agreed {identifier : α → ι} {efd : LinxEventFd} {size : Int32} {consumer : κ}
    {args : Queue.Get ι} (infinite : args.timeoutMs = infiniteTimeout)
    {actions : List (Action κ α ι)} {s : State κ α ι} {events : List (Event κ α ι)}
    (plays : ∀ action ∈ actions, Plays consumer args action)
    (ran : (machine identifier).run (create efd size) actions = some (s, events)) :
    ∀ event ∈ queueEvents events, Agreed consumer args event := by
  suffices both : s.opened = true ∧ ∀ event ∈ queueEvents events, Agreed consumer args event from
    both.2
  refine (machine identifier).run_invariant_within
    (motive := fun _ events s =>
      s.opened = true ∧ ∀ event ∈ queueEvents events, Agreed consumer args event)
    ⟨rfl, List.forall_mem_nil _⟩ ?_ plays ran
  intro actions events s action next emitted ranSoFar held allowed stepped
  obtain ⟨opened, agreed⟩ := held
  have did := step_cases stepped
  refine ⟨?_, ?_⟩
  · rw [did.opened_kept (by rintro rfl; exact allowed)]
    exact opened
  rw [queueEvents, List.filterMap_append, List.forall_mem_append]
  refine ⟨agreed, ?_⟩
  cases did with
  | @queue action queue events mayStep moved =>
      have split := queueEvents_map (α := α) events
      rw [queueEvents] at split
      rw [split]
      exact agreed_did infinite ranSoFar opened agreed mayStep allowed
        (Queue.Threads.step_cases moved)
  | @offered datagram rest msg => exact List.forall_mem_singleton.mpr (.adds msg)
  | stopping | notStarted => exact allowed.elim
  | answered answering => cases s.opened <;> exact List.forall_mem_nil _
  | arrived | left | pinged | failed | alreadyStarted | started | joined =>
      exact List.forall_mem_nil _

/-! ### From the socket to the consumer -/

omit [BEq ι] in
theorem handedOn_offered (events : List (Event κ α ι)) :
    (handedOn events).filterMap Output.offered? =
      (invokedBy .worker (queueEvents events)).filterMap Queue.Call.added? := by
  rw [handedOn, List.filterMap_filterMap, queueEvents, invokedBy, List.filterMap_filterMap,
    List.filterMap_filterMap]
  refine List.filterMap_congr ?_
  intro event _
  cases event with
  | queue event =>
      cases event with
      | invoked role call =>
          cases role with
          | worker => cases call <;> simp [Output.offered?, Queue.Call.added?]
          | control | consumer => simp
      | removed | committed | returned => rfl
  | arrived | consumed | terminated | sent | started | stopping | stopped => rfl

omit [DecidableEq κ] [BEq ι] in
theorem handedOn_answered (events : List (Event κ α ι)) :
    (handedOn events).filterMap Output.answered? = ponged events := by
  rw [handedOn, List.filterMap_filterMap, ponged]
  refine List.filterMap_congr ?_
  intro event _
  cases event with
  | queue event =>
      cases event with
      | invoked role call =>
          cases role with
          | worker => cases call <;> rfl
          | control | consumer => rfl
      | removed | committed | returned => rfl
  | arrived | consumed | terminated | sent | started | stopping | stopped => rfl

omit [BEq ι] in
theorem Flow.offered {identifier : α → ι} {s : State κ α ι} {events : List (Event κ α ι)}
    (flow : Flow identifier s events) (opened : s.opened = true) :
    (invokedBy .worker (queueEvents events)).filterMap Queue.Call.added? =
      messages identifier (consumed events) := by
  have handed := congrArg (List.filterMap Output.offered?) (flow.handed opened)
  have owesNone : s.worker.owes.filterMap Output.offered? = [] := by
    cases s.worker <;> rfl
  rw [List.filterMap_append, owesNone, List.append_nil, handedOn_offered,
    (outputs_split identifier _).1] at handed
  exact handed

omit [DecidableEq κ] [BEq ι] in
theorem Flow.answered {identifier : α → ι} {s : State κ α ι} {events : List (Event κ α ι)}
    (flow : Flow identifier s events) (opened : s.opened = true) :
    ponged events ++ s.worker.owes.filterMap Output.answered? =
      pings identifier (consumed events) := by
  have handed := congrArg (List.filterMap Output.answered?) (flow.handed opened)
  rw [List.filterMap_append, handedOn_answered, (outputs_split identifier _).2] at handed
  exact handed

omit [BEq ι] in
theorem accepted_agreed {consumer : κ} {args : Queue.Get ι} {events : List (Event κ α ι)}
    (agreed : ∀ event ∈ queueEvents events, Agreed consumer args event) (roomy : Roomy events) :
    (commits (queueEvents events)).filterMap Commit.accepted? =
      ((committedBy .worker (queueEvents events)).map Prod.fst).filterMap Queue.Call.added? := by
  rw [commits, committedBy, List.map_filterMap, List.filterMap_filterMap, List.filterMap_filterMap]
  refine List.filterMap_congr ?_
  intro event member
  have rejectsNone : ∀ role msg result kept,
      event = .committed role (.add msg) (.add result kept) → result = some 0 := by
    rintro role msg result kept rfl
    obtain ⟨outer, present, same⟩ := List.mem_filterMap.mp member
    cases outer <;> cases same
    simpa [addRejected] using roomy _ present
  cases agreed event member with
  | adds | gets | removed | returned => rfl
  | added msg result kept =>
      obtain rfl := rejectsNone _ _ _ _ rfl
      rfl
  | got msg => rfl

omit [BEq ι] in
theorem delivered_agreed {consumer : κ} {args : Queue.Get ι}
    {events : List (Queue.Event (Role κ) ι)}
    (agreed : ∀ event ∈ events, Agreed consumer args event) :
    (committedBy (.consumer consumer) events).map Prod.snd =
      (((commits events).filterMap Commit.delivered?).map Prod.snd).map
        (fun msg => Queue.Return.get (some msg)) := by
  rw [commits, committedBy, List.map_filterMap, List.filterMap_filterMap, List.map_map,
    List.map_filterMap]
  refine List.filterMap_congr ?_
  intro event member
  cases agreed event member with
  | adds | gets | removed | returned => rfl
  | added msg result kept => rfl
  | got msg => simp [Queue.Event.commit?, Commit.delivered?]

/-- What the queue handed over and what it still holds are, in order, the
accepted messages that the one filter matches. -/
theorem handed_agreed {identifier : α → ι} {efd : LinxEventFd} {size : Int32} {consumer : κ}
    {args : Queue.Get ι} {actions : List (Action κ α ι)} {s : State κ α ι}
    {events : List (Event κ α ι)}
    (ran : (machine identifier).run (create efd size) actions = some (s, events))
    (agreed : ∀ event ∈ queueEvents events, Agreed consumer args event) :
    ((commits (queueEvents events)).filterMap Commit.delivered?).map Prod.snd ++
        s.queue.shared.queue.filter args.matches =
      ((commits (queueEvents events)).filterMap Commit.accepted?).filter args.matches := by
  obtain ⟨queueActions, ranQueue⟩ := run_queue ran
  apply Queue.Threads.run_one_filter ranQueue
  intro commit committed
  obtain ⟨event, present, same⟩ := List.mem_filterMap.mp committed
  cases agreed event present with
  | adds | gets | removed | returned => cases same
  | added msg result kept =>
      cases same
      exact ⟨nofun, nofun⟩
  | got msg =>
      cases same
      refine ⟨nofun, ?_⟩
      intro reader same
      obtain rfl := SelectiveFifo.Op.take.inj same
      rfl

theorem returned_prefix {identifier : α → ι} {efd : LinxEventFd} {size : Int32} {consumer : κ}
    {args : Queue.Get ι} {actions : List (Action κ α ι)} {s : State κ α ι}
    {events : List (Event κ α ι)}
    (ran : (machine identifier).run (create efd size) actions = some (s, events))
    (opened : s.opened = true)
    (agreed : ∀ event ∈ queueEvents events, Agreed consumer args event) (roomy : Roomy events) :
    returnedBy (.consumer consumer) (queueEvents events) <+:
      ((messages identifier (arrivals events)).filter args.matches).map
        (fun msg => Queue.Return.get (some msg)) := by
  obtain ⟨queueActions, ranQueue⟩ := run_queue ran
  have flow := run_flow ran
  have logged := Queue.Threads.run_logged ranQueue
  -- returned, committed, accepted, offered, consumed, arrived: each a prefix of the next
  have returned : returnedBy (.consumer consumer) (queueEvents events) <+:
      (committedBy (.consumer consumer) (queueEvents events)).map Prod.snd :=
    ⟨_, (logged (.consumer consumer)).returns.symm⟩
  have added : (committedBy .worker (queueEvents events)).map Prod.fst <+:
      invokedBy .worker (queueEvents events) := ⟨_, (logged .worker).calls.symm⟩
  have accepted : (commits (queueEvents events)).filterMap Commit.accepted? <+:
      messages identifier (arrivals events) := by
    rw [accepted_agreed agreed roomy]
    refine (added.filterMap _).trans ?_
    rw [flow.offered opened, flow.arrived, messages_append]
    exact List.prefix_append _ _
  have delivered : ((commits (queueEvents events)).filterMap Commit.delivered?).map Prod.snd <+:
      ((commits (queueEvents events)).filterMap Commit.accepted?).filter args.matches :=
    ⟨_, handed_agreed ran agreed⟩
  refine returned.trans ?_
  rw [delivered_agreed agreed]
  exact (delivered.trans (accepted.filter _)).map _

omit [BEq ι] [DecidableEq κ] in
theorem messages_not_ping {identifier : α → ι} {datagrams : List (Datagram α)}
    {msg : LinxReceivedMessage ι} (member : msg ∈ messages identifier datagrams) :
    msg.message.reqId ≠ ipcPingReq := by
  have kept := (List.mem_filter.mp member).2
  simpa [isPing] using kept

/-- The two servers on the same well-formed datagrams, for one filter and for the
calls of the consumer that have returned.  Both give the first messages that pass
the filter, none of them a ping, and each answers the pings it has consumed, in
order. -/
theorem servers_agree {identifier : α → ι} {efd : LinxEventFd} {size : Int32} {consumer : κ}
    {args : Queue.Get ι} (infinite : args.timeoutMs = infiniteTimeout)
    {actions : List (Action κ α ι)} {s : State κ α ι} {events : List (Event κ α ι)}
    (plays : ∀ action ∈ actions, Plays consumer args action)
    (ran : (machine identifier).run (create efd size) actions = some (s, events))
    (roomy : Roomy events) (wellFormed : ∀ datagram ∈ arrivals events, WellFormed datagram)
    {passes : List (Pass ι)} (reads : Reads identifier passes (arrivals events))
    {clocks : List Int}
    (sameCalls : clocks.length =
      (returnedBy (.consumer consumer) (queueEvents events)).length) :
    ∃ first : List (LinxReceivedMessage ι),
      first = ((messages identifier (arrivals events)).filter args.matches).take clocks.length ∧
      returnedBy (.consumer consumer) (queueEvents events) =
        first.map (fun msg => Queue.Return.get (some msg)) ∧
      (∃ front back unread, arrivals events = front ++ back ∧ Reads identifier unread back ∧
        GenericSimpleServer.receives infiniteTimeout args.sigsel args.sender clocks passes =
          some (first.map some, pings identifier front, unread)) ∧
      (∀ msg ∈ first, msg.message.reqId ≠ ipcPingReq) ∧
      consumed events <+: arrivals events ∧
      ponged events ++ s.worker.owes.filterMap Output.answered? =
        pings identifier (consumed events) := by
  have opened := run_opened plays ran
  have agreed := run_agreed infinite plays ran
  have flow := run_flow ran
  have returned := returned_prefix ran opened agreed roomy
  have enough : clocks.length ≤
      ((messages identifier (arrivals events)).filter args.matches).length := by
    rw [sameCalls]
    simpa only [List.length_map] using returned.length_le
  refine ⟨_, rfl, ?_, ?_, ?_, ⟨s.inbox, flow.arrived.symm⟩, flow.answered opened⟩
  · rw [List.map_take, sameCalls]
    exact List.prefix_iff_eq_take.mp returned
  · exact GenericSimpleServer.receives_infinite clocks wellFormed enough reads
  · intro msg member
    exact messages_not_ping (List.mem_filter.mp (List.mem_of_mem_take member)).1

theorem servers_agree_consumer_waits :
    ∃ (events : List (Event Unit SockaddrIn PortInfo)) (first : List (LinxReceivedMessage PortInfo)),
      (returnedBy (.consumer ()) (queueEvents events)).length = 1 ∧ (ponged events).length = 1 ∧
      returnedBy (.consumer ()) (queueEvents events) =
        first.map (fun msg => Queue.Return.get (some msg)) := by
  have agree := @servers_agree Unit SockaddrIn PortInfo _ _ UdpSocket.identifier ⟨3, 0⟩ 4 ()
    ⟨infiniteTimeout, [7], none⟩ rfl
    [.start, .arrive ⟨[0, 0, 0, 1], ⟨(127, 0, 0, 1), (0, 9)⟩⟩,
      .arrive ⟨[0, 0, 0, 8], ⟨(127, 0, 0, 1), (0, 9)⟩⟩,
      .arrive ⟨[0, 0, 0, 7], ⟨(127, 0, 0, 2), (0, 9)⟩⟩, .receive, .answer,
      .receive, .queue (.lock .worker), .queue (.notify .worker), .queue (.ret .worker),
      .queue (.call (.consumer ()) (.get ⟨infiniteTimeout, [7], none⟩)),
      .queue (.lock (.consumer ())), .receive, .queue (.lock .worker), .queue (.notify .worker),
      .queue (.lock (.consumer ())), .queue (.ret (.consumer ()))]
    _ _ (by simp [Plays]) rfl (by unfold Roomy; decide) (by decide)
    [⟨0, received UdpSocket.identifier ⟨[0, 0, 0, 1], ⟨(127, 0, 0, 1), (0, 9)⟩⟩, 0⟩,
      ⟨0, received UdpSocket.identifier ⟨[0, 0, 0, 8], ⟨(127, 0, 0, 1), (0, 9)⟩⟩, 0⟩,
      ⟨0, received UdpSocket.identifier ⟨[0, 0, 0, 7], ⟨(127, 0, 0, 2), (0, 9)⟩⟩, 0⟩]
    (by exact rfl) [0] (by exact rfl)
  obtain ⟨first, -, returned, -⟩ := agree
  exact ⟨_, first, rfl, rfl, returned⟩

end State

end LinxIpc.Server
