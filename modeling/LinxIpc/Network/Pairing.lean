import Mathlib.Data.List.Perm.Subperm
import LinxIpc.Network.Clients
import LinxIpc.Server.Dispatch
import LinxIpc.Wire.RoundTrip

/-!
Requests and responses are paired.

Messages carry nothing that says which call they belong to.  What pairs them is
counting: a client has as many responses as the callbacks answered requests of
its own, and while its calls return messages it has one request at a time on the
way.
-/

namespace LinxIpc.Network

variable {κ α β δ ι : Type}

open Server (messages arrivals)
open Server.Pipeline (invocations serverEvents)

/-! ### Logs -/

def answered (events : List (Event κ α β δ ι)) : List (LinxReceivedMessage ι) :=
  events.filterMap fun
    | .responded msg => some msg
    | _ => none

def deliveries (events : List (Event κ α β δ ι)) : List (κ × RawMessage) :=
  events.filterMap fun
    | .delivered client request => some (client, request)
    | _ => none

def Point.current : Point → List RawMessage
  | .idle => []
  | .receiving request _ => [request]

section
variable [DecidableEq κ]

def requests (client : κ) (events : List (Event κ α β δ ι)) : List RawMessage :=
  events.filterMap fun
    | .requested other request => if other = client then some request else none
    | _ => none

def calls (client : κ) (events : List (Event κ α β δ ι)) : List Call :=
  events.filterMap fun
    | .finished other call => if other = client then some call else none
    | _ => none

def answeredTo (peers : Peers κ α ι) (client : κ) (events : List (Event κ α β δ ι)) :
    List (LinxReceivedMessage ι) :=
  (answered events).filter fun msg => decide (msg.sender.bind peers.route = some client)

end

theorem logs_append (front back : List (Event κ α β δ ι)) :
    answered (front ++ back) = answered front ++ answered back ∧
      deliveries (front ++ back) = deliveries front ++ deliveries back ∧
      pipelineEvents (front ++ back) = pipelineEvents front ++ pipelineEvents back :=
  ⟨List.filterMap_append .., List.filterMap_append .., List.filterMap_append ..⟩

theorem client_logs_append [DecidableEq κ] (peers : Peers κ α ι) (client : κ)
    (front back : List (Event κ α β δ ι)) :
    requests client (front ++ back) = requests client front ++ requests client back ∧
      calls client (front ++ back) = calls client front ++ calls client back ∧
      answeredTo peers client (front ++ back) =
        answeredTo peers client front ++ answeredTo peers client back := by
  refine ⟨List.filterMap_append .., List.filterMap_append .., ?_⟩
  rw [answeredTo, (logs_append front back).1, List.filter_append]
  rfl

theorem pipeline_logs (events : List (Server.Pipeline.Event α β δ ι)) :
    answered (events.map (Event.pipeline (κ := κ))) = [] ∧
      deliveries (events.map (Event.pipeline (κ := κ))) = [] := by
  rw [answered, deliveries, List.filterMap_map, List.filterMap_map]
  exact ⟨List.filterMap_eq_nil_iff.mpr (fun _ _ => rfl),
    List.filterMap_eq_nil_iff.mpr (fun _ _ => rfl)⟩

theorem pipeline_client_logs [DecidableEq κ] (peers : Peers κ α ι) (client : κ)
    (events : List (Server.Pipeline.Event α β δ ι)) :
    requests client (events.map (Event.pipeline (κ := κ))) = [] ∧
      calls client (events.map (Event.pipeline (κ := κ))) = [] ∧
      answeredTo peers client (events.map (Event.pipeline (κ := κ))) = [] := by
  refine ⟨?_, ?_, ?_⟩
  · rw [requests, List.filterMap_map, List.filterMap_eq_nil_iff]
    exact fun _ _ => rfl
  · rw [calls, List.filterMap_map, List.filterMap_eq_nil_iff]
    exact fun _ _ => rfl
  · rw [answeredTo, (pipeline_logs events).1]
    rfl

variable [DecidableEq κ] [BEq ι]

/-! ### The steps of the pipeline -/

omit [DecidableEq κ] in
theorem server_arrivals {identifier : α → ι} {s next : Server.State Unit α ι}
    {action : Server.Action Unit α ι} {events : List (Server.Event Unit α ι)}
    (did : Server.State.Did identifier s action next events)
    (other : ∀ datagram, action ≠ .arrive datagram) : arrivals events = [] := by
  cases did with
  | arrived datagram opened => exact absurd rfl (other datagram)
  | queue allowed stepped =>
      exact (Server.State.queue_logs allowed (Queue.Threads.step_cases stepped)).1
  | answered answering => split <;> rfl
  | left | pinged | offered | failed | alreadyStarted | started | stopping | notStarted | joined =>
      rfl

omit [DecidableEq κ] in
theorem pipeline_arrivals {identifier : α → ι} {p next : Server.Pipeline α β δ ι}
    {action : Server.Pipeline.Action α β δ ι} {events : List (Server.Pipeline.Event α β δ ι)}
    (did : Server.Pipeline.Did identifier p action next events)
    (allowed : PipelineAction action = true) : arrivals (serverEvents events) = [] := by
  cases did with
  | server permitted stepped =>
      rw [Server.Pipeline.serverEvents_map]
      refine server_arrivals (Server.State.step_cases stepped) ?_
      rintro datagram rfl
      cases allowed
  | called free stepped =>
      rw [Server.Pipeline.serverEvents_map]
      exact server_arrivals (Server.State.step_cases stepped) nofun
  | @dispatched recvMsg server events returning stepped =>
      rw [Server.Pipeline.serverEvents_dispatched]
      exact server_arrivals (Server.State.step_cases stepped) nofun
  | registered | left => rfl

omit [DecidableEq κ] [BEq ι] in
theorem invocations_append (front back : List (Server.Pipeline.Event α β δ ι)) :
    invocations (front ++ back) = invocations front ++ invocations back :=
  List.filterMap_append ..

omit [DecidableEq κ] [BEq ι] in
theorem invocations_server (events : List (Server.Event Unit α ι)) :
    invocations (events.map (Server.Pipeline.Event.server (β := β) (δ := δ))) = [] := by
  rw [invocations, List.filterMap_map, List.filterMap_eq_nil_iff]
  exact fun _ _ => rfl

omit [DecidableEq κ] in
theorem pipeline_arrives {identifier : α → ι} {p next : Server.Pipeline α β δ ι}
    {datagram : Datagram α} {events : List (Server.Pipeline.Event α β δ ι)}
    (stepped : p.step identifier (.server (.arrive datagram)) = some (next, events)) :
    arrivals (serverEvents events) = [datagram] ∧ invocations events = [] := by
  cases Server.Pipeline.step_cases stepped with
  | server allowed moved =>
      rw [Server.Pipeline.serverEvents_map, invocations_server]
      cases Server.State.step_cases moved with
      | arrived datagram opened => exact ⟨rfl, rfl⟩

omit [DecidableEq κ] in
theorem pipeline_owes {identifier : α → ι} {p next : Server.Pipeline α β δ ι}
    {action : Server.Pipeline.Action α β δ ι} {events : List (Server.Pipeline.Event α β δ ι)}
    (did : Server.Pipeline.Did identifier p action next events)
    {owed after : List (Option (LinxReceivedMessage ι))}
    (kept : owedAfter owed action events = some after) :
    after.filterMap id = (invocations events).map Prod.snd ++ owed.filterMap id := by
  unfold owedAfter at kept
  split at kept
  · cases kept
    cases did with
    | left free inside => rfl
  · cases kept
  · cases kept
    rw [List.filterMap_append, List.filterMap_map]
    congr 1
    exact congrFun (@List.filterMap_eq_map _ _ Prod.snd) _

/-! ### From the clients to the callbacks -/

/-- The channels to the server, its socket, and the callbacks. -/
structure Carried (peers : Peers κ α ι) (net : Network κ α β δ ι)
    (events : List (Event κ α β δ ι)) : Prop where
  sent : ∀ client, requests client events =
    ((deliveries events).filter (fun delivery => decide (delivery.1 = client))).map Prod.snd ++
      net.toServer client
  notPings : ∀ client, ∀ request ∈ requests client events, request.reqId ≠ ipcPingReq
  arrived : arrivals (serverEvents (pipelineEvents events)) =
    (deliveries events).map fun delivery => peers.datagram delivery.1 delivery.2
  invoked : (answered events ++ net.owed.filterMap id).Perm
    ((invocations (pipelineEvents events)).map Prod.snd)

omit [BEq ι] in
theorem Carried.moved {peers : Peers κ α ι} {net next : Network κ α β δ ι}
    {events emitted : List (Event κ α β δ ι)} (carried : Carried peers net events)
    (sent : ∀ client, net.toServer client ++ requests client emitted =
      ((deliveries emitted).filter (fun delivery => decide (delivery.1 = client))).map Prod.snd ++
        next.toServer client)
    (notPings : ∀ client, ∀ request ∈ requests client emitted, request.reqId ≠ ipcPingReq)
    (arrived : arrivals (serverEvents (pipelineEvents emitted)) =
      (deliveries emitted).map fun delivery => peers.datagram delivery.1 delivery.2)
    (invoked : (answered emitted ++ next.owed.filterMap id).Perm
      (net.owed.filterMap id ++ (invocations (pipelineEvents emitted)).map Prod.snd)) :
    Carried peers next (events ++ emitted) := by
  obtain ⟨answers, delivered, steps⟩ := logs_append events emitted
  have requested : ∀ client, requests client (events ++ emitted) =
      requests client events ++ requests client emitted := fun _ => List.filterMap_append ..
  constructor
  · intro client
    rw [requested, carried.sent client, List.append_assoc, sent client, delivered,
      List.filter_append, List.map_append, List.append_assoc]
  · intro client
    rw [requested, List.forall_mem_append]
    exact ⟨carried.notPings client, notPings client⟩
  · rw [steps, Server.Pipeline.serverEvents_append, (Server.logs_append _ _).1, carried.arrived,
      arrived, delivered, List.map_append]
  · rw [answers, steps, invocations_append, List.map_append, List.append_assoc]
    have balance := invoked.append_left (answered events)
    rw [← List.append_assoc (answered events) (net.owed.filterMap id)] at balance
    exact balance.trans (carried.invoked.append_right _)

omit [BEq ι] in
theorem Carried.quiet {peers : Peers κ α ι} {net next : Network κ α β δ ι}
    {events emitted : List (Event κ α β δ ι)} (carried : Carried peers net events)
    (sameServer : next.toServer = net.toServer) (sameOwed : next.owed = net.owed)
    (noRequests : ∀ client, requests client emitted = []) (noAnswers : answered emitted = [])
    (noDeliveries : deliveries emitted = []) (noSteps : pipelineEvents emitted = []) :
    Carried peers next (events ++ emitted) := by
  refine carried.moved ?_ ?_ ?_ ?_
  · intro client
    rw [noRequests, noDeliveries, sameServer]
    exact List.append_nil _
  · intro client
    rw [noRequests]
    exact List.forall_mem_nil _
  · rw [noSteps, noDeliveries]
    rfl
  · rw [noAnswers, noSteps, sameOwed]
    exact .of_eq (List.append_nil _).symm

omit [BEq ι] in
theorem Carried.requested {peers : Peers κ α ι} {net : Network κ α β δ ι}
    {events : List (Event κ α β δ ι)} (carried : Carried peers net events) {client : κ}
    {request : RawMessage} (other : request.reqId ≠ ipcPingReq) (point : κ → Point) :
    Carried peers
      { net with
        client := point
        toServer := Function.update net.toServer client (net.toServer client ++ [request]) }
      (events ++ [.requested client request]) := by
  have sent : ∀ some, requests some [(.requested client request : Event κ α β δ ι)] =
      if client = some then [request] else [] := by
    intro some
    by_cases same : client = some <;> simp [requests, same]
  refine carried.moved ?_ ?_ rfl (.of_eq (List.append_nil _).symm)
  · intro some
    rw [sent]
    by_cases same : client = some
    · subst same
      simp [deliveries]
    · simp [deliveries, same, Ne.symm same]
  · intro some
    rw [sent]
    by_cases same : client = some
    · simpa [same] using other
    · simp [same]

theorem Carried.delivered {peers : Peers κ α ι} {net : Network κ α β δ ι}
    {events : List (Event κ α β δ ι)} (carried : Carried peers net events) {client : κ}
    {request : RawMessage} {rest : List RawMessage} {pipeline : Server.Pipeline α β δ ι}
    {emitted : List (Server.Pipeline.Event α β δ ι)}
    (atHead : net.toServer client = request :: rest)
    (stepped : net.pipeline.step peers.identifier
      (.server (.arrive (peers.datagram client request))) = some (pipeline, emitted)) :
    Carried peers
      { net with
        pipeline := pipeline
        toServer := Function.update net.toServer client rest }
      (events ++ .delivered client request :: emitted.map .pipeline) := by
  obtain ⟨came, none⟩ := pipeline_arrives stepped
  obtain ⟨noAnswers, noDeliveries⟩ := pipeline_logs (κ := κ) emitted
  have one : deliveries (.delivered client request :: emitted.map (Event.pipeline (κ := κ))) =
      [(client, request)] := congrArg ((client, request) :: ·) noDeliveries
  have silent : answered (.delivered client request :: emitted.map (Event.pipeline (κ := κ))) =
      [] := noAnswers
  have seen : pipelineEvents (.delivered client request :: emitted.map (Event.pipeline (κ := κ))) =
      emitted := pipelineEvents_map emitted
  have requested : ∀ some, requests some
      (.delivered client request :: emitted.map (Event.pipeline (κ := κ))) = [] :=
    fun some => (pipeline_client_logs peers some emitted).1
  refine carried.moved ?_ ?_ ?_ ?_
  · intro some
    rw [requested, one, List.append_nil]
    by_cases same : client = some
    · subst same
      simp [atHead]
    · simp [same, Ne.symm same]
  · intro some
    rw [requested]
    exact List.forall_mem_nil _
  · rw [seen, one, came]
    rfl
  · rw [silent, seen, none]
    exact .of_eq (List.append_nil _).symm

theorem Carried.pipeline {peers : Peers κ α ι} {net : Network κ α β δ ι}
    {events : List (Event κ α β δ ι)} (carried : Carried peers net events)
    {action : Server.Pipeline.Action α β δ ι} {pipeline : Server.Pipeline α β δ ι}
    {emitted : List (Server.Pipeline.Event α β δ ι)}
    {owed : List (Option (LinxReceivedMessage ι))} (allowed : PipelineAction action = true)
    (stepped : net.pipeline.step peers.identifier action = some (pipeline, emitted))
    (kept : owedAfter net.owed action emitted = some owed) :
    Carried peers { net with pipeline := pipeline, owed := owed }
      (events ++ emitted.map .pipeline) := by
  obtain ⟨noAnswers, noDeliveries⟩ := pipeline_logs (κ := κ) emitted
  have did := Server.Pipeline.step_cases stepped
  have requested : ∀ client, requests client (emitted.map (Event.pipeline (κ := κ))) = [] :=
    fun client => (pipeline_client_logs peers client emitted).1
  refine carried.moved ?_ ?_ ?_ ?_
  · intro client
    rw [requested, noDeliveries]
    exact List.append_nil _
  · intro client
    rw [requested]
    exact List.forall_mem_nil _
  · rw [pipelineEvents_map, noDeliveries, pipeline_arrivals did allowed]
    rfl
  · rw [noAnswers, pipelineEvents_map, pipeline_owes did kept, List.nil_append]
    exact List.perm_append_comm

omit [BEq ι] in
theorem Carried.responded {peers : Peers κ α ι} {net : Network κ α β δ ι}
    {events : List (Event κ α β δ ι)} (carried : Carried peers net events)
    {msg : LinxReceivedMessage ι} {rest : List (Option (LinxReceivedMessage ι))}
    (atHead : net.owed = some msg :: rest) (toClient : κ → List RawMessage) :
    Carried peers { net with owed := none :: rest, toClient := toClient }
      (events ++ [.responded msg]) := by
  refine carried.moved ?_ (fun _ => List.forall_mem_nil _) rfl ?_
  · intro client
    exact List.append_nil _
  · rw [atHead]
    exact .of_eq (List.append_nil _).symm

theorem Carried.did {peers : Peers κ α ι} {respond : LinxReceivedMessage ι → RawMessage}
    {net next : Network κ α β δ ι} {action : Action κ α β δ ι}
    {events emitted : List (Event κ α β δ ι)} (carried : Carried peers net events)
    (did : Did peers respond net action next emitted) : Carried peers next (events ++ emitted) := by
  cases did with
  | requested idle other => exact carried.requested other _
  | delivered atHead stepped => exact carried.delivered atHead stepped
  | pipeline allowed stepped kept => exact carried.pipeline allowed stepped kept
  | responded atHead sender => exact carried.responded atHead _
  | notSent | answered | dropped | expired | gaveUp =>
      exact carried.quiet rfl rfl (fun _ => rfl) rfl rfl rfl

theorem run_carried {peers : Peers κ α ι} {respond : LinxReceivedMessage ι → RawMessage}
    {efd : LinxEventFd} {size : Int32} {actions : List (Action κ α β δ ι)}
    {net : Network κ α β δ ι} {events : List (Event κ α β δ ι)}
    (ran : (machine peers respond).run (create efd size) actions = some (net, events)) :
    Carried peers net events := by
  refine (machine peers respond).run_invariant
    (motive := fun _ events net => Carried peers net events)
    ⟨fun _ => rfl, fun _ => nofun, rfl, .refl _⟩ ?_ ran
  intro _ _ _ _ _ _ _ carried stepped
  exact carried.did (step_cases stepped)

/-! ### From the callbacks to the clients -/

omit [DecidableEq κ] [BEq ι] in
theorem container_datagram (peers : Peers κ α ι) (client : κ) (request : RawMessage) :
    Server.container? peers.identifier (peers.datagram client request) =
      some (peers.container client request) := by
  simp only [Server.container?, Peers.datagram, RawMessage.bytes, RawMessage.deserialize_htonl,
    Option.map_some]
  rfl

omit [DecidableEq κ] [BEq ι] in
theorem container_not_ping (peers : Peers κ α ι) (client : κ) {request : RawMessage}
    (other : request.reqId ≠ ipcPingReq) :
    Server.isPing (peers.container client request) = false :=
  beq_eq_false_iff_ne.mpr other

omit [DecidableEq κ] [BEq ι] in
theorem messages_datagrams {peers : Peers κ α ι} {requests : List (κ × RawMessage)}
    (notPings : ∀ request ∈ requests, request.2.reqId ≠ ipcPingReq) :
    messages peers.identifier
        (requests.map (fun request => peers.datagram request.1 request.2)) =
      requests.map (fun request => peers.container request.1 request.2) := by
  induction requests with
  | nil => rfl
  | cons request rest ih =>
      rw [List.forall_mem_cons] at notPings
      have noPing := container_not_ping peers request.1 notPings.1
      rw [List.map_cons, Server.messages_cons (container_datagram peers request.1 request.2),
        noPing, if_neg Bool.false_ne_true, ih notPings.2]
      rfl

omit [DecidableEq κ] [BEq ι] in
theorem pings_datagrams {peers : Peers κ α ι} {requests : List (κ × RawMessage)}
    (notPings : ∀ request ∈ requests, request.2.reqId ≠ ipcPingReq) :
    Server.pings peers.identifier
      (requests.map (fun request => peers.datagram request.1 request.2)) = [] := by
  induction requests with
  | nil => rfl
  | cons request rest ih =>
      rw [List.forall_mem_cons] at notPings
      have noPing := container_not_ping peers request.1 notPings.1
      rw [List.map_cons, ← List.singleton_append, Server.pings_append,
        Server.pings_single (container_datagram peers request.1 request.2), noPing,
        if_neg Bool.false_ne_true, ih notPings.2]
      rfl

omit [BEq ι] in
theorem Carried.deliveries_not_pings {peers : Peers κ α ι} {net : Network κ α β δ ι}
    {events : List (Event κ α β δ ι)} (carried : Carried peers net events) :
    ∀ delivery ∈ deliveries events, delivery.2.reqId ≠ ipcPingReq := by
  intro delivery member
  apply carried.notPings delivery.1
  rw [carried.sent delivery.1]
  refine List.mem_append_left _ (List.mem_map_of_mem (List.mem_filter.mpr ⟨member, ?_⟩))
  exact decide_eq_true rfl

omit [BEq ι] in
theorem routed_containers (peers : Peers κ α ι) (client : κ)
    (requests : List (κ × RawMessage)) :
    (requests.map (fun request => peers.container request.1 request.2)).filter
        (fun msg => decide (msg.sender.bind peers.route = some client)) =
      ((requests.filter (fun request => decide (request.1 = client))).map Prod.snd).map
        (peers.container client) := by
  induction requests with
  | nil => rfl
  | cons request rest ih =>
      have routed : (peers.container request.1 request.2).sender.bind peers.route =
          some request.1 := peers.routed request.1
      by_cases same : request.1 = client
      · rw [same] at routed
        simp only [List.map_cons, List.filter_cons, routed, same, decide_true, if_true, ih]
      · simp only [List.map_cons, List.filter_cons, routed, Option.some.injEq, same, decide_false,
          Bool.false_eq_true, if_false, ih]

/-- A request that reached the server is answered at most once, and no response
goes to a client that made no such request. -/
theorem run_answeredTo {peers : Peers κ α ι} {respond : LinxReceivedMessage ι → RawMessage}
    {efd : LinxEventFd} {size : Int32} {actions : List (Action κ α β δ ι)}
    {net : Network κ α β δ ι} {events : List (Event κ α β δ ι)}
    (running : ∀ action ∈ actions, action ≠ .pipeline (.server .stop))
    (ran : (machine peers respond).run (create efd size) actions = some (net, events))
    (client : κ) :
    (answeredTo peers client events).Subperm
      ((requests client events).map (peers.container client)) := by
  have carried := run_carried ran
  obtain ⟨pipelineActions, noStop, ranPipeline⟩ := run_pipeline running ran
  have invoked := Server.Pipeline.run_invocations noStop ranPipeline
  rw [carried.arrived, messages_datagrams carried.deliveries_not_pings] at invoked
  have responses : (answered events).Subperm
      ((deliveries events).map (fun delivery => peers.container delivery.1 delivery.2)) :=
    (List.sublist_append_left _ _).subperm.trans (carried.invoked.subperm.trans invoked.subperm)
  have own := responses.filter (fun msg => decide (msg.sender.bind peers.route = some client))
  rw [routed_containers] at own
  refine own.trans ?_
  rw [carried.sent client, List.map_append]
  exact (List.sublist_append_left _ _).subperm

structure Returned (peers : Peers κ α ι) (respond : LinxReceivedMessage ι → RawMessage)
    (client : κ) (net : Network κ α β δ ι) (events : List (Event κ α β δ ι)) : Prop where
  called : requests client events =
    ((calls client events).filter Call.sent).map Call.request ++ (net.client client).current
  failed : ∀ call ∈ calls client events, call.sent = false → call.result = none
  returned : (peers.server == peers.target client) = true →
    (answeredTo peers client events).map respond =
      (calls client events).filterMap Call.result ++ net.toClient client
  stranger : (peers.server == peers.target client) = false →
    ∀ call ∈ calls client events, call.result = none

theorem Returned.moved {peers : Peers κ α ι} {respond : LinxReceivedMessage ι → RawMessage}
    {client : κ} {net next : Network κ α β δ ι} {events emitted : List (Event κ α β δ ι)}
    (returned : Returned peers respond client net events)
    (called : (net.client client).current ++ requests client emitted =
      ((calls client emitted).filter Call.sent).map Call.request ++ (next.client client).current)
    (failed : ∀ call ∈ calls client emitted, call.sent = false → call.result = none)
    (read : (peers.server == peers.target client) = true →
      net.toClient client ++ (answeredTo peers client emitted).map respond =
        (calls client emitted).filterMap Call.result ++ next.toClient client)
    (stranger : (peers.server == peers.target client) = false →
      ∀ call ∈ calls client emitted, call.result = none) :
    Returned peers respond client next (events ++ emitted) := by
  obtain ⟨requested, returns, answers⟩ := client_logs_append peers client events emitted
  constructor
  · rw [requested, returned.called, List.append_assoc, called, returns, List.filter_append,
      List.map_append, List.append_assoc]
  · rw [returns, List.forall_mem_append]
    exact ⟨returned.failed, failed⟩
  · intro named
    rw [answers, List.map_append, returned.returned named, List.append_assoc, read named, returns,
      List.filterMap_append, List.append_assoc]
  · intro unnamed
    rw [returns, List.forall_mem_append]
    exact ⟨returned.stranger unnamed, stranger unnamed⟩

theorem Returned.quiet {peers : Peers κ α ι} {respond : LinxReceivedMessage ι → RawMessage}
    {client : κ} {net next : Network κ α β δ ι} {events emitted : List (Event κ α β δ ι)}
    (returned : Returned peers respond client net events)
    (samePoint : next.client client = net.client client)
    (sameChannel : next.toClient client = net.toClient client)
    (noRequests : requests client emitted = []) (noCalls : calls client emitted = [])
    (noAnswers : answeredTo peers client emitted = []) :
    Returned peers respond client next (events ++ emitted) := by
  refine returned.moved ?_ ?_ (fun _ => ?_) (fun _ => ?_)
  · rw [noRequests, noCalls, samePoint]
    exact List.append_nil _
  · rw [noCalls]
    exact List.forall_mem_nil _
  · rw [noAnswers, noCalls, sameChannel]
    exact List.append_nil _
  · rw [noCalls]
    exact List.forall_mem_nil _

theorem Returned.finished {peers : Peers κ α ι} {respond : LinxReceivedMessage ι → RawMessage}
    {client : κ} {net next : Network κ α β δ ι} {events : List (Event κ α β δ ι)}
    (returned : Returned peers respond client net events) {call : Call}
    (current : (net.client client).current =
      (if call.sent then [call.request] else []) ++ (next.client client).current)
    (failed : call.sent = false → call.result = none)
    (read : (peers.server == peers.target client) = true →
      net.toClient client = call.result.toList ++ next.toClient client)
    (stranger : (peers.server == peers.target client) = false → call.result = none) :
    Returned peers respond client next (events ++ [.finished client call]) := by
  have one : calls client [(.finished client call : Event κ α β δ ι)] = [call] := by simp [calls]
  have noRequests : requests client [(.finished client call : Event κ α β δ ι)] = [] := rfl
  have noAnswers : answeredTo peers client [(.finished client call : Event κ α β δ ι)] = [] := rfl
  refine returned.moved ?_ ?_ ?_ ?_
  · rw [noRequests, one, current]
    cases sent : call.sent <;> simp [sent]
  · rw [one, List.forall_mem_singleton]
    exact failed
  · intro named
    rw [noAnswers, one, read named]
    cases result : call.result <;> simp [result]
  · intro unnamed
    rw [one, List.forall_mem_singleton]
    exact stranger unnamed

theorem Returned.requested {peers : Peers κ α ι} {respond : LinxReceivedMessage ι → RawMessage}
    {client : κ} {net next : Network κ α β δ ι} {events : List (Event κ α β δ ι)}
    (returned : Returned peers respond client net events) {request : RawMessage}
    {deadline : Deadline} (idle : net.client client = .idle)
    (begun : next.client client = .receiving request deadline)
    (sameChannel : next.toClient client = net.toClient client) :
    Returned peers respond client next (events ++ [.requested client request]) := by
  have one : requests client [(.requested client request : Event κ α β δ ι)] = [request] := by
    simp [requests]
  refine returned.moved ?_ (List.forall_mem_nil _) (fun _ => ?_) (fun _ => List.forall_mem_nil _)
  · rw [one, idle, begun]
    rfl
  · rw [sameChannel]
    exact List.append_nil _

theorem Returned.responded {peers : Peers κ α ι} {respond : LinxReceivedMessage ι → RawMessage}
    {client : κ} {net next : Network κ α β δ ι} {events : List (Event κ α β δ ι)}
    (returned : Returned peers respond client net events) {msg : LinxReceivedMessage ι}
    (samePoint : next.client client = net.client client)
    (channel : next.toClient client = net.toClient client ++
      if msg.sender.bind peers.route = some client then [respond msg] else []) :
    Returned peers respond client next (events ++ [.responded msg]) := by
  have one : (answeredTo peers client [(.responded msg : Event κ α β δ ι)]).map respond =
      if msg.sender.bind peers.route = some client then [respond msg] else [] := by
    by_cases own : msg.sender.bind peers.route = some client
    · simp [answeredTo, answered, own]
    · simp [answeredTo, answered, own]
  refine returned.moved ?_ (List.forall_mem_nil _) (fun _ => ?_) (fun _ => List.forall_mem_nil _)
  · rw [samePoint]
    exact List.append_nil _
  · rw [one, channel]
    rfl

theorem Returned.did {peers : Peers κ α ι} {respond : LinxReceivedMessage ι → RawMessage}
    {net next : Network κ α β δ ι} {action : Action κ α β δ ι}
    {events emitted : List (Event κ α β δ ι)} {client : κ}
    (returned : Returned peers respond client net events)
    (did : Did peers respond net action next emitted) :
    Returned peers respond client next (events ++ emitted) := by
  cases did with
  | @requested other request now timeoutMs idle notPing =>
      by_cases same : other = client
      · subst same
        exact returned.requested idle (Function.update_self ..) rfl
      · exact returned.quiet (Function.update_of_ne (Ne.symm same) _ _) rfl
          (by simp [requests, same]) rfl rfl
  | @notSent other request now timeoutMs idle =>
      by_cases same : other = client
      · subst same
        exact returned.finished rfl (fun _ => rfl) (fun _ => rfl) (fun _ => rfl)
      · exact returned.quiet rfl rfl rfl (by simp [calls, same]) rfl
  | @answered other later request msg deadline rest receiving atHead named =>
      by_cases same : other = client
      · subst same
        refine returned.finished ?_ nofun ?_ ?_
        · rw [receiving]
          simp [Point.current]
        · intro _
          rw [atHead]
          simp
        · intro unnamed
          rw [named] at unnamed
          cases unnamed
      · exact returned.quiet (Function.update_of_ne (Ne.symm same) _ _)
          (Function.update_of_ne (Ne.symm same) _ _) rfl (by simp [calls, same]) rfl
  | @dropped other later msg rest atHead stranger =>
      by_cases same : other = client
      · subst same
        refine ⟨?_, ?_, ?_, ?_⟩
        · simpa using returned.called
        · simpa using returned.failed
        · intro named
          rw [stranger] at named
          cases named
        · simpa using returned.stranger
      · exact returned.quiet rfl (Function.update_of_ne (Ne.symm same) _ _) rfl rfl rfl
  | @expired other later request msg deadline rest receiving atHead stranger =>
      by_cases same : other = client
      · subst same
        refine returned.finished ?_ nofun ?_ (fun _ => rfl)
        · rw [receiving]
          simp [Point.current]
        · intro named
          rw [stranger] at named
          cases named
      · exact returned.quiet (Function.update_of_ne (Ne.symm same) _ _)
          (Function.update_of_ne (Ne.symm same) _ _) rfl (by simp [calls, same]) rfl
  | @gaveUp other request deadline receiving =>
      by_cases same : other = client
      · subst same
        refine returned.finished ?_ nofun (fun _ => rfl) (fun _ => rfl)
        rw [receiving]
        simp [Point.current]
      · exact returned.quiet (Function.update_of_ne (Ne.symm same) _ _) rfl rfl
          (by simp [calls, same]) rfl
  | @delivered other request rest pipeline emitted atHead stepped =>
      obtain ⟨noRequests, noCalls, noAnswers⟩ := pipeline_client_logs peers client emitted
      exact returned.quiet rfl rfl noRequests noCalls noAnswers
  | @pipeline action pipeline emitted owed allowed stepped kept =>
      obtain ⟨noRequests, noCalls, noAnswers⟩ := pipeline_client_logs peers client emitted
      exact returned.quiet rfl rfl noRequests noCalls noAnswers
  | @responded msg rest peer atHead sender =>
      refine returned.responded rfl ?_
      rw [sender, Option.bind_some]
      cases routed : peers.route peer with
      | none => simp
      | some reached =>
          by_cases same : reached = client
          · subst same
            simp
          · simp [same, Function.update_of_ne (Ne.symm same)]

theorem run_returned {peers : Peers κ α ι} {respond : LinxReceivedMessage ι → RawMessage}
    {efd : LinxEventFd} {size : Int32} {actions : List (Action κ α β δ ι)}
    {net : Network κ α β δ ι} {events : List (Event κ α β δ ι)}
    (ran : (machine peers respond).run (create efd size) actions = some (net, events))
    (client : κ) : Returned peers respond client net events := by
  refine (machine peers respond).run_invariant
    (motive := fun _ events net => Returned peers respond client net events)
    ⟨rfl, nofun, fun _ => rfl, fun _ => nofun⟩ ?_ ran
  intro _ _ _ _ _ _ _ returned stepped
  exact returned.did (step_cases stepped)

/-! ### Pairing -/

/-- As long as every earlier call has returned a message, a message that a call
returns is the response to its own request. -/
def Paired (expected : RawMessage → RawMessage) (calls : List Call) : Prop :=
  ∀ front call back, calls = front ++ call :: back →
    (∀ earlier ∈ front, earlier.result ≠ none) →
    ∀ response, call.result = some response → response = expected call.request

omit [DecidableEq κ] [BEq ι] in
theorem Paired.results {expected : RawMessage → RawMessage} {calls : List Call}
    (paired : Paired expected calls) (answered : ∀ call ∈ calls, call.result ≠ none) :
    calls.filterMap Call.result = calls.map (fun call => expected call.request) := by
  rw [← List.filterMap_eq_map]
  refine List.filterMap_congr ?_
  intro call member
  obtain ⟨front, back, split⟩ := List.append_of_mem member
  obtain ⟨response, result⟩ := Option.ne_none_iff_exists'.mp (answered call member)
  have earlier : ∀ earlier ∈ front, earlier.result ≠ none := by
    intro earlier inFront
    apply answered
    rw [split]
    exact List.mem_append_left _ inFront
  rw [result, paired front call back split earlier response result]
  rfl

theorem Paired.snoc {expected : RawMessage → RawMessage} {calls : List Call} {last : Call}
    (paired : Paired expected calls)
    (own : (∀ call ∈ calls, call.result ≠ none) →
      ∀ response, last.result = some response → response = expected last.request) :
    Paired expected (calls ++ [last]) := by
  intro front call back split answered response result
  rcases List.eq_nil_or_concat back with rfl | ⟨middle, final, rfl⟩
  · obtain ⟨rfl, same⟩ := List.append_inj' split rfl
    obtain rfl := (List.cons.inj same).1
    exact own answered response result
  · rw [List.concat_eq_append, ← List.cons_append, ← List.append_assoc] at split
    obtain ⟨rfl, -⟩ := List.append_inj' split rfl
    exact paired front call middle rfl answered response result

omit [BEq ι] in
theorem calls_finished (client other : κ) (call : Call) :
    calls client [(.finished other call : Event κ α β δ ι)] =
      if other = client then [call] else [] := by
  by_cases same : other = client <;> simp [calls, same]

theorem did_calls {peers : Peers κ α ι} {respond : LinxReceivedMessage ι → RawMessage}
    {net next : Network κ α β δ ι} {action : Action κ α β δ ι} {events : List (Event κ α β δ ι)}
    (did : Did peers respond net action next events) (client : κ) :
    calls client events = [] ∨ ∃ call, calls client events = [call] ∧
      ∀ response, call.result = some response →
        (peers.server == peers.target client) = true ∧
        (net.client client).current = [call.request] ∧
        ∃ rest, net.toClient client = response :: rest := by
  cases did with
  | @notSent other | @expired other | @gaveUp other =>
      rw [calls_finished]
      by_cases same : other = client
      · rw [if_pos same]
        exact .inr ⟨_, rfl, nofun⟩
      · exact .inl (if_neg same)
  | @answered other later request msg deadline rest receiving atHead named =>
      rw [calls_finished]
      by_cases same : other = client
      · subst same
        rw [if_pos rfl]
        refine .inr ⟨_, rfl, ?_⟩
        intro response result
        cases result
        exact ⟨named, by rw [receiving]; rfl, rest, atHead⟩
      · exact .inl (if_neg same)
  | @delivered other request rest pipeline emitted atHead stepped =>
      exact .inl (pipeline_client_logs peers client emitted).2.1
  | @pipeline action pipeline emitted owed allowed stepped kept =>
      exact .inl (pipeline_client_logs peers client emitted).2.1
  | requested | dropped | responded => exact .inl rfl

theorem head_expected {peers : Peers κ α ι} {respond : LinxReceivedMessage ι → RawMessage}
    {efd : LinxEventFd} {size : Int32} {actions : List (Action κ α β δ ι)}
    {net : Network κ α β δ ι} {events : List (Event κ α β δ ι)}
    (running : ∀ action ∈ actions, action ≠ .pipeline (.server .stop))
    (ran : (machine peers respond).run (create efd size) actions = some (net, events))
    {client : κ} (named : (peers.server == peers.target client) = true)
    (paired : Paired (fun request => respond (peers.container client request))
      (calls client events))
    (answeredAll : ∀ call ∈ calls client events, call.result ≠ none) {request response : RawMessage}
    {rest : List RawMessage} (current : (net.client client).current = [request])
    (atHead : net.toClient client = response :: rest) :
    response = respond (peers.container client request) := by
  obtain ⟨called, failed, returned, -⟩ := run_returned ran client
  obtain ⟨answers, reordered, sublist⟩ := run_answeredTo running ran client
  have responses : ((answeredTo peers client events).map respond).Subperm
      ((requests client events).map (fun request => respond (peers.container client request))) := by
    have mapped := sublist.map respond
    rw [List.map_map] at mapped
    exact ⟨_, reordered.map respond, mapped⟩
  have allSent : (calls client events).filter Call.sent = calls client events := by
    rw [List.filter_eq_self]
    intro call member
    cases sent : call.sent with
    | true => rfl
    | false => exact absurd (failed call member sent) (answeredAll call member)
  rw [returned named, atHead, paired.results answeredAll, called, allSent, current,
    List.map_append, List.map_map, List.map_singleton] at responses
  have last := (List.subperm_append_left _).mp responses
  exact List.mem_singleton.mp (last.subset List.mem_cons_self)

theorem run_paired {peers : Peers κ α ι} {respond : LinxReceivedMessage ι → RawMessage}
    {efd : LinxEventFd} {size : Int32} {actions : List (Action κ α β δ ι)}
    {net : Network κ α β δ ι} {events : List (Event κ α β δ ι)}
    (running : ∀ action ∈ actions, action ≠ .pipeline (.server .stop))
    (ran : (machine peers respond).run (create efd size) actions = some (net, events))
    (client : κ) :
    Paired (fun request => respond (peers.container client request)) (calls client events) := by
  revert running
  refine (machine peers respond).run_invariant
    (motive := fun actions events _ =>
      (∀ action ∈ actions, action ≠ .pipeline (.server .stop)) →
        Paired (fun request => respond (peers.container client request)) (calls client events))
    (fun _ front call back split => by simp [calls] at split) ?_ ran
  intro actions events net action next emitted ranSoFar held stepped running
  rw [List.forall_mem_append] at running
  have paired := held running.1
  rw [(client_logs_append peers client events emitted).2.1]
  rcases did_calls (step_cases stepped) client with silent | ⟨call, one, takes⟩
  · rw [silent, List.append_nil]
    exact paired
  · rw [one]
    refine paired.snoc ?_
    intro answeredAll response result
    obtain ⟨named, current, rest, atHead⟩ := takes response result
    exact head_expected running.1 ranSoFar named paired answeredAll current atHead

theorem run_ponged {peers : Peers κ α ι} {respond : LinxReceivedMessage ι → RawMessage}
    {efd : LinxEventFd} {size : Int32} {actions : List (Action κ α β δ ι)}
    {net : Network κ α β δ ι} {events : List (Event κ α β δ ι)}
    (running : ∀ action ∈ actions, action ≠ .pipeline (.server .stop))
    (ran : (machine peers respond).run (create efd size) actions = some (net, events)) :
    Server.ponged (serverEvents (pipelineEvents events)) = [] := by
  obtain ⟨pipelineActions, noStop, ranPipeline⟩ := run_pipeline running ran
  obtain ⟨serverActions, ranServer⟩ := Server.Pipeline.run_server ranPipeline
  have flow := Server.State.run_flow ranServer
  have ponged := flow.answered (Server.Pipeline.run_opened noStop ranPipeline)
  have carried := run_carried ran
  have none := @pings_datagrams κ α ι peers (deliveries events) carried.deliveries_not_pings
  rw [← carried.arrived, flow.arrived, Server.pings_append, List.append_eq_nil_iff] at none
  rw [none.1, List.append_eq_nil_iff] at ponged
  exact ponged.1

/-- One server that is not stopped, one handler and any number of clients.  As
long as every earlier call of a client has returned a message, a message that a
call returns is the response to its own request.  A request is answered at most
once, and what a client reads are the responses to requests of its own. -/
theorem responses_paired {peers : Peers κ α ι} {respond : LinxReceivedMessage ι → RawMessage}
    {efd : LinxEventFd} {size : Int32} {actions : List (Action κ α β δ ι)}
    {net : Network κ α β δ ι} {events : List (Event κ α β δ ι)}
    (running : ∀ action ∈ actions, action ≠ .pipeline (.server .stop))
    (ran : (machine peers respond).run (create efd size) actions = some (net, events))
    (client : κ) :
    (∀ front call back, calls client events = front ++ call :: back →
      (∀ earlier ∈ front, earlier.result ≠ none) →
      ∀ response, call.result = some response →
        response = respond (peers.container client call.request)) ∧
    (answeredTo peers client events).Subperm
      ((requests client events).map (peers.container client)) ∧
    ((peers.server == peers.target client) = true →
      (answeredTo peers client events).map respond =
        (calls client events).filterMap Call.result ++ net.toClient client) ∧
    requests client events =
      ((calls client events).filter Call.sent).map Call.request ++ (net.client client).current ∧
    Server.ponged (serverEvents (pipelineEvents events)) = [] := by
  obtain ⟨called, -, returned, -⟩ := run_returned ran client
  exact ⟨run_paired running ran client, run_answeredTo running ran client, returned, called,
    run_ponged running ran⟩

theorem responses_paired_two_clients :
    ∃ (peers : Peers (Fin 2) SockaddrIn PortInfo)
      (events : List (Event (Fin 2) SockaddrIn Nat Unit PortInfo)),
      (calls 0 events).map Call.result = [some ⟨107, [1]⟩, some ⟨107, [3]⟩] ∧
      (calls 1 events).map Call.result = [some ⟨107, [2]⟩] ∧
      (answeredTo peers 0 events).Subperm ((requests 0 events).map (peers.container 0)) ∧
      ∀ front call back, calls 0 events = front ++ call :: back →
        (∀ earlier ∈ front, earlier.result ≠ none) → ∀ response, call.result = some response →
        response = { reqId := call.request.reqId + 100, payload := call.request.payload } := by
  let address : Fin 2 → SockaddrIn := fun client => ⟨(127, 0, 0, 1), (0, UInt8.ofNat client)⟩
  let peers : Peers (Fin 2) SockaddrIn PortInfo :=
    { address := address, identifier := UdpSocket.identifier
      route := fun peer => if peer.port = 0 then some 0 else some 1
      routed := by decide, server := PortInfo.create [] 5, target := fun _ => PortInfo.create [] 5 }
  have paired := @responses_paired (Fin 2) SockaddrIn Nat Unit PortInfo _ _ peers
    (fun msg => ⟨msg.message.reqId + 100, msg.message.payload⟩) ⟨3, 0⟩ 2
    [.pipeline (.registerCallback 7 1 ()), .pipeline (.server .start),
      .sendReceive 0 ⟨7, [1]⟩ true 0 50, .sendReceive 1 ⟨7, [2]⟩ true 0 50, .deliver 1, .deliver 0,
      .pipeline (.server .receive), .pipeline (.server (.queue (.lock .worker))),
      .pipeline (.server (.queue (.notify .worker))), .pipeline (.server (.queue (.ret .worker))),
      .pipeline (.server .receive), .pipeline (.server (.queue (.lock .worker))),
      .pipeline (.server (.queue (.notify .worker))), .pipeline (.server (.queue (.ret .worker))),
      .pipeline (.handleMessage 10), .pipeline (.server (.queue (.lock (.consumer ())))),
      .pipeline .dispatch, .respond, .pipeline (.callbackReturns 0),
      .pipeline (.handleMessage 10), .pipeline (.server (.queue (.lock (.consumer ())))),
      .pipeline .dispatch, .respond, .take 0 1, .sendReceive 0 ⟨7, [3]⟩ true 60 50,
      .pipeline (.callbackReturns 0), .deliver 0, .pipeline (.server .receive),
      .pipeline (.server (.queue (.lock .worker))), .pipeline (.server (.queue (.notify .worker))),
      .pipeline (.handleMessage 10), .pipeline (.server (.queue (.lock (.consumer ())))),
      .pipeline .dispatch, .respond, .take 1 1, .take 0 61]
    _ _ (by simp) rfl 0
  refine ⟨peers, _, ?_, ?_, paired.2.1, paired.1⟩
  · decide +kernel
  · decide +kernel

end LinxIpc.Network
