import LinxIpc.Client.GenericClient
import LinxIpc.Server.Handler
import LinxIpc.Wire.Message

/-!
One server with a handler and any number of clients that call `sendReceive`.

Between a client and the server is a first-in first-out channel in each
direction, which loses nothing and delivers when it likes.  A callback calls
`sendResponse` once before it returns, with a response that depends on the
message alone.
-/

namespace LinxIpc

variable {κ α β δ ι : Type}

/-- The clients and their addresses: a message sent to the identifier of a
client's address reaches that client. -/
structure Peers (κ α ι : Type) where
  address : κ → α
  identifier : α → ι
  route : ι → Option κ
  routed : ∀ client, route (identifier (address client)) = some client
  /-- What the clients' sockets report as the sender of a message. -/
  server : ι
  /-- The identifier of the server that each client was created with. -/
  target : κ → ι

def RawMessage.bytes (msg : RawMessage) : List UInt8 := htonl msg.reqId ++ msg.payload

def Peers.datagram (peers : Peers κ α ι) (client : κ) (msg : RawMessage) : Datagram α :=
  { bytes := msg.bytes, address := peers.address client }

def Peers.container (peers : Peers κ α ι) (client : κ) (msg : RawMessage) :
    LinxReceivedMessage ι :=
  { message := msg, sender := some (peers.identifier (peers.address client)) }

namespace Network

inductive Point where
  | idle
  | receiving (request : RawMessage) (deadline : Deadline)
  deriving DecidableEq

structure Call where
  request : RawMessage
  sent : Bool
  result : Option RawMessage
  deriving DecidableEq

inductive Action (κ α β δ ι : Type) where
  | sendReceive (client : κ) (request : RawMessage) (sent : Bool) (now timeoutMs : Int)
  | take (client : κ) (later : Int)
  /-- `socket->receive` returns 0 or an error. -/
  | giveUp (client : κ)
  | deliver (client : κ)
  | pipeline (action : Server.Pipeline.Action α β δ ι)
  /-- The innermost callback calls `sendResponse`. -/
  | respond

inductive Event (κ α β δ ι : Type) where
  | requested (client : κ) (request : RawMessage)
  | finished (client : κ) (call : Call)
  | delivered (client : κ) (request : RawMessage)
  | pipeline (event : Server.Pipeline.Event α β δ ι)
  | responded (msg : LinxReceivedMessage ι)

end Network

structure Network (κ α β δ ι : Type) where
  pipeline : Server.Pipeline α β δ ι
  /-- For each callback that has not returned, the message it has still to respond to. -/
  owed : List (Option (LinxReceivedMessage ι))
  client : κ → Network.Point
  toServer : κ → List RawMessage
  toClient : κ → List RawMessage

namespace Network

def create (efd : LinxEventFd) (size : Int32) : Network κ α β δ ι :=
  { pipeline := .create efd size, owed := [], client := fun _ => .idle
    toServer := fun _ => [], toClient := fun _ => [] }

def PipelineAction (action : Server.Pipeline.Action α β δ ι) : Bool :=
  match action with
  | .server (.arrive _) => false
  | _ => true

/-- The callbacks after a step of the pipeline: one that was invoked owes a
response, and one that returns has sent it. -/
def owedAfter (owed : List (Option (LinxReceivedMessage ι)))
    (action : Server.Pipeline.Action α β δ ι) (events : List (Server.Pipeline.Event α β δ ι)) :
    Option (List (Option (LinxReceivedMessage ι))) :=
  match action, owed with
  | .callbackReturns _, none :: rest => some rest
  | .callbackReturns _, _ => none
  | _, _ => some ((Server.Pipeline.invocations events).map (fun call => some call.2) ++ owed)

variable [DecidableEq κ] [BEq ι]

def taken (peers : Peers κ α ι) (client : κ) (point : Point) (msg : RawMessage) (later : Int) :
    Option (Point × List (Event κ α β δ ι)) :=
  match point with
  | .idle => none
  | .receiving request deadline =>
      match Client.receiveBody (peers.target client) []
          (Client.delivered peers.server msg) with
      | .finish result =>
          some (.idle, [.finished client { request := request, sent := true, result := result }])
      | .goOn _ =>
          if deadline.isExpired later then
            some (.idle, [.finished client { request := request, sent := true, result := none }])
          else some (point, [])
      | .undefined => none

def step (peers : Peers κ α ι) (respond : LinxReceivedMessage ι → RawMessage)
    (net : Network κ α β δ ι) :
    Action κ α β δ ι → Option (Network κ α β δ ι × List (Event κ α β δ ι))
  | .sendReceive client request sent now timeoutMs =>
      match net.client client with
      | .idle =>
          -- no request is a ping
          if request.reqId = ipcPingReq then none
          else if sent then
            some ({ net with
              client := Function.update net.client client
                (.receiving request (Deadline.create now timeoutMs))
              toServer := Function.update net.toServer client
                (net.toServer client ++ [request]) }, [.requested client request])
          else
            some (net, [.finished client { request := request, sent := false, result := none }])
      | .receiving _ _ => none
  | .take client later =>
      match net.toClient client with
      | [] => none
      | msg :: rest =>
          match taken peers client (net.client client) msg later with
          | none => none
          | some (point, events) =>
              some ({ net with
                client := Function.update net.client client point
                toClient := Function.update net.toClient client rest }, events)
  | .giveUp client =>
      match net.client client with
      | .idle => none
      | .receiving request _ =>
          some ({ net with client := Function.update net.client client .idle },
            [.finished client { request := request, sent := true, result := none }])
  | .deliver client =>
      match net.toServer client with
      | [] => none
      | request :: rest =>
          match net.pipeline.step peers.identifier
              (.server (.arrive (peers.datagram client request))) with
          | none => none
          | some (pipeline, events) =>
              some ({ net with
                pipeline := pipeline
                toServer := Function.update net.toServer client rest },
                .delivered client request :: events.map .pipeline)
  | .pipeline action =>
      -- no request is a ping, so the worker sends nothing itself
      if PipelineAction action then
        match net.pipeline.step peers.identifier action with
        | none => none
        | some (pipeline, events) =>
            match owedAfter net.owed action events with
            | none => none
            | some owed =>
                some ({ net with pipeline := pipeline, owed := owed }, events.map .pipeline)
      else none
  | .respond =>
      match net.pipeline.receiving, net.owed with
      | false, some msg :: rest =>
          match Server.sendResponse msg true (respond msg) with
          | some (.send peer response) =>
              some ({ net with
                owed := none :: rest
                toClient :=
                  match peers.route peer with
                  | some client =>
                      Function.update net.toClient client (net.toClient client ++ [response])
                  | none => net.toClient }, [.responded msg])
          | _ => none
      | _, _ => none

def machine (peers : Peers κ α ι) (respond : LinxReceivedMessage ι → RawMessage) :
    Machine (Network κ α β δ ι) (Action κ α β δ ι) (Event κ α β δ ι) where
  step := step peers respond

/-! ### What a step can do -/

inductive Did (peers : Peers κ α ι) (respond : LinxReceivedMessage ι → RawMessage)
    (net : Network κ α β δ ι) :
    Action κ α β δ ι → Network κ α β δ ι → List (Event κ α β δ ι) → Prop where
  | requested {client : κ} {request : RawMessage} {now timeoutMs : Int}
      (idle : net.client client = .idle) (other : request.reqId ≠ ipcPingReq) :
      Did peers respond net (.sendReceive client request true now timeoutMs)
        { net with
          client := Function.update net.client client
            (.receiving request (Deadline.create now timeoutMs))
          toServer := Function.update net.toServer client (net.toServer client ++ [request]) }
        [.requested client request]
  | notSent {client : κ} {request : RawMessage} {now timeoutMs : Int}
      (idle : net.client client = .idle) :
      Did peers respond net (.sendReceive client request false now timeoutMs) net
        [.finished client { request := request, sent := false, result := none }]
  | answered {client : κ} {later : Int} {request msg : RawMessage} {deadline : Deadline}
      {rest : List RawMessage} (receiving : net.client client = .receiving request deadline)
      (atHead : net.toClient client = msg :: rest)
      (named : (peers.server == peers.target client) = true) :
      Did peers respond net (.take client later)
        { net with
          client := Function.update net.client client .idle
          toClient := Function.update net.toClient client rest }
        [.finished client { request := request, sent := true, result := some msg }]
  | dropped {client : κ} {later : Int} {msg : RawMessage} {rest : List RawMessage}
      (atHead : net.toClient client = msg :: rest)
      (stranger : (peers.server == peers.target client) = false) :
      Did peers respond net (.take client later)
        { net with toClient := Function.update net.toClient client rest } []
  | expired {client : κ} {later : Int} {request msg : RawMessage} {deadline : Deadline}
      {rest : List RawMessage} (receiving : net.client client = .receiving request deadline)
      (atHead : net.toClient client = msg :: rest)
      (stranger : (peers.server == peers.target client) = false) :
      Did peers respond net (.take client later)
        { net with
          client := Function.update net.client client .idle
          toClient := Function.update net.toClient client rest }
        [.finished client { request := request, sent := true, result := none }]
  | gaveUp {client : κ} {request : RawMessage} {deadline : Deadline}
      (receiving : net.client client = .receiving request deadline) :
      Did peers respond net (.giveUp client)
        { net with client := Function.update net.client client .idle }
        [.finished client { request := request, sent := true, result := none }]
  | delivered {client : κ} {request : RawMessage} {rest : List RawMessage}
      {pipeline : Server.Pipeline α β δ ι} {events : List (Server.Pipeline.Event α β δ ι)}
      (atHead : net.toServer client = request :: rest)
      (stepped : net.pipeline.step peers.identifier
        (.server (.arrive (peers.datagram client request))) = some (pipeline, events)) :
      Did peers respond net (.deliver client)
        { net with
          pipeline := pipeline
          toServer := Function.update net.toServer client rest }
        (.delivered client request :: events.map .pipeline)
  | pipeline {action : Server.Pipeline.Action α β δ ι} {pipeline : Server.Pipeline α β δ ι}
      {events : List (Server.Pipeline.Event α β δ ι)}
      {owed : List (Option (LinxReceivedMessage ι))} (allowed : PipelineAction action = true)
      (stepped : net.pipeline.step peers.identifier action = some (pipeline, events))
      (kept : owedAfter net.owed action events = some owed) :
      Did peers respond net (.pipeline action) { net with pipeline := pipeline, owed := owed }
        (events.map .pipeline)
  | responded {msg : LinxReceivedMessage ι} {rest : List (Option (LinxReceivedMessage ι))}
      {peer : ι} (atHead : net.owed = some msg :: rest) (sender : msg.sender = some peer) :
      Did peers respond net .respond
        { net with
          owed := none :: rest
          toClient :=
            match peers.route peer with
            | some client =>
                Function.update net.toClient client (net.toClient client ++ [respond msg])
            | none => net.toClient } [.responded msg]

omit [DecidableEq κ] in
theorem taken_cases {peers : Peers κ α ι} {client : κ} {point after : Point} {msg : RawMessage}
    {later : Int} {events : List (Event κ α β δ ι)}
    (took : taken peers client point msg later = some (after, events)) :
    ∃ request deadline, point = .receiving request deadline ∧
      ((peers.server == peers.target client) = true ∧ after = .idle ∧
          events = [.finished client { request := request, sent := true, result := some msg }] ∨
        (peers.server == peers.target client) = false ∧
          (after = point ∧ events = [] ∨ after = .idle ∧
            events = [.finished client { request := request, sent := true, result := none }])) := by
  cases point with
  | idle => cases took
  | receiving request deadline =>
      refine ⟨request, deadline, rfl, ?_⟩
      have body := Client.Link.receiveBody_delivered
        (⟨peers.target client, peers.server, peers.server⟩ : Client.Names ι) [] msg
      simp only [matchesFilter, matchesFrom, matchesSignalSelector, List.length_nil, beq_self_eq_true,
        Bool.true_or, Bool.and_true] at body
      simp only [taken, body] at took
      cases named : peers.server == peers.target client with
      | true =>
          simp only [named, if_true] at took
          cases took
          exact .inl ⟨rfl, rfl, rfl⟩
      | false =>
          simp only [named, Bool.false_eq_true, if_false] at took
          right
          refine ⟨rfl, ?_⟩
          split at took
          · cases took
            exact .inr ⟨rfl, rfl⟩
          · cases took
            exact .inl ⟨rfl, rfl⟩

theorem step_cases {peers : Peers κ α ι} {respond : LinxReceivedMessage ι → RawMessage}
    {net next : Network κ α β δ ι} {action : Action κ α β δ ι} {events : List (Event κ α β δ ι)}
    (stepped : net.step peers respond action = some (next, events)) :
    Did peers respond net action next events := by
  cases action with
  | sendReceive client request sent now timeoutMs =>
      simp only [step] at stepped
      split at stepped
      · rename_i idle
        split at stepped
        · cases stepped
        · rename_i other
          split at stepped
          · rename_i isSent
            subst isSent
            cases stepped
            exact .requested idle other
          · rename_i failed
            obtain rfl := Bool.eq_false_iff.mpr failed
            cases stepped
            exact .notSent idle
      · cases stepped
  | take client later =>
      simp only [step] at stepped
      split at stepped
      · cases stepped
      · rename_i msg rest atHead
        split at stepped
        · cases stepped
        · rename_i point emitted took
          cases stepped
          obtain ⟨request, deadline, receiving, outcome⟩ := taken_cases took
          rcases outcome with ⟨named, rfl, rfl⟩ | ⟨stranger, ⟨rfl, rfl⟩ | ⟨rfl, rfl⟩⟩
          · exact .answered receiving atHead named
          · rw [Function.update_eq_self]
            exact .dropped atHead stranger
          · exact .expired receiving atHead stranger
  | giveUp client =>
      simp only [step] at stepped
      split at stepped
      · cases stepped
      · rename_i request deadline receiving
        cases stepped
        exact .gaveUp receiving
  | deliver client =>
      simp only [step] at stepped
      split at stepped
      · cases stepped
      · rename_i request rest atHead
        split at stepped
        · cases stepped
        · rename_i moved
          cases stepped
          exact .delivered atHead moved
  | pipeline action =>
      simp only [step] at stepped
      split at stepped
      · rename_i allowed
        split at stepped
        · cases stepped
        · rename_i moved
          split at stepped
          · cases stepped
          · rename_i kept
            cases stepped
            exact .pipeline allowed moved kept
      · cases stepped
  | respond =>
      simp only [step] at stepped
      split at stepped
      · rename_i msg rest free atHead
        cases sender : msg.sender with
        | none => simp only [Server.sendResponse, sender, reduceCtorEq] at stepped
        | some peer =>
            simp only [Server.sendResponse, sender, if_true] at stepped
            cases stepped
            exact .responded atHead sender
      · cases stepped

/-! ### The pipeline of a network -/

def pipelineEvents (events : List (Event κ α β δ ι)) : List (Server.Pipeline.Event α β δ ι) :=
  events.filterMap fun
    | .pipeline event => some event
    | _ => none

omit [DecidableEq κ] [BEq ι] in
@[simp]
theorem pipelineEvents_map (events : List (Server.Pipeline.Event α β δ ι)) :
    pipelineEvents (events.map (Event.pipeline (κ := κ))) = events := by
  unfold pipelineEvents
  rw [List.filterMap_map]
  exact List.filterMap_some

theorem did_pipeline {peers : Peers κ α ι} {respond : LinxReceivedMessage ι → RawMessage}
    {net next : Network κ α β δ ι} {action : Action κ α β δ ι} {events : List (Event κ α β δ ι)}
    (running : action ≠ .pipeline (.server .stop))
    (did : Did peers respond net action next events) :
    ∃ actions, (∀ action ∈ actions, action ≠ .server .stop) ∧
      (Server.Pipeline.machine peers.identifier).run net.pipeline actions =
        some (next.pipeline, pipelineEvents events) := by
  cases did with
  | @delivered client request rest pipeline events atHead stepped =>
      refine ⟨[.server (.arrive (peers.datagram client request))], by simp, ?_⟩
      have silent : pipelineEvents (.delivered client request :: events.map .pipeline) = events :=
        pipelineEvents_map events
      rw [silent]
      exact (Server.Pipeline.machine peers.identifier).run_single stepped
  | @pipeline action pipeline events owed allowed stepped kept =>
      refine ⟨[action], ?_, ?_⟩
      · rw [List.forall_mem_singleton]
        rintro rfl
        exact running rfl
      · rw [pipelineEvents_map]
        exact (Server.Pipeline.machine peers.identifier).run_single stepped
  | requested | notSent | answered | dropped | expired | gaveUp | responded =>
      exact ⟨[], List.forall_mem_nil _, rfl⟩

theorem run_pipeline {peers : Peers κ α ι} {respond : LinxReceivedMessage ι → RawMessage}
    {efd : LinxEventFd} {size : Int32} {actions : List (Action κ α β δ ι)}
    {net : Network κ α β δ ι} {events : List (Event κ α β δ ι)}
    (running : ∀ action ∈ actions, action ≠ .pipeline (.server .stop))
    (ran : (machine peers respond).run (create efd size) actions = some (net, events)) :
    ∃ pipelineActions, (∀ action ∈ pipelineActions, action ≠ .server .stop) ∧
      (Server.Pipeline.machine peers.identifier).run (.create efd size) pipelineActions =
        some (net.pipeline, pipelineEvents events) := by
  refine (machine peers respond).run_invariant_within
    (motive := fun _ events net => ∃ pipelineActions,
      (∀ action ∈ pipelineActions, action ≠ .server .stop) ∧
        (Server.Pipeline.machine peers.identifier).run (.create efd size) pipelineActions =
          some (net.pipeline, pipelineEvents events))
    ⟨[], List.forall_mem_nil _, rfl⟩ ?_ running ran
  intro _ events net action next emitted _ held allowed stepped
  obtain ⟨earlier, noStop, ranEarlier⟩ := held
  obtain ⟨later, noStopLater, ranLater⟩ := did_pipeline allowed (step_cases stepped)
  refine ⟨earlier ++ later, List.forall_mem_append.mpr ⟨noStop, noStopLater⟩, ?_⟩
  rw [pipelineEvents, List.filterMap_append]
  exact (Server.Pipeline.machine peers.identifier).run_append ranEarlier ranLater

end Network

end LinxIpc
