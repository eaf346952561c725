import LinxIpc.Network.Pairing
import LinxIpc.Udp.Conversation

/-!
Clients and a server that use `UdpSocket` on a network that promises nothing.

Whatever was sent may arrive at its destination late, in another order, more than
once or never.  Others send what they like to whom they like.
-/

namespace LinxIpc

variable {κ β δ : Type}

structure Packet where
  source : SockaddrIn
  dest : SockaddrIn
  bytes : List UInt8
  deriving DecidableEq

def Packet.datagram (packet : Packet) : Datagram SockaddrIn :=
  { bytes := packet.bytes, address := packet.source }

/-- A server and the clients that were created for its address. -/
structure UdpParties (κ : Type) where
  server : SockaddrIn
  serverSocket : UdpSocket
  serverOpened : 0 ≤ serverSocket.fd
  client : κ → SockaddrIn
  socket : κ → UdpSocket
  opened : ∀ one, 0 ≤ (socket one).fd
  target : κ → PortInfo
  aimed : ∀ one, UdpSocket.peer? (target one) = some server
  distinct : ∀ one other, client one = client other → one = other
  others : ∀ one, client one ≠ server

namespace Internet

inductive Action (κ β δ : Type) where
  /-- `sendto` fails unless `goes`. -/
  | send (client : κ) (prepared : Prepared) (goes : Bool)
  /-- A pass of the loop in `GenericClient::receive`, for which this packet arrives. -/
  | receive (client : κ) (packet : Packet) (sigsel : List UInt32) (timeoutMs : Int)
  | strange (packet : Packet)
  | arrive (packet : Packet)
  | pipeline (action : Server.Pipeline.Action SockaddrIn β δ PortInfo)
  | pong (buffer : List UInt8) (goes : Bool)
  /-- The innermost callback calls `sendResponse`. -/
  | respond (buffer : List UInt8) (goes : Bool)

inductive Event (κ β δ : Type) where
  | requested (client : κ) (msg : RawMessage)
  | returned (client : κ) (msg : RawMessage)
  | strange (packet : Packet)
  | pipeline (event : Server.Pipeline.Event SockaddrIn β δ PortInfo)
  | responded (msg : LinxReceivedMessage PortInfo)

end Internet

structure Internet (β δ : Type) where
  pipeline : Server.Pipeline SockaddrIn β δ PortInfo
  owed : List (Option (LinxReceivedMessage PortInfo))
  /-- All packets that were ever sent. -/
  sent : List Packet

namespace Internet

def create (efd : LinxEventFd) (size : Int32) : Internet β δ :=
  { pipeline := .create efd size, owed := [], sent := [] }

def pong : RawMessage := { reqId := ipcPingRsp, payload := [] }

/-- Datagrams only come from the network, and what the worker sends goes there. -/
def Internal (action : Server.Pipeline.Action SockaddrIn β δ PortInfo) : Bool :=
  match action with
  | .server (.arrive _) => false
  | .server .answer => false
  | _ => true

def sendto (source : SockaddrIn) (goes : Bool) (bytes : List UInt8) (dest : SockaddrIn)
    (sent : List Packet) : Option Nat × List Packet :=
  if goes then (some bytes.length, sent ++ [{ source := source, dest := dest, bytes := bytes }])
  else (none, sent)

/-- `send` of the server's socket, whose result nobody uses. -/
def reply (parties : UdpParties κ) (peer : PortInfo) (message : RawMessage)
    (buffer : List UInt8) (goes : Bool) (sent : List Packet) : Option (List Packet) :=
  if buffer.length = message.toIMessage.getSize.toNat then
    match parties.serverSocket.sendOn message.toIMessage peer buffer
        (sendto parties.server goes) sent with
    | none => none
    | some (_, sent) => some sent
  else none

def step (parties : UdpParties κ) (respond : LinxReceivedMessage PortInfo → RawMessage)
    (net : Internet β δ) : Action κ β δ → Option (Internet β δ × List (Event κ β δ))
  | .send client prepared goes =>
      match (parties.socket client).sendOn prepared.msg.toIMessage (parties.target client)
          prepared.buffer (sendto (parties.client client) goes) net.sent with
      | none => none
      | some (result, sent) =>
          some ({ net with sent := sent },
            if result < 0 then [] else [.requested client prepared.msg])
  | .receive client packet sigsel timeoutMs =>
      if packet ∈ net.sent ∧ packet.dest = parties.client client then
        match (UdpSocket.receive (parties.socket client).fd timeoutMs).runOn
            [packet.datagram] with
        | none => none
        | some (received, _) =>
            match Client.receiveBody (parties.target client) sigsel received with
            | .finish (some msg) => some (net, [.returned client msg])
            | .finish none => some (net, [])
            | .goOn _ => some (net, [])
            | .undefined => none
      else none
  | .strange packet => some ({ net with sent := net.sent ++ [packet] }, [.strange packet])
  | .arrive packet =>
      if packet ∈ net.sent ∧ packet.dest = parties.server then
        match net.pipeline.step UdpSocket.identifier (.server (.arrive packet.datagram)) with
        | none => none
        | some (pipeline, events) => some ({ net with pipeline := pipeline }, events.map .pipeline)
      else none
  | .pipeline action =>
      if Internal action then
        match net.pipeline.step UdpSocket.identifier action with
        | none => none
        | some (pipeline, events) =>
            match Network.owedAfter net.owed action events with
            | none => none
            | some owed =>
                some ({ net with pipeline := pipeline, owed := owed }, events.map .pipeline)
      else none
  | .pong buffer goes =>
      match net.pipeline.server.worker,
          net.pipeline.step UdpSocket.identifier (.server .answer) with
      | .answering peer, some (pipeline, events) =>
          match reply parties peer pong buffer goes net.sent with
          | none => none
          | some sent =>
              some ({ net with pipeline := pipeline, sent := sent }, events.map .pipeline)
      | _, _ => none
  | .respond buffer goes =>
      match net.pipeline.receiving, net.owed with
      | false, some msg :: rest =>
          match Server.sendResponse msg true (respond msg) with
          | some (.send peer response) =>
              match reply parties peer response buffer goes net.sent with
              | none => none
              | some sent =>
                  some ({ net with owed := none :: rest, sent := sent }, [.responded msg])
          | _ => none
      | _, _ => none

def machine (parties : UdpParties κ) (respond : LinxReceivedMessage PortInfo → RawMessage) :
    Machine (Internet β δ) (Action κ β δ) (Event κ β δ) where
  step := step parties respond

/-! ### What a step can do -/

def replied (parties : UdpParties κ) (peer : PortInfo) (message : RawMessage) (goes : Bool) :
    List Packet :=
  match goes, UdpSocket.peer? peer with
  | true, some address =>
      [{ source := parties.server, dest := address, bytes := message.bytes }]
  | _, _ => []

inductive Did (parties : UdpParties κ) (respond : LinxReceivedMessage PortInfo → RawMessage)
    (net : Internet β δ) : Action κ β δ → Internet β δ → List (Event κ β δ) → Prop where
  | requested {client : κ} {prepared : Prepared} :
      Did parties respond net (.send client prepared true)
        { net with
          sent := net.sent ++ [{ source := parties.client client, dest := parties.server
                                 bytes := prepared.msg.bytes }] }
        [.requested client prepared.msg]
  | notSent {client : κ} {prepared : Prepared} :
      Did parties respond net (.send client prepared false) net []
  | returned {client : κ} {packet : Packet} {sigsel : List UInt32} {timeoutMs : Int}
      {msg : RawMessage} (inSent : packet ∈ net.sent)
      (reached : packet.dest = parties.client client)
      (decoded : RawMessage.deserialize packet.bytes = some msg)
      (heard : UdpSocket.Hears (parties.target client) packet.source) :
      Did parties respond net (.receive client packet sigsel timeoutMs) net
        [.returned client msg]
  | passedOver {client : κ} {packet : Packet} {sigsel : List UInt32} {timeoutMs : Int} :
      Did parties respond net (.receive client packet sigsel timeoutMs) net []
  | strange {packet : Packet} :
      Did parties respond net (.strange packet) { net with sent := net.sent ++ [packet] }
        [.strange packet]
  | arrived {packet : Packet} {pipeline : Server.Pipeline SockaddrIn β δ PortInfo}
      {events : List (Server.Pipeline.Event SockaddrIn β δ PortInfo)}
      (inSent : packet ∈ net.sent) (reached : packet.dest = parties.server)
      (stepped : net.pipeline.step UdpSocket.identifier (.server (.arrive packet.datagram)) =
        some (pipeline, events)) :
      Did parties respond net (.arrive packet) { net with pipeline := pipeline }
        (events.map .pipeline)
  | pipeline {action : Server.Pipeline.Action SockaddrIn β δ PortInfo}
      {pipeline : Server.Pipeline SockaddrIn β δ PortInfo}
      {events : List (Server.Pipeline.Event SockaddrIn β δ PortInfo)}
      {owed : List (Option (LinxReceivedMessage PortInfo))} (allowed : Internal action = true)
      (stepped : net.pipeline.step UdpSocket.identifier action = some (pipeline, events))
      (kept : Network.owedAfter net.owed action events = some owed) :
      Did parties respond net (.pipeline action) { net with pipeline := pipeline, owed := owed }
        (events.map .pipeline)
  | ponged {buffer : List UInt8} {goes : Bool} {peer : PortInfo}
      {pipeline : Server.Pipeline SockaddrIn β δ PortInfo}
      {events : List (Server.Pipeline.Event SockaddrIn β δ PortInfo)}
      (answering : net.pipeline.server.worker = .answering peer)
      (stepped : net.pipeline.step UdpSocket.identifier (.server .answer) =
        some (pipeline, events)) :
      Did parties respond net (.pong buffer goes)
        { net with pipeline := pipeline, sent := net.sent ++ replied parties peer pong goes }
        (events.map .pipeline)
  | responded {buffer : List UInt8} {goes : Bool} {msg : LinxReceivedMessage PortInfo}
      {rest : List (Option (LinxReceivedMessage PortInfo))} {peer : PortInfo}
      (atHead : net.owed = some msg :: rest) (sender : msg.sender = some peer) :
      Did parties respond net (.respond buffer goes)
        { net with
          owed := none :: rest
          sent := net.sent ++ replied parties peer (respond msg) goes }
        [.responded msg]

theorem sendOn_sendto {self : UdpSocket} (opened : 0 ≤ self.fd) {message : RawMessage}
    {buffer : List UInt8} (small : message.payload.length + 4 < 4294967296)
    (size : buffer.length = message.toIMessage.getSize.toNat) (dest : PortInfo)
    (source : SockaddrIn) (goes : Bool) (sent : List Packet) :
    self.sendOn message.toIMessage dest buffer (sendto source goes) sent =
      some (match UdpSocket.peer? dest, goes with
        | none, _ => (-3, sent)
        | some _, false => (-4, sent)
        | some address, true =>
            (0, sent ++ [{ source := source, dest := address, bytes := message.bytes }])) := by
  rw [UdpSocket.sendOn_open opened (RawMessage.encodes message) small size]
  cases UdpSocket.peer? dest with
  | none => rfl
  | some address =>
      cases goes with
      | false => rfl
      | true =>
          have whole : message.bytes.length % 4294967296 = message.payload.length + 4 := by
            rw [RawMessage.bytes, List.length_append, htonl_length]
            omega
          have went : UdpSocket.answer (message.payload.length + 4) (some message.bytes.length) =
              0 := by
            rw [UdpSocket.answer, if_neg (not_not.mpr whole)]
          exact congrArg (fun result => some (result, _)) went

theorem reply_replied {parties : UdpParties κ} {peer : PortInfo} {message : RawMessage}
    (small : message.payload.length + 4 < 4294967296) {buffer : List UInt8} {goes : Bool}
    {sent after : List Packet}
    (replies : reply parties peer message buffer goes sent = some after) :
    after = sent ++ replied parties peer message goes := by
  unfold reply at replies
  split at replies
  · rename_i size
    rw [sendOn_sendto parties.serverOpened small size] at replies
    cases goes <;> cases peered : UdpSocket.peer? peer <;>
      simp only [peered, replied, Option.some.injEq, List.append_nil] at replies ⊢ <;>
      exact replies.symm
  · cases replies

theorem receiveBody_returned {dest : PortInfo} {sigsel : List UInt32}
    {datagram : Datagram SockaddrIn} {msg : RawMessage}
    (returned : Client.receiveBody dest sigsel (received UdpSocket.identifier datagram) =
      .finish (some msg)) :
    RawMessage.deserialize datagram.bytes = some msg ∧ UdpSocket.Hears dest datagram.address := by
  have filters := Client.receiveBody_filters dest sigsel
  by_cases wellFormed : WellFormed datagram
  · by_cases passes : Passes UdpSocket.identifier (Client.Wanted dest sigsel) datagram
    · obtain ⟨other, decoded, heard, selected⟩ := passes
      have result := filters.wanted (received UdpSocket.identifier datagram) other
        (UdpSocket.identifier datagram.address)
        (by rw [received, decoded]; exact wellFormed.positive)
        (by rw [received, decoded]) ⟨heard, selected⟩
      rw [result] at returned
      cases returned
      exact ⟨decoded, (UdpSocket.identifier_isEqual_iff dest _).mp heard⟩
    · obtain ⟨pong, goesOn⟩ := filters.unwanted _ (unwanted_of_not_passes wellFormed passes)
      rw [goesOn] at returned
      cases returned
  · rw [received_malformed _ wellFormed, filters.failed _ (by decide)] at returned
    cases returned

section
variable {parties : UdpParties κ} {respond : LinxReceivedMessage PortInfo → RawMessage}
  {net next : Internet β δ} {action : Action κ β δ} {events : List (Event κ β δ)}

theorem send_cases {client : κ} {prepared : Prepared} {goes : Bool}
    (stepped : net.step parties respond (.send client prepared goes) = some (next, events)) :
    Did parties respond net (.send client prepared goes) next events := by
  simp only [step, sendOn_sendto (parties.opened client) prepared.small prepared.size,
    parties.aimed] at stepped
  cases goes with
  | true =>
      cases stepped
      exact .requested
  | false =>
      cases stepped
      exact .notSent

theorem receive_cases {client : κ} {packet : Packet} {sigsel : List UInt32} {timeoutMs : Int}
    (stepped : net.step parties respond (.receive client packet sigsel timeoutMs) =
      some (next, events)) :
    Did parties respond net (.receive client packet sigsel timeoutMs) next events := by
  simp only [step, UdpSocket.receive,
    socketReceive_runOn UdpSocket.identifier (parties.opened client)] at stepped
  split at stepped
  · rename_i came
    split at stepped
    · rename_i msg body
      cases stepped
      obtain ⟨decoded, heard⟩ := receiveBody_returned body
      exact .returned came.1 came.2 decoded heard
    · cases stepped
      exact .passedOver
    · cases stepped
      exact .passedOver
    · cases stepped
  · cases stepped

theorem step_cases (small : ∀ msg, (respond msg).payload.length + 4 < 4294967296)
    (stepped : net.step parties respond action = some (next, events)) :
    Did parties respond net action next events := by
  cases action with
  | send client prepared goes => exact send_cases stepped
  | receive client packet sigsel timeoutMs => exact receive_cases stepped
  | strange packet =>
      cases stepped
      exact .strange
  | arrive packet =>
      simp only [step] at stepped
      split at stepped
      · rename_i came
        split at stepped
        · cases stepped
        · rename_i moved
          cases stepped
          exact .arrived came.1 came.2 moved
      · cases stepped
  | pipeline action =>
      simp only [step] at stepped
      split at stepped
      · rename_i allowed
        split at stepped
        · cases stepped
        · rename_i moved
          split at stepped
          · cases stepped
          · rename_i kept
            cases stepped
            exact .pipeline allowed moved kept
      · cases stepped
  | pong buffer goes =>
      simp only [step] at stepped
      split at stepped
      · rename_i answering moved
        split at stepped
        · cases stepped
        · rename_i replies
          obtain rfl := reply_replied (by decide) replies
          cases stepped
          exact .ponged answering moved
      · cases stepped
  | respond buffer goes =>
      simp only [step] at stepped
      split at stepped
      · rename_i msg rest outside atHead
        cases sender : msg.sender with
        | none => simp only [Server.sendResponse, sender, reduceCtorEq] at stepped
        | some peer =>
            simp only [Server.sendResponse, sender, if_true] at stepped
            split at stepped
            · cases stepped
            · rename_i replies
              obtain rfl := reply_replied (small msg) replies
              cases stepped
              exact .responded atHead sender
      · cases stepped

end

/-! ### The pipeline of the server -/

def pipelineEvents (events : List (Event κ β δ)) :
    List (Server.Pipeline.Event SockaddrIn β δ PortInfo) :=
  events.filterMap fun
    | .pipeline event => some event
    | _ => none

@[simp]
theorem pipelineEvents_map (events : List (Server.Pipeline.Event SockaddrIn β δ PortInfo)) :
    pipelineEvents (events.map (Event.pipeline (κ := κ))) = events := by
  unfold pipelineEvents
  rw [List.filterMap_map]
  exact List.filterMap_some

theorem did_pipeline {parties : UdpParties κ}
    {respond : LinxReceivedMessage PortInfo → RawMessage} {net next : Internet β δ}
    {action : Action κ β δ} {events : List (Event κ β δ)}
    (running : action ≠ .pipeline (.server .stop))
    (did : Did parties respond net action next events) :
    ∃ actions, (∀ action ∈ actions, action ≠ .server .stop) ∧
      (Server.Pipeline.machine UdpSocket.identifier).run net.pipeline actions =
        some (next.pipeline, pipelineEvents events) := by
  cases did with
  | @arrived packet pipeline events inSent reached stepped =>
      refine ⟨[.server (.arrive packet.datagram)], by simp, ?_⟩
      rw [pipelineEvents_map]
      exact (Server.Pipeline.machine UdpSocket.identifier).run_single stepped
  | @pipeline action pipeline events owed allowed stepped kept =>
      refine ⟨[action], ?_, ?_⟩
      · rw [List.forall_mem_singleton]
        rintro rfl
        exact running rfl
      · rw [pipelineEvents_map]
        exact (Server.Pipeline.machine UdpSocket.identifier).run_single stepped
  | @ponged buffer goes peer pipeline events answering stepped =>
      refine ⟨[.server .answer], by simp, ?_⟩
      rw [pipelineEvents_map]
      exact (Server.Pipeline.machine UdpSocket.identifier).run_single stepped
  | requested | notSent | returned | passedOver | strange | responded =>
      exact ⟨[], List.forall_mem_nil _, rfl⟩

end Internet

end LinxIpc
