import LinxIpc.Udp.Internet

/-!
Who a message comes from on a network that promises nothing.

Messages are not signed.  What a client and a server know of a sender is its
address, and as long as nobody else uses the addresses of the parties, that is
enough.
-/

namespace LinxIpc

namespace Server

variable {α β δ ι : Type}

theorem mem_messages {identifier : α → ι} {datagrams : List (Datagram α)}
    {msg : LinxReceivedMessage ι} (member : msg ∈ messages identifier datagrams) :
    ∃ datagram ∈ datagrams, output? identifier datagram = some (.offered msg) := by
  rw [← (outputs_split identifier datagrams).1, List.mem_filterMap] at member
  obtain ⟨output, among, offered⟩ := member
  cases output with
  | answered peer => cases offered
  | offered other =>
      cases offered
      exact List.mem_filterMap.mp among

theorem answered_peer {identifier : α → ι} {datagram : Datagram α} {peer : ι}
    (asked : output? identifier datagram = some (.answered peer)) :
    peer = identifier datagram.address ∧
      ∃ ping, RawMessage.deserialize datagram.bytes = some ping ∧ ping.reqId = ipcPingReq := by
  obtain ⟨ping, decoded, same⟩ := Option.map_eq_some_iff.mp asked
  split at same
  · rename_i isPing
    cases same
    exact ⟨rfl, ping, decoded, isPing⟩
  · cases same

theorem offered_message {identifier : α → ι} {datagram : Datagram α}
    {msg : LinxReceivedMessage ι} (asked : output? identifier datagram = some (.offered msg)) :
    msg.sender = some (identifier datagram.address) ∧
      RawMessage.deserialize datagram.bytes = some msg.message ∧
      msg.message.reqId ≠ ipcPingReq := by
  obtain ⟨message, decoded, same⟩ := Option.map_eq_some_iff.mp asked
  split at same
  · cases same
  · rename_i other
    cases same
    exact ⟨rfl, decoded, other⟩

variable [BEq ι]

/-- The messages that reach a callback, and the ping that the worker answers, were
asked for by datagrams that arrived. -/
theorem Pipeline.run_asked {identifier : α → ι} {efd : LinxEventFd} {size : Int32}
    {actions : List (Action α β δ ι)} {p : Pipeline α β δ ι} {events : List (Event α β δ ι)}
    (running : ∀ action ∈ actions, action ≠ .server .stop)
    (ran : (machine identifier).run (create efd size) actions = some (p, events)) :
    (∀ msg ∈ (invocations events).map Prod.snd, ∃ datagram ∈ arrivals (serverEvents events),
      output? identifier datagram = some (.offered msg)) ∧
    ∀ peer, p.server.worker = .answering peer → ∃ datagram ∈ arrivals (serverEvents events),
      output? identifier datagram = some (.answered peer) := by
  constructor
  · intro msg invoked
    exact mem_messages ((run_invocations running ran).subset invoked)
  · intro peer answering
    obtain ⟨serverActions, ranServer⟩ := run_server ran
    have flow := State.run_flow ranServer
    have owes : Output.answered peer ∈ outputs identifier (consumed (serverEvents events)) := by
      rw [← flow.handed (run_opened running ran), answering]
      exact List.mem_append_right _ List.mem_cons_self
    obtain ⟨datagram, taken, asked⟩ := List.mem_filterMap.mp owes
    refine ⟨datagram, ?_, asked⟩
    rw [flow.arrived]
    exact List.mem_append_left _ taken

end Server

namespace Internet

variable {κ β δ : Type}

open Server (arrivals output?)
open Server.Pipeline (invocations serverEvents)

def arrived (events : List (Event κ β δ)) : List (Datagram SockaddrIn) :=
  arrivals (serverEvents (pipelineEvents events))

def responded (events : List (Event κ β δ)) : List (LinxReceivedMessage PortInfo) :=
  events.filterMap fun
    | .responded msg => some msg
    | _ => none

/-- The server is not stopped, and nobody else uses the address of a party. -/
def Fair (parties : UdpParties κ) : Action κ β δ → Prop
  | .pipeline (.server .stop) => False
  | .strange packet => packet.source ≠ parties.server ∧
      ∀ client, packet.source ≠ parties.client client
  | _ => True

theorem logs_append (front back : List (Event κ β δ)) :
    arrived (front ++ back) = arrived front ++ arrived back ∧
      responded (front ++ back) = responded front ++ responded back ∧
      pipelineEvents (front ++ back) = pipelineEvents front ++ pipelineEvents back := by
  refine ⟨?_, List.filterMap_append .., List.filterMap_append ..⟩
  rw [arrived, pipelineEvents, List.filterMap_append, Server.Pipeline.serverEvents_append,
    (Server.logs_append _ _).1]
  rfl

/-! ### Where packets come from -/

inductive Origin (parties : UdpParties κ) (respond : LinxReceivedMessage PortInfo → RawMessage)
    (events : List (Event κ β δ)) : Packet → Prop where
  | requested {client : κ} {msg : RawMessage} (asked : .requested client msg ∈ events) :
      Origin parties respond events
        { source := parties.client client, dest := parties.server, bytes := msg.bytes }
  | strange {packet : Packet} (came : .strange packet ∈ events) :
      Origin parties respond events packet
  | ponged {datagram : Datagram SockaddrIn} {peer : PortInfo} (came : datagram ∈ arrived events)
      (asked : output? UdpSocket.identifier datagram = some (.answered peer)) :
      Origin parties respond events
        { source := parties.server, dest := datagram.address, bytes := pong.bytes }
  | responded {datagram : Datagram SockaddrIn} {msg : LinxReceivedMessage PortInfo}
      (came : datagram ∈ arrived events)
      (asked : output? UdpSocket.identifier datagram = some (.offered msg)) :
      Origin parties respond events
        { source := parties.server, dest := datagram.address, bytes := (respond msg).bytes }

section
variable {parties : UdpParties κ} {respond : LinxReceivedMessage PortInfo → RawMessage}
  {net next : Internet β δ} {events emitted : List (Event κ β δ)} {packet : Packet}

theorem Origin.append (origin : Origin parties respond events packet)
    (emitted : List (Event κ β δ)) : Origin parties respond (events ++ emitted) packet := by
  cases origin with
  | requested asked => exact .requested (List.mem_append_left _ asked)
  | strange came => exact .strange (List.mem_append_left _ came)
  | ponged came asked =>
      refine .ponged ?_ asked
      rw [(logs_append events emitted).1]
      exact List.mem_append_left _ came
  | responded came asked =>
      refine .responded ?_ asked
      rw [(logs_append events emitted).1]
      exact List.mem_append_left _ came

structure Traced (parties : UdpParties κ) (respond : LinxReceivedMessage PortInfo → RawMessage)
    (net : Internet β δ) (events : List (Event κ β δ)) : Prop where
  sent : ∀ packet ∈ net.sent, Origin parties respond events packet
  arrived : ∀ datagram ∈ arrived events, ∃ packet, Origin parties respond events packet ∧
    packet.dest = parties.server ∧ packet.datagram = datagram
  invoked : (responded events ++ net.owed.filterMap id).Perm
    ((invocations (pipelineEvents events)).map Prod.snd)
  foreign : ∀ packet, .strange packet ∈ events →
    packet.source ≠ parties.server ∧ ∀ client, packet.source ≠ parties.client client

theorem Traced.moved (traced : Traced parties respond net events)
    (sent : ∀ packet ∈ next.sent, packet ∈ net.sent ∨
      Origin parties respond (events ++ emitted) packet)
    (came : ∀ datagram ∈ Internet.arrived emitted,
      ∃ packet ∈ net.sent, packet.dest = parties.server ∧ packet.datagram = datagram)
    (invoked : (Internet.responded emitted ++ next.owed.filterMap id).Perm
      (net.owed.filterMap id ++ (invocations (pipelineEvents emitted)).map Prod.snd))
    (foreign : ∀ packet, .strange packet ∈ emitted →
      packet.source ≠ parties.server ∧ ∀ client, packet.source ≠ parties.client client) :
    Traced parties respond next (events ++ emitted) := by
  obtain ⟨arrivals, responses, steps⟩ := logs_append events emitted
  constructor
  · intro packet member
    rcases sent packet member with before | origin
    · exact (traced.sent packet before).append emitted
    · exact origin
  · intro datagram member
    rw [arrivals, List.mem_append] at member
    rcases member with before | now
    · obtain ⟨packet, origin, reached, same⟩ := traced.arrived datagram before
      exact ⟨packet, origin.append emitted, reached, same⟩
    · obtain ⟨packet, inSent, reached, same⟩ := came datagram now
      exact ⟨packet, (traced.sent packet inSent).append emitted, reached, same⟩
  · rw [responses, steps, Network.invocations_append, List.map_append, List.append_assoc]
    have balance := invoked.append_left (Internet.responded events)
    rw [← List.append_assoc (Internet.responded events) (net.owed.filterMap id)] at balance
    exact balance.trans (traced.invoked.append_right _)
  · intro packet member
    rcases List.mem_append.mp member with before | now
    · exact traced.foreign packet before
    · exact foreign packet now

theorem mem_replied {peer : PortInfo} {message : RawMessage} {goes : Bool}
    (member : packet ∈ replied parties peer message goes) :
    ∃ address, UdpSocket.peer? peer = some address ∧
      packet = { source := parties.server, dest := address, bytes := message.bytes } := by
  unfold replied at member
  split at member
  · rename_i address peered
    exact ⟨address, peered, List.mem_singleton.mp member⟩
  · cases member

theorem replied_source {datagram : Datagram SockaddrIn} {message : RawMessage} {goes : Bool}
    (member : packet ∈ replied parties (UdpSocket.identifier datagram.address) message goes) :
    packet =
      { source := parties.server, dest := datagram.address, bytes := message.bytes } := by
  obtain ⟨address, peered, same⟩ := mem_replied member
  rw [UdpSocket.peer?_identifier, Option.some.injEq] at peered
  rw [same, peered]

theorem Internal.pipelineAction {action : Server.Pipeline.Action SockaddrIn β δ PortInfo}
    (allowed : Internal action = true) : Network.PipelineAction action = true := by
  cases action with
  | server action =>
      cases action with
      | arrive datagram => cases allowed
      | _ => rfl
  | _ => rfl

theorem pipeline_logs
    (steps : List (Server.Pipeline.Event SockaddrIn β δ PortInfo)) :
    Internet.responded (steps.map (Event.pipeline (κ := κ))) = [] ∧
      Internet.arrived (steps.map (Event.pipeline (κ := κ))) = arrivals (serverEvents steps) ∧
      ∀ packet, .strange packet ∉ steps.map (Event.pipeline (κ := κ)) := by
  refine ⟨?_, ?_, ?_⟩
  · rw [Internet.responded, List.filterMap_map, List.filterMap_eq_nil_iff]
    exact fun _ _ => rfl
  · rw [Internet.arrived, pipelineEvents_map]
  · intro packet member
    obtain ⟨step, -, same⟩ := List.mem_map.mp member
    cases same

theorem Traced.arrives (traced : Traced parties respond net events)
    (inSent : packet ∈ net.sent) (reached : packet.dest = parties.server)
    {pipeline : Server.Pipeline SockaddrIn β δ PortInfo}
    {steps : List (Server.Pipeline.Event SockaddrIn β δ PortInfo)}
    (stepped : net.pipeline.step UdpSocket.identifier (.server (.arrive packet.datagram)) =
      some (pipeline, steps)) :
    Traced parties respond { net with pipeline := pipeline } (events ++ steps.map .pipeline) := by
  obtain ⟨came, none⟩ := Network.pipeline_arrives stepped
  obtain ⟨noResponses, arrivals, noStrangers⟩ := pipeline_logs (κ := κ) steps
  refine traced.moved (fun other member => .inl member) ?_ ?_ ?_
  · intro datagram member
    rw [arrivals, came, List.mem_singleton] at member
    exact ⟨packet, inSent, reached, member.symm⟩
  · rw [noResponses, pipelineEvents_map, none]
    exact .of_eq (List.append_nil _).symm
  · exact fun other member => absurd member (noStrangers other)

theorem Traced.pipeline (traced : Traced parties respond net events)
    {action : Server.Pipeline.Action SockaddrIn β δ PortInfo}
    {pipeline : Server.Pipeline SockaddrIn β δ PortInfo}
    {steps : List (Server.Pipeline.Event SockaddrIn β δ PortInfo)}
    {owed : List (Option (LinxReceivedMessage PortInfo))}
    (allowed : Network.PipelineAction action = true)
    (stepped : net.pipeline.step UdpSocket.identifier action = some (pipeline, steps))
    (kept : Network.owedAfter net.owed action steps = some owed) {more : List Packet}
    (sent : ∀ packet ∈ more, Origin parties respond events packet) :
    Traced parties respond { net with pipeline := pipeline, owed := owed, sent := net.sent ++ more }
      (events ++ steps.map .pipeline) := by
  obtain ⟨noResponses, arrivals, noStrangers⟩ := pipeline_logs (κ := κ) steps
  have did := Server.Pipeline.step_cases stepped
  refine traced.moved ?_ ?_ ?_ ?_
  · intro packet member
    rcases List.mem_append.mp member with before | now
    · exact .inl before
    · exact .inr ((sent packet now).append _)
  · intro datagram member
    rw [arrivals, Network.pipeline_arrivals did allowed] at member
    cases member
  · rw [noResponses, pipelineEvents_map, Network.pipeline_owes did kept, List.nil_append]
    exact List.perm_append_comm
  · exact fun other member => absurd member (noStrangers other)

theorem answer_invokes {p next : Server.Pipeline SockaddrIn β δ PortInfo}
    {steps : List (Server.Pipeline.Event SockaddrIn β δ PortInfo)}
    (stepped : p.step UdpSocket.identifier (.server .answer) = some (next, steps)) :
    invocations steps = [] := by
  cases Server.Pipeline.step_cases stepped with
  | server allowed moved => exact Network.invocations_server _

theorem answer_owes {p next : Server.Pipeline SockaddrIn β δ PortInfo}
    {steps : List (Server.Pipeline.Event SockaddrIn β δ PortInfo)}
    (stepped : p.step UdpSocket.identifier (.server .answer) = some (next, steps))
    (owed : List (Option (LinxReceivedMessage PortInfo))) :
    Network.owedAfter owed (.server .answer) steps = some owed := by
  simp only [Network.owedAfter, answer_invokes stepped, List.map_nil, List.nil_append]

theorem Traced.did (traced : Traced parties respond net events) {action : Action κ β δ}
    (offered : ∀ msg ∈ net.owed.filterMap id, ∃ datagram ∈ Internet.arrived events,
      output? UdpSocket.identifier datagram = some (.offered msg))
    (answering : ∀ peer, net.pipeline.server.worker = .answering peer →
      ∃ datagram ∈ Internet.arrived events,
        output? UdpSocket.identifier datagram = some (.answered peer))
    (fair : Fair parties action) (did : Did parties respond net action next emitted) :
    Traced parties respond next (events ++ emitted) := by
  cases did with
  | @requested client prepared =>
      refine traced.moved ?_ (fun _ => nofun) (.of_eq (List.append_nil _).symm) ?_
      · intro packet member
        rcases List.mem_append.mp member with before | now
        · exact .inl before
        · obtain rfl := List.mem_singleton.mp now
          exact .inr (.requested (List.mem_append_right _ List.mem_cons_self))
      · intro packet member
        cases List.mem_singleton.mp member
  | notSent | passedOver =>
      rw [List.append_nil]
      exact traced
  | @returned client packet sigsel timeoutMs msg inSent reached decoded heard =>
      refine traced.moved (fun _ member => .inl member) (fun _ => nofun)
        (.of_eq (List.append_nil _).symm) ?_
      intro packet member
      cases List.mem_singleton.mp member
  | @strange packet =>
      refine traced.moved ?_ (fun _ => nofun) (.of_eq (List.append_nil _).symm) ?_
      · intro other member
        rcases List.mem_append.mp member with before | now
        · exact .inl before
        · obtain rfl := List.mem_singleton.mp now
          exact .inr (.strange (List.mem_append_right _ List.mem_cons_self))
      · intro other member
        cases List.mem_singleton.mp member
        exact fair
  | arrived inSent reached stepped => exact traced.arrives inSent reached stepped
  | @pipeline action pipeline steps owed allowed stepped kept =>
      have moved := traced.pipeline (Internal.pipelineAction allowed) stepped kept
        (List.forall_mem_nil _)
      rw [List.append_nil] at moved
      exact moved
  | @ponged buffer goes peer pipeline steps atWorker stepped =>
      obtain ⟨datagram, came, asked⟩ := answering peer atWorker
      obtain ⟨rfl, -⟩ := Server.answered_peer asked
      refine traced.pipeline rfl stepped (answer_owes stepped net.owed) ?_
      intro packet member
      rw [replied_source member]
      exact .ponged came asked
  | @responded buffer goes msg rest peer atHead sender =>
      obtain ⟨datagram, came, asked⟩ := offered msg (by rw [atHead]; exact List.mem_cons_self)
      obtain ⟨from_, -, -⟩ := Server.offered_message asked
      rw [sender, Option.some.injEq] at from_
      subst from_
      refine traced.moved ?_ (fun _ => nofun) ?_ ?_
      · intro packet member
        rcases List.mem_append.mp member with before | now
        · exact .inl before
        · rw [replied_source now]
          exact .inr ((Origin.responded came asked).append _)
      · rw [atHead]
        exact .of_eq (List.append_nil _).symm
      · intro packet member
        cases List.mem_singleton.mp member

theorem Traced.asked (traced : Traced parties respond net events) {datagram : Datagram SockaddrIn}
    (came : datagram ∈ Internet.arrived events) {client : κ}
    (address : datagram.address = parties.client client) :
    ∃ request, .requested client request ∈ events ∧
      RawMessage.deserialize datagram.bytes = some request := by
  obtain ⟨packet, origin, reached, rfl⟩ := traced.arrived datagram came
  cases origin with
  | @requested other msg asked =>
      obtain rfl := parties.distinct other client address
      exact ⟨msg, asked, RawMessage.deserialize_htonl msg.reqId msg.payload⟩
  | strange came => exact absurd address ((traced.foreign packet came).2 client)
  | ponged | responded => exact absurd address.symm (parties.others client)

/-! ### Whole runs -/

/-- What a client is given and what a callback is given under the name of a client
have been sent before. -/
def Accounts (parties : UdpParties κ) (respond : LinxReceivedMessage PortInfo → RawMessage)
    (front : List (Event κ β δ)) : Event κ β δ → Prop
  | .returned client msg =>
      (msg = pong ∧ ∃ ping, ping.reqId = ipcPingReq ∧ .requested client ping ∈ front) ∨
      (∃ request, request.reqId ≠ ipcPingReq ∧ .requested client request ∈ front ∧
        msg = respond { message := request
                        sender := some (UdpSocket.identifier (parties.client client)) }) ∨
      ∃ packet, .strange packet ∈ front ∧ packet.dest = parties.client client ∧
        RawMessage.deserialize packet.bytes = some msg ∧
        ((parties.target client).isRestrictedIp = true ∨
          (UdpSocket.identifier packet.source).isRestrictedIp = true)
  | .pipeline (.invoked _ msg) =>
      ∀ client, msg.sender = some (UdpSocket.identifier (parties.client client)) →
        msg.message.reqId ≠ ipcPingReq ∧ .requested client msg.message ∈ front
  | _ => True

theorem accounts_grows (front back : List (Event κ β δ)) (event : Event κ β δ)
    (accounts : Accounts parties respond front event) :
    Accounts parties respond (front ++ back) event := by
  cases event with
  | returned client msg =>
      rcases accounts with ⟨rfl, ping, isPing, asked⟩ | ⟨request, other, asked, rfl⟩ |
        ⟨packet, came, reached, decoded, restricted⟩
      · exact .inl ⟨rfl, ping, isPing, List.mem_append_left _ asked⟩
      · exact .inr (.inl ⟨request, other, List.mem_append_left _ asked, rfl⟩)
      · exact .inr (.inr ⟨packet, List.mem_append_left _ came, reached, decoded, restricted⟩)
  | pipeline event =>
      cases event with
      | invoked container msg =>
          intro client sender
          obtain ⟨other, asked⟩ := accounts client sender
          exact ⟨other, List.mem_append_left _ asked⟩
      | server | registered | unhandled | handled => trivial
  | requested | strange | responded => trivial

theorem Traced.returned (traced : Traced parties respond net events) (inSent : packet ∈ net.sent)
    {client : κ} (reached : packet.dest = parties.client client) {msg : RawMessage}
    (decoded : RawMessage.deserialize packet.bytes = some msg)
    (heard : UdpSocket.Hears (parties.target client) packet.source) :
    Accounts parties respond events (.returned client msg) := by
  cases traced.sent packet inSent with
  | requested asked => exact absurd reached.symm (parties.others client)
  | strange came =>
      refine .inr (.inr ⟨packet, came, reached, decoded, ?_⟩)
      rcases heard.2 with source | target | ⟨-, same⟩
      · exact .inr source
      · exact .inl target
      · rw [parties.aimed, Option.some.injEq] at same
        exact absurd same.symm (traced.foreign packet came).1
  | @ponged datagram peer came asked =>
      obtain ⟨ping, requested, read⟩ := traced.asked came reached
      obtain ⟨-, other, readOther, isPing⟩ := Server.answered_peer asked
      rw [read, Option.some.injEq] at readOther
      subst readOther
      have same : RawMessage.deserialize pong.bytes = some pong :=
        RawMessage.deserialize_htonl pong.reqId pong.payload
      rw [same, Option.some.injEq] at decoded
      exact .inl ⟨decoded.symm, ping, isPing, requested⟩
  | @responded datagram container came asked =>
      obtain ⟨request, requested, read⟩ := traced.asked came reached
      obtain ⟨sender, readOther, other⟩ := Server.offered_message asked
      rw [read, Option.some.injEq] at readOther
      subst readOther
      have same : RawMessage.deserialize (respond container).bytes = some (respond container) :=
        RawMessage.deserialize_htonl (respond container).reqId (respond container).payload
      rw [same, Option.some.injEq] at decoded
      refine .inr (.inl ⟨container.message, other, requested, ?_⟩)
      have whole : container =
          { message := container.message
            sender := some (UdpSocket.identifier (parties.client client)) } := by
        rw [← (show datagram.address = parties.client client from reached), ← sender]
      rw [← whole]
      exact decoded.symm

theorem identifier_inj {one other : SockaddrIn}
    (same : UdpSocket.identifier one = UdpSocket.identifier other) : one = other := by
  have read := UdpSocket.peer?_identifier one
  rw [same, UdpSocket.peer?_identifier, Option.some.injEq] at read
  exact read.symm

theorem Traced.called (traced : Traced parties respond net events)
    {msg : LinxReceivedMessage PortInfo} {datagram : Datagram SockaddrIn}
    (came : datagram ∈ Internet.arrived events)
    (asked : output? UdpSocket.identifier datagram = some (.offered msg)) (client : κ)
    (sender : msg.sender = some (UdpSocket.identifier (parties.client client))) :
    msg.message.reqId ≠ ipcPingReq ∧ .requested client msg.message ∈ events := by
  obtain ⟨source, read, other⟩ := Server.offered_message asked
  rw [sender, Option.some.injEq] at source
  obtain ⟨request, requested, decoded⟩ := traced.asked came (identifier_inj source).symm
  rw [read, Option.some.injEq] at decoded
  subst decoded
  exact ⟨other, requested⟩

theorem pipeline_accounts {steps : List (Server.Pipeline.Event SockaddrIn β δ PortInfo)}
    (invoked : ∀ msg ∈ (invocations steps).map Prod.snd, ∀ client,
      msg.sender = some (UdpSocket.identifier (parties.client client)) →
        msg.message.reqId ≠ ipcPingReq ∧ .requested client msg.message ∈ events) :
    ∀ event ∈ steps.map .pipeline, Accounts parties respond events event := by
  intro event member
  obtain ⟨step, among, rfl⟩ := List.mem_map.mp member
  cases step with
  | invoked container msg =>
      apply invoked
      exact List.mem_map.mpr
        ⟨(container, msg), List.mem_filterMap.mpr ⟨.invoked container msg, among, rfl⟩, rfl⟩
  | server | registered | unhandled | handled => trivial

section
variable {efd : LinxEventFd} {size : Int32} {actions : List (Action κ β δ)}

theorem run_pipeline (small : ∀ msg, (respond msg).payload.length + 4 < 4294967296)
    (fair : ∀ action ∈ actions, Fair parties action)
    (ran : (machine parties respond).run (create efd size) actions = some (net, events)) :
    ∃ pipelineActions, (∀ action ∈ pipelineActions, action ≠ .server .stop) ∧
      (Server.Pipeline.machine UdpSocket.identifier).run (.create efd size) pipelineActions =
        some (net.pipeline, pipelineEvents events) := by
  have answers : (Server.Pipeline.machine UdpSocket.identifier).Answers
      (fun action => action ≠ .server .stop) (fun net p => net.pipeline = p) (.create efd size) net
      (pipelineEvents events) := by
    refine Machine.run_answered_within rfl (fun _ _ => List.filterMap_append ..) ?_ ?_ fair ran
    · rfl
    intro net p action next emitted _ _ _ _ same allowed stepped
    obtain rfl : net.pipeline = p := same
    have running : action ≠ .pipeline (.server .stop) := by
      rintro rfl
      exact allowed
    obtain ⟨later, noStop, ranLater⟩ := did_pipeline running (step_cases small stepped)
    exact ⟨later, next.pipeline, noStop, ranLater, rfl⟩
  obtain ⟨pipelineActions, p, noStop, ranPipeline, rfl⟩ := answers
  exact ⟨pipelineActions, noStop, ranPipeline⟩

theorem run_traced (small : ∀ msg, (respond msg).payload.length + 4 < 4294967296)
    (fair : ∀ action ∈ actions, Fair parties action)
    (ran : (machine parties respond).run (create efd size) actions = some (net, events)) :
    Traced parties respond net events := by
  revert fair
  refine (machine parties respond).run_invariant
    (motive := fun actions events net =>
      (∀ action ∈ actions, Fair parties action) → Traced parties respond net events)
    ?_ ?_ ran
  · intro _
    exact ⟨List.forall_mem_nil _, List.forall_mem_nil _, .refl _, fun _ => nofun⟩
  · intro actions events net action next emitted ranSoFar held stepped fair
    rw [List.forall_mem_append, List.forall_mem_singleton] at fair
    have traced := held fair.1
    obtain ⟨pipelineActions, noStop, ranPipeline⟩ := run_pipeline small fair.1 ranSoFar
    obtain ⟨offered, answering⟩ := Server.Pipeline.run_asked noStop ranPipeline
    refine traced.did ?_ answering fair.2 (step_cases small stepped)
    intro msg owes
    exact offered msg (traced.invoked.subset (List.mem_append_right _ owes))

/-- Whatever the network loses, delays, reorders and duplicates and whatever others
send: a message that a client's `receive` returns answers a ping of this client, or is
the response to a request of this client, that it sent before; or it was sent by
somebody else, to a client of a group or of everybody or from such an address.  And a
request that a callback gets under the name of a client was sent by this client. -/
theorem udp_messages_genuine (small : ∀ msg, (respond msg).payload.length + 4 < 4294967296)
    (fair : ∀ action ∈ actions, Fair parties action)
    (ran : (machine parties respond).run (create efd size) actions = some (net, events)) :
    Machine.Causal (Accounts parties respond) events := by
  revert fair
  refine (machine parties respond).run_invariant
    (motive := fun actions events _ =>
      (∀ action ∈ actions, Fair parties action) →
        Machine.Causal (Accounts parties respond) events)
    ?_ ?_ ran
  · intro _ front event back split
    simp at split
  · intro actions events net action next emitted ranSoFar held stepped fair
    have fairSoFar := (List.forall_mem_append.mp fair).1
    refine (held fairSoFar).append accounts_grows ?_
    have traced := run_traced small fairSoFar ranSoFar
    have ranNow := (machine parties respond).run_append ranSoFar
      ((machine parties respond).run_single stepped)
    cases step_cases small stepped with
    | returned inSent reached decoded heard =>
        exact List.forall_mem_singleton.mpr (traced.returned inSent reached decoded heard)
    | @pipeline action pipeline steps owed allowed moved kept =>
        obtain ⟨pipelineActions, noStop, ranPipeline⟩ := run_pipeline small fair ranNow
        have offered := (Server.Pipeline.run_asked noStop ranPipeline).1
        refine pipeline_accounts fun msg invoked client sender => ?_
        have among : msg ∈ (invocations
            (pipelineEvents (events ++ steps.map (Event.pipeline (κ := κ))))).map Prod.snd := by
          rw [(logs_append _ _).2.2, pipelineEvents_map, Network.invocations_append,
            List.map_append]
          exact List.mem_append_right _ invoked
        obtain ⟨datagram, came, asked⟩ := offered msg among
        rw [(logs_append _ _).2.2, pipelineEvents_map, Server.Pipeline.serverEvents_append,
          (Server.logs_append _ _).1, Network.pipeline_arrivals
            (Server.Pipeline.step_cases moved) (Internal.pipelineAction allowed),
          List.append_nil] at came
        exact traced.called came asked client sender
    | arrived inSent reached moved =>
        refine pipeline_accounts fun msg invoked => ?_
        rw [(Network.pipeline_arrives moved).2] at invoked
        cases invoked
    | ponged answering moved =>
        refine pipeline_accounts fun msg invoked => ?_
        rw [answer_invokes moved] at invoked
        cases invoked
    | requested | strange | responded => exact List.forall_mem_singleton.mpr trivial
    | notSent | passedOver => exact List.forall_mem_nil _

end

end

def onePair : UdpParties Unit where
  server := ⟨(127, 0, 0, 1), (0, 9)⟩
  serverSocket := ⟨3⟩
  serverOpened := by decide
  client _ := ⟨(127, 0, 0, 1), (0, 10)⟩
  socket _ := ⟨4⟩
  opened := by decide
  target _ := PortInfo.create (ofAscii "127.0.0.1") 9
  aimed := by decide
  distinct := by decide
  others := by decide

def requestSeven : Packet :=
  { source := ⟨(127, 0, 0, 1), (0, 10)⟩, dest := ⟨(127, 0, 0, 1), (0, 9)⟩
    bytes := [0, 0, 0, 7, 1, 2] }

def responseSeven : Packet :=
  { source := ⟨(127, 0, 0, 1), (0, 9)⟩, dest := ⟨(127, 0, 0, 1), (0, 10)⟩, bytes := [0, 0, 0, 107] }

def forgedSeven : Packet :=
  { source := ⟨(10, 0, 0, 9), (0, 9)⟩, dest := ⟨(127, 0, 0, 1), (0, 10)⟩, bytes := [0, 0, 0, 107] }

/-- The network delivers a request twice, and both responses; the client does not take
what somebody else sends it. -/
def deliveredTwice : List (Action Unit Nat Unit) :=
  [.pipeline (.registerCallback 7 1 ()), .pipeline (.server .start),
    .send () ⟨⟨7, [1, 2]⟩, List.replicate 6 0, by decide, by decide⟩ true, .strange forgedSeven,
    .receive () forgedSeven [] 10, .arrive requestSeven, .arrive requestSeven,
    .pipeline (.server .receive), .pipeline (.server (.queue (.lock .worker))),
    .pipeline (.server (.queue (.notify .worker))), .pipeline (.server (.queue (.ret .worker))),
    .pipeline (.handleMessage infiniteTimeout),
    .pipeline (.server (.queue (.lock (.consumer ())))), .pipeline .dispatch,
    .respond (List.replicate 4 0) true, .pipeline (.callbackReturns 0),
    .pipeline (.server .receive), .pipeline (.server (.queue (.lock .worker))),
    .pipeline (.server (.queue (.notify .worker))), .pipeline (.server (.queue (.ret .worker))),
    .pipeline (.handleMessage infiniteTimeout),
    .pipeline (.server (.queue (.lock (.consumer ())))), .pipeline .dispatch,
    .respond (List.replicate 4 0) true, .receive () responseSeven [] 10,
    .receive () responseSeven [] 10]

def plusHundred (msg : LinxReceivedMessage PortInfo) : RawMessage :=
  { reqId := msg.message.reqId + 100, payload := [] }

theorem deliveredTwice_fair : ∀ action ∈ deliveredTwice, Fair onePair action := by
  simp [deliveredTwice, Fair, forgedSeven, onePair]

theorem udp_messages_genuine_twice :
    ∃ (net : Internet Nat Unit) (events : List (Event Unit Nat Unit)),
      (machine onePair plusHundred).run (create ⟨5, 0⟩ 2) deliveredTwice = some (net, events) ∧
      (events.filterMap fun
        | .returned _ msg => some msg
        | _ => none) = [⟨107, []⟩, ⟨107, []⟩] ∧
      Machine.Causal (Accounts onePair plusHundred) events := by
  have ran : (machine onePair plusHundred).run (create ⟨5, 0⟩ 2) deliveredTwice =
    some (_, _) := rfl
  exact ⟨_, _, ran, rfl, udp_messages_genuine (fun _ => by simp [plusHundred])
    deliveredTwice_fair ran⟩

end Internet

end LinxIpc
