import LinxIpc.Network.Settles
import LinxIpc.Unix.Stack

/-!
From the calls of the clients to the callbacks and back, over Unix sockets.

The stack does what a network does whose channels to the server are always empty
and whose channels to the clients are what is pending at their sockets.  So its
requests and responses are paired as they are there.
-/

namespace LinxIpc.UnixStack

variable {κ β δ : Type}

open Endpoint (Represents encode nameAddress nameA nameB)
open PostOffice (Letter Boxes)
open Network (requests calls answered answeredTo)

/-! ### The parties -/

theorem identifier_nameAddress {name : StdString} (noZero : 0 ∉ name) :
    AfUnixSocket.identifier (nameAddress name) = { value := name } := by
  simp only [AfUnixSocket.identifier, nameAddress, List.drop_succ_cons, List.drop_zero,
    cStr_padded_append, cStr_of_not_mem noZero]

theorem route_unique (names : UnixNames κ) {client : κ}
    (known : ∃ other, (names.client other).value = (names.client client).value) :
    known.choose = client :=
  names.distinct _ _ known.choose_spec

open Classical in
noncomputable def peers (names : UnixNames κ) : Peers κ SockaddrUn UnixInfo where
  address client := nameAddress (names.client client).value
  identifier := AfUnixSocket.identifier
  route peer :=
    if known : ∃ client, (names.client client).value = peer.value then some known.choose else none
  routed := by
    intro client
    rw [identifier_nameAddress (names.client client).noZero]
    rw [dif_pos ⟨client, rfl⟩, route_unique]
  server := { value := names.server.value }
  target _ := { value := names.server.value }

theorem route_eq_some_iff (names : UnixNames κ) (peer : UnixInfo) (client : κ) :
    (peers names).route peer = some client ↔ peer = { value := (names.client client).value } := by
  constructor
  · intro routed
    simp only [peers] at routed
    split at routed
    · rename_i known
      obtain rfl := Option.some.inj routed
      rw [known.choose_spec]
    · cases routed
  · rintro rfl
    simp only [peers]
    rw [dif_pos ⟨client, rfl⟩, route_unique]

theorem peers_named (names : UnixNames κ) (client : κ) :
    ((peers names).server == (peers names).target client) = true :=
  beq_self_eq_true names.server.value

theorem peers_container (names : UnixNames κ) (client : κ) (msg : RawMessage) :
    (peers names).container client msg =
      { message := msg, sender := some { value := (names.client client).value } } := by
  have named := identifier_nameAddress (names.client client).noZero
  simp only [Peers.container, peers, named]

/-! ### The sockets -/

theorem locate_some {live : List Endpoint} {name : StdString} {index : Nat} {self : Endpoint}
    (located : locate live name = some (index, self)) :
    live[index]? = some self ∧ self.socket.socketName = name := by
  simp only [locate] at located
  split at located
  · cases located
  · rename_i found position
    obtain ⟨inside, same, -⟩ := List.findIdx?_eq_some_iff_getElem.mp position
    rw [List.getElem?_eq_getElem inside, Option.map_some, Option.some.injEq,
      Prod.mk.injEq] at located
    obtain ⟨rfl, rfl⟩ := located
    exact ⟨List.getElem?_eq_getElem inside, beq_iff_eq.mp same⟩

theorem sendOn_nonpos {σ : Type} {self : AfUnixSocket} {message : IMessage} {dest : UnixInfo}
    {buffer : List UInt8} {sendto : List UInt8 → List UInt8 → σ → Option Nat × σ}
    {kernel after : σ} {result : Int}
    (ran : self.sendOn message dest buffer sendto kernel = some (result, after)) : result ≤ 0 := by
  unfold AfUnixSocket.sendOn at ran
  split at ran
  · cases ran
    decide
  · split at ran
    · cases ran
    · split at ran
      · cases ran
        decide
      · split at ran
        · cases ran
        · split at ran
          · cases ran
            decide
          · split at ran
            · cases ran
              decide
            · cases ran
              decide

/-! ### The stack and the network -/

/-- What is pending at the sockets is in the server's inbox and in the channels to
the clients. -/
structure Holds (names : UnixNames κ) (net : Network κ SockaddrUn β δ UnixInfo)
    (boxes : Boxes StdString RawMessage) : Prop where
  server : ∃ pending, boxes names.server.value = some pending ∧
    net.pipeline.server.inbox = pending.map encode
  client : ∀ client, boxes (names.client client).value =
    some ((net.toClient client).map fun msg => ⟨msg, names.server.value⟩)

structure Refines (names : UnixNames κ) (stack : UnixStack κ β δ)
    (net : Network κ SockaddrUn β δ UnixInfo) : Prop where
  pipeline : net.pipeline = load stack.pipeline net.pipeline.server.inbox
  owed : net.owed = stack.owed
  client : net.client = stack.client
  toServer : net.toServer = fun _ => []
  holds : ∃ boxes, Represents stack.live boxes ∧ Holds names net boxes

theorem Holds.toServer {names : UnixNames κ} {net : Network κ SockaddrUn β δ UnixInfo}
    {boxes : Boxes StdString RawMessage} (holds : Holds names net boxes)
    {pending : List (Letter StdString RawMessage)} {next : Network κ SockaddrUn β δ UnixInfo}
    (inbox : next.pipeline.server.inbox = pending.map encode)
    (channels : next.toClient = net.toClient) :
    Holds names next (Function.update boxes names.server.value (some pending)) := by
  refine ⟨⟨pending, Function.update_self .., inbox⟩, ?_⟩
  intro client
  rw [Function.update_of_ne (names.others client), channels]
  exact holds.client client

variable [DecidableEq κ]

theorem Holds.toClient {names : UnixNames κ} {net next : Network κ SockaddrUn β δ UnixInfo}
    {boxes : Boxes StdString RawMessage} (holds : Holds names net boxes) {client : κ}
    {channel : List RawMessage} (pipeline : next.pipeline = net.pipeline)
    (channels : next.toClient = Function.update net.toClient client channel) :
    Holds names next (Function.update boxes (names.client client).value
      (some (channel.map fun msg => ⟨msg, names.server.value⟩))) := by
  refine ⟨?_, ?_⟩
  · obtain ⟨pending, present, inbox⟩ := holds.server
    refine ⟨pending, ?_, pipeline ▸ inbox⟩
    rw [Function.update_of_ne (names.others client).symm]
    exact present
  · intro other
    rw [channels]
    by_cases same : other = client
    · rw [same, Function.update_self, Function.update_self]
    · have different : (names.client other).value ≠ (names.client client).value :=
        fun equal => same (names.distinct _ _ equal)
      rw [Function.update_of_ne different, Function.update_of_ne same]
      exact holds.client other

def Follows (names : UnixNames κ) (respond : LinxReceivedMessage UnixInfo → RawMessage)
    (net : Network κ SockaddrUn β δ UnixInfo) (next : UnixStack κ β δ)
    (events : List (Network.Event κ SockaddrUn β δ UnixInfo)) : Prop :=
  ∃ actions netNext, (∀ action ∈ actions, action ≠ .pipeline (.server .stop)) ∧
    (Network.machine (peers names) respond).run net actions = some (netNext, events) ∧
    Refines names next netNext

theorem Follows.single {names : UnixNames κ} {respond : LinxReceivedMessage UnixInfo → RawMessage}
    {net netNext : Network κ SockaddrUn β δ UnixInfo} {next : UnixStack κ β δ}
    {action : Network.Action κ SockaddrUn β δ UnixInfo}
    {events : List (Network.Event κ SockaddrUn β δ UnixInfo)}
    (running : action ≠ .pipeline (.server .stop))
    (stepped : net.step (peers names) respond action = some (netNext, events))
    (refines : Refines names next netNext) : Follows names respond net next events :=
  ⟨[action], netNext, List.forall_mem_singleton.mpr running,
    (Network.machine (peers names) respond).run_single stepped, refines⟩

section

variable {names : UnixNames κ} {respond : LinxReceivedMessage UnixInfo → RawMessage}
  {stack : UnixStack κ β δ} {net : Network κ SockaddrUn β δ UnixInfo}
  {boxes : Boxes StdString RawMessage}

/-! ### A request -/

theorem run_requested {κ α β δ ι : Type} [DecidableEq κ] [BEq ι] (parties : Peers κ α ι)
    (respond : LinxReceivedMessage ι → RawMessage) {net : Network κ α β δ ι} {client : κ}
    (idle : net.client client = .idle) (empty : net.toServer client = [])
    (opened : net.pipeline.server.opened = true) {msg : RawMessage}
    (other : msg.reqId ≠ ipcPingReq) (now timeoutMs : Int) :
    (Network.machine parties respond).run net
        [.sendReceive client msg true now timeoutMs, .deliver client] =
      some ({ net with
        pipeline := { net.pipeline with
          server := { net.pipeline.server with
            inbox := net.pipeline.server.inbox ++ [parties.datagram client msg] } }
        client := Function.update net.client client
          (.receiving msg (Deadline.create now timeoutMs)) },
        [.requested client msg, .delivered client msg,
          .pipeline (.server (.arrived (parties.datagram client msg)))]) := by
  have drained : Function.update net.toServer client [] = net.toServer := by
    rw [← empty, Function.update_eq_self]
  simp only [Machine.run, Network.machine, Network.step, idle, if_neg other, if_true, empty,
    List.nil_append, Function.update_self, Server.Pipeline.step, Server.Pipeline.ServerAction,
    Server.State.step, opened, List.map_cons, List.map_nil, Function.update_idem, drained,
    List.append_nil, List.singleton_append]

theorem Refines.requested (refines : Refines names stack net) (holds : Holds names net boxes)
    (opened : net.pipeline.server.opened = true) {client : κ}
    (idle : stack.client client = .idle) {msg : RawMessage} (other : msg.reqId ≠ ipcPingReq)
    (now timeoutMs : Int) {sender : AfUnixSocket}
    (reported : sender.reportedAddress = nameAddress (names.client client).value)
    {pending : List (Letter StdString RawMessage)}
    (present : boxes names.server.value = some pending) {live : List Endpoint}
    (represents : Represents live (Function.update boxes names.server.value
      (some (pending ++ [⟨msg, (names.client client).value⟩])))) :
    Follows names respond net
      { stack with
        live := live
        client := Function.update stack.client client
          (.receiving msg (Deadline.create now timeoutMs)) }
      (sent client msg sender) := by
  obtain ⟨before, atServer, inbox⟩ := holds.server
  rw [present] at atServer
  cases atServer
  have atClient : net.client client = .idle := by
    rw [refines.client]
    exact idle
  have empty : net.toServer client = [] := by rw [refines.toServer]
  have ran := run_requested (peers names) respond atClient empty opened other now timeoutMs
  rw [sent, reported]
  refine ⟨_, _, ?_, ran, ?_⟩
  · simp
  · refine ⟨?_, refines.owed, by rw [refines.client], refines.toServer, _, represents, ?_⟩
    · rw [refines.pipeline]
      rfl
    · refine holds.toServer ?_ rfl
      rw [List.map_append, ← inbox]
      rfl

theorem Refines.sendReceive (refines : Refines names stack net)
    (opened : net.pipeline.server.opened = true) {client : κ} {request : Prepared}
    {room : Bool} {now timeoutMs : Int} {next : UnixStack κ β δ}
    {events : List (Network.Event κ SockaddrUn β δ UnixInfo)}
    (stepped : stack.step names respond (.sendReceive client request room now timeoutMs) =
      some (next, events)) : Follows names respond net next events := by
  obtain ⟨boxes, represents, holds⟩ := refines.holds
  simp only [step] at stepped
  split at stepped
  · rename_i index self idle located
    obtain ⟨here, named⟩ := locate_some located
    have member := List.mem_of_getElem? here
    split at stepped
    · cases stepped
    · rename_i other
      obtain ⟨result, live, after, sentOn, posted, represented⟩ :=
        represents.sends member (request.outgoing names.server) room
      have ran : self.socket.sendOn request.msg.toIMessage { value := names.server.value }
          request.buffer (Endpoint.sendto self.socket room) stack.live =
            some (result, live) := sentOn
      rw [named] at posted
      simp only [ran] at stepped
      rcases PostOffice.posts_cases posted with ⟨arrived, pending, present, rfl⟩ | ⟨lost, rfl⟩
      · obtain rfl := of_decide_eq_true arrived
        rw [if_neg (Int.lt_irrefl 0)] at stepped
        cases stepped
        refine refines.requested holds opened idle other now timeoutMs ?_ present represented
        rw [represents.reportedAddress member, named]
      · have failed : result < 0 := by
          have nonpos := sendOn_nonpos ran
          have nonzero := of_decide_eq_false lost
          omega
        rw [if_pos failed] at stepped
        cases stepped
        have atClient : net.client client = .idle := by
          rw [refines.client]
          exact idle
        have answered : net.step (peers names) respond
            (.sendReceive client request.msg false now timeoutMs) =
              some (net, [.finished client
                { request := request.msg, sent := false, result := none }]) := by
          simp only [Network.step, atClient, if_neg other, Bool.false_eq_true, if_false]
        refine .single (by simp) answered ?_
        exact ⟨refines.pipeline, refines.owed, refines.client, refines.toServer, _, represented,
          holds⟩
  · cases stepped

/-! ### A pass of `receive` -/

theorem receiveBody_delivered (server : UnixInfo) (msg : RawMessage) :
    Client.receiveBody server [] (Client.delivered server msg) = .finish (some msg) := by
  have named : (server == server) = true := beq_self_eq_true server.value
  have body := Client.Link.receiveBody_delivered ⟨server, server, server⟩ [] msg
  simp only [matchesFilter, matchesFrom, named, matchesSignalSelector, List.length_nil,
    beq_self_eq_true, Bool.true_or, Bool.and_true, if_true] at body
  exact body

theorem delivered_eq (sender : UnixInfo) (msg : RawMessage) :
    Client.delivered sender msg =
      { result := (msg.payload.length + 4 : Nat), stored := some (msg, sender) } := by
  have size : (4 + msg.payload.length : Int) = (msg.payload.length + 4 : Nat) := by omega
  rw [Client.delivered, size]

theorem Refines.gaveUp (refines : Refines names stack net)
    (represents : Represents stack.live boxes) (holds : Holds names net boxes) {client : κ}
    {request : RawMessage} {deadline : Deadline}
    (receiving : net.client client = .receiving request deadline) :
    Follows names respond net
      { stack with client := Function.update stack.client client .idle }
      [.finished client { request := request, sent := true, result := none }] := by
  have answered : net.step (peers names) respond (.giveUp client) =
      some ({ net with client := Function.update net.client client .idle },
        [.finished client { request := request, sent := true, result := none }]) := by
    simp only [Network.step, receiving]
  refine .single (by simp) answered ?_
  exact ⟨refines.pipeline, refines.owed, by rw [refines.client], refines.toServer, boxes,
    represents, ⟨holds.server, holds.client⟩⟩

theorem Refines.took (refines : Refines names stack net) (holds : Holds names net boxes)
    {client : κ} {request msg : RawMessage} {rest : List RawMessage} {deadline : Deadline}
    (receiving : net.client client = .receiving request deadline)
    (atHead : net.toClient client = msg :: rest) (later : Int) {live : List Endpoint}
    (represents : Represents live (Function.update boxes (names.client client).value
      (some (rest.map fun msg => ⟨msg, names.server.value⟩)))) :
    Follows names respond net
      { stack with live := live, client := Function.update stack.client client .idle }
      [.finished client { request := request, sent := true, result := some msg }] := by
  have body : Client.receiveBody ((peers names).target client) []
      (Client.delivered (peers names).server msg) = .finish (some msg) :=
    receiveBody_delivered _ msg
  have answered : net.step (peers names) respond (.take client later) =
      some ({ net with
        client := Function.update net.client client .idle
        toClient := Function.update net.toClient client rest },
        [.finished client { request := request, sent := true, result := some msg }]) := by
    simp only [Network.step, atHead, Network.taken, receiving, body]
  refine .single (by simp) answered ?_
  exact ⟨refines.pipeline, refines.owed, by rw [refines.client], refines.toServer, _,
    represents, holds.toClient rfl rfl⟩

theorem Refines.receive (refines : Refines names stack net) {client : κ} {now later : Int}
    {next : UnixStack κ β δ} {events : List (Network.Event κ SockaddrUn β δ UnixInfo)}
    (stepped : stack.step names respond (.receive client now later) = some (next, events)) :
    Follows names respond net next events := by
  obtain ⟨boxes, represents, holds⟩ := refines.holds
  simp only [step] at stepped
  split at stepped
  · rename_i request deadline index self receiving located
    obtain ⟨here, named⟩ := locate_some located
    have atClient : net.client client = .receiving request deadline := by
      rw [refines.client]
      exact receiving
    split at stepped
    · cases stepped
    · rename_i received inbox ran
      rcases represents.receives here ran with ⟨empty, rfl, same⟩ |
        ⟨letter, rest, present, rfl, represented⟩
      · rw [same] at stepped
        cases stepped
        exact refines.gaveUp represents holds atClient
      · have atBox := holds.client client
        rw [← named, present, Option.some.injEq, eq_comm, List.map_eq_cons_iff] at atBox
        obtain ⟨msg, unread, atHead, rfl, rfl⟩ := atBox
        rw [named] at represented
        rw [← delivered_eq, receiveBody_delivered] at stepped
        cases stepped
        exact refines.took holds atClient atHead later represented
  · cases stepped

/-! ### The server and its handler -/

omit [DecidableEq κ] in
theorem server_inbox {α ι : Type} [BEq ι] {identifier : α → ι} {s next : Server.State Unit α ι}
    {action : Server.Action Unit α ι} {events : List (Server.Event Unit α ι)}
    (did : Server.State.Did identifier s action next events)
    (other : ∀ datagram, action ≠ .arrive datagram) :
    next.inbox = s.inbox ∨ ∃ datagram, s.inbox = datagram :: next.inbox := by
  cases did with
  | arrived datagram opened => exact absurd rfl (other datagram)
  | @left datagram rest receiving opened atHead malformed => exact .inr ⟨datagram, atHead⟩
  | @pinged datagram rest peer receiving opened atHead asked => exact .inr ⟨datagram, atHead⟩
  | @offered datagram rest msg receiving opened atHead asked quiet => exact .inr ⟨datagram, atHead⟩
  | failed | answered | queue | alreadyStarted | started | stopping | notStarted | joined =>
      exact .inl rfl

omit [DecidableEq κ] in
theorem pipeline_inbox {α ι : Type} [BEq ι] {identifier : α → ι}
    {p next : Server.Pipeline α β δ ι} {action : Server.Pipeline.Action α β δ ι}
    {events : List (Server.Pipeline.Event α β δ ι)}
    (did : Server.Pipeline.Did identifier p action next events)
    (allowed : Network.PipelineAction action = true) :
    next.server.inbox = p.server.inbox ∨
      ∃ datagram, p.server.inbox = datagram :: next.server.inbox := by
  cases did with
  | server permitted stepped =>
      refine server_inbox (Server.State.step_cases stepped) ?_
      rintro datagram rfl
      cases allowed
  | called free stepped => exact server_inbox (Server.State.step_cases stepped) (by simp)
  | dispatched returning stepped =>
      rw [Server.Pipeline.afterReceive_server]
      exact server_inbox (Server.State.step_cases stepped) (by simp)
  | registered | left => exact .inl rfl

omit [DecidableEq κ] in
theorem Holds.server_inbox (holds : Holds names net boxes)
    (represents : Represents stack.live boxes) {index : Nat} {self : Endpoint}
    (here : stack.live[index]? = some self)
    (named : self.socket.socketName = names.server.value) :
    self.inbox = net.pipeline.server.inbox := by
  obtain ⟨pending, present, inbox⟩ := holds.server
  obtain ⟨letters, atBox, -, stored⟩ := represents.boxed self (List.mem_of_getElem? here)
  rw [named, present] at atBox
  cases atBox
  rw [stored, inbox]

omit [DecidableEq κ] in
theorem Holds.served (holds : Holds names net boxes) (represents : Represents stack.live boxes)
    {index : Nat} {self : Endpoint} (here : stack.live[index]? = some self)
    (named : self.socket.socketName = names.server.value) {next : Network κ SockaddrUn β δ UnixInfo}
    (channels : next.toClient = net.toClient)
    (inbox : next.pipeline.server.inbox = net.pipeline.server.inbox ∨
      ∃ datagram, net.pipeline.server.inbox = datagram :: next.pipeline.server.inbox) :
    ∃ after, Represents
        (stack.live.set index { self with inbox := next.pipeline.server.inbox }) after ∧
      Holds names next after := by
  have loaded := holds.server_inbox represents here named
  rcases inbox with same | ⟨datagram, atHead⟩
  · refine ⟨boxes, ?_, ⟨?_, ?_⟩⟩
    · rw [same, ← loaded]
      obtain ⟨inside, there⟩ := List.getElem?_eq_some_iff.mp here
      rw [← there, List.set_getElem_self inside]
      exact represents
    · rw [same]
      exact holds.server
    · rw [channels]
      exact holds.client
  · have opened := (represents.sound.bound _
      (List.mem_map_of_mem (List.mem_of_getElem? here))).1
    have ran : (AfUnixSocket.receive self.socket.fd 0).runOn self.inbox =
        some (received AfUnixSocket.identifier datagram, next.pipeline.server.inbox) := by
      rw [loaded, atHead]
      exact socketReceive_runOn _ opened 0 datagram _
    obtain ⟨pending, present, stored⟩ := holds.server
    rcases represents.receives here ran with ⟨empty, -, -⟩ |
      ⟨letter, rest, atBox, -, represented⟩
    · rw [named, present] at empty
      cases empty
      rw [atHead] at stored
      cases stored
    · rw [named, present] at atBox
      cases atBox
      rw [atHead, List.map_cons, List.cons.injEq] at stored
      rw [named] at represented
      exact ⟨_, represented, holds.toServer stored.2 channels⟩

theorem Refines.pipelined (refines : Refines names stack net)
    {action : Server.Pipeline.Action SockaddrUn β δ UnixInfo} (running : action ≠ .server .stop)
    {next : UnixStack κ β δ} {events : List (Network.Event κ SockaddrUn β δ UnixInfo)}
    (stepped : stack.step names respond (.pipeline action) = some (next, events)) :
    Follows names respond net next events := by
  obtain ⟨boxes, represents, holds⟩ := refines.holds
  simp only [step] at stepped
  split at stepped
  · rename_i allowed
    split at stepped
    · cases stepped
    · rename_i index self located
      obtain ⟨here, named⟩ := locate_some located
      have loaded : load stack.pipeline self.inbox = net.pipeline := by
        rw [holds.server_inbox represents here named]
        exact refines.pipeline.symm
      rw [loaded] at stepped
      split at stepped
      · cases stepped
      · rename_i pipeline emitted moved
        split at stepped
        · cases stepped
        · rename_i owed kept
          cases stepped
          have answered : net.step (peers names) respond (.pipeline action) =
              some ({ net with pipeline := pipeline, owed := owed }, emitted.map .pipeline) := by
            have step : net.pipeline.step (peers names).identifier action =
                some (pipeline, emitted) := moved
            simp only [Network.step, allowed, if_true, step, refines.owed, kept]
          have inbox := pipeline_inbox (Server.Pipeline.step_cases moved) allowed
          let following : Network κ SockaddrUn β δ UnixInfo :=
            { net with pipeline := pipeline, owed := owed }
          obtain ⟨after, represented, held⟩ := holds.served represents here named
            (show following.toClient = net.toClient from rfl) inbox
          refine .single ?_ answered ?_
          · simpa using running
          · exact ⟨rfl, rfl, refines.client, refines.toServer, after, represented, held⟩
  · cases stepped

/-! ### A response -/

theorem Refines.responded (refines : Refines names stack net)
    (small : ∀ msg, (respond msg).payload.length + 4 < 4294967296)
    (senders : ∀ msg ∈ net.owed.filterMap id, ∃ client,
      msg.sender = some { value := (names.client client).value })
    {buffer : List UInt8} {next : UnixStack κ β δ}
    {events : List (Network.Event κ SockaddrUn β δ UnixInfo)}
    (stepped : stack.step names respond (.respond buffer) = some (next, events)) :
    Follows names respond net next events := by
  obtain ⟨boxes, represents, holds⟩ := refines.holds
  simp only [step] at stepped
  split at stepped
  · rename_i msg rest index self outside atHead located
    obtain ⟨here, named⟩ := locate_some located
    have member := List.mem_of_getElem? here
    have owes : net.owed = some msg :: rest := by
      rw [refines.owed]
      exact atHead
    obtain ⟨client, sender⟩ := senders msg (by rw [owes]; exact List.mem_cons_self)
    simp only [Server.sendResponse, sender, if_true] at stepped
    split at stepped
    · rename_i size
      let letter : Outgoing :=
        { msg := respond msg, dest := { value := (names.client client).value }, buffer := buffer
          small := small msg, size := size
          fits := Nat.le_succ_of_le (names.client client).short }
      obtain ⟨result, live, after, sentOn, posted, represented⟩ :=
        represents.sends member letter true
      have ran : self.socket.sendOn (respond msg).toIMessage
          { value := (names.client client).value } buffer (Endpoint.sendto self.socket true)
          stack.live = some (result, live) := sentOn
      simp only [ran] at stepped
      cases stepped
      have atBox := holds.client client
      obtain ⟨own, present, -⟩ := represents.boxed self member
      simp only [PostOffice.step, present, letter, atBox, Option.some.injEq, Prod.mk.injEq]
        at posted
      obtain ⟨rfl, -⟩ := posted
      have routed : (peers names).route { value := (names.client client).value } = some client :=
        (route_eq_some_iff names _ client).mpr rfl
      have quiet : net.pipeline.receiving = false := by
        rw [refines.pipeline]
        exact outside
      have answered : net.step (peers names) respond .respond =
          some ({ net with
            owed := none :: rest
            toClient := Function.update net.toClient client
              (net.toClient client ++ [respond msg]) }, [.responded msg]) := by
        simp only [Network.step, quiet, owes, Server.sendResponse, sender, if_true, routed]
      refine .single (by simp) answered ?_
      refine ⟨refines.pipeline, rfl, refines.client, refines.toServer, _, represented, ?_⟩
      have appended : (net.toClient client).map (fun msg =>
            (⟨msg, names.server.value⟩ : Letter StdString RawMessage)) ++
            [⟨respond msg, names.server.value⟩] =
          (net.toClient client ++ [respond msg]).map fun msg => ⟨msg, names.server.value⟩ := by
        rw [List.map_append, List.map_singleton]
      rw [named, appended]
      exact holds.toClient rfl rfl
    · cases stepped
  · cases stepped

end

/-! ### Whole runs -/

/-- The sockets of the server and of all clients are open, and nothing is pending. -/
structure Begins (names : UnixNames κ) (live : List Endpoint) : Prop where
  reached : Endpoint.machine.Reachable [] live
  server : ∃ endpoint ∈ live, endpoint.socket.socketName = names.server.value ∧ endpoint.inbox = []
  client : ∀ client, ∃ endpoint ∈ live,
    endpoint.socket.socketName = (names.client client).value ∧ endpoint.inbox = []

theorem empty_box {live : List Endpoint} {boxes : Boxes StdString RawMessage}
    (represents : Represents live boxes) {name : StdString}
    (silent : ∃ endpoint ∈ live, endpoint.socket.socketName = name ∧ endpoint.inbox = []) :
    boxes name = some [] := by
  obtain ⟨endpoint, member, named, empty⟩ := silent
  obtain ⟨letters, present, -, stored⟩ := represents.boxed endpoint member
  rw [empty, eq_comm, List.map_eq_nil_iff] at stored
  rw [← named, present, stored]

omit [DecidableEq κ] in
theorem Begins.refines {names : UnixNames κ} {live : List Endpoint} (begins : Begins names live)
    (efd : LinxEventFd) (size : Int32) :
    Refines names (start (β := β) (δ := δ) efd size live) (Network.create efd size) := by
  obtain ⟨actions, events, ran⟩ := begins.reached
  obtain ⟨acts, boxes, -, represents⟩ := Endpoint.sockets_answer_as_post_office ran
  refine ⟨rfl, rfl, rfl, rfl, boxes, represents, ⟨[], ?_, rfl⟩, ?_⟩
  · exact empty_box represents begins.server
  · intro client
    exact empty_box represents (begins.client client)

section

variable {names : UnixNames κ} {respond : LinxReceivedMessage UnixInfo → RawMessage}
  {live : List Endpoint} {efd : LinxEventFd} {size : Int32} {actions : List (Action κ β δ)}
  {stack : UnixStack κ β δ} {events : List (Network.Event κ SockaddrUn β δ UnixInfo)}

/-- Every run of the stack is one of the network. -/
theorem run_refines (small : ∀ msg, (respond msg).payload.length + 4 < 4294967296)
    (begins : Begins names live)
    (running : ∀ action ∈ actions, action ≠ .pipeline (.server .stop))
    (ran : (machine names respond).run (start efd size live) actions = some (stack, events)) :
    Follows names respond (Network.create efd size) stack events := by
  show (Network.machine (peers names) respond).Answers _ (Refines names) _ stack (id events)
  refine Machine.run_answered_within rfl (fun _ _ => rfl) (begins.refines efd size) ?_ running ran
  intro stack net action next emitted netActions _ noStop ranNet refines running stepped
  cases action with
  | sendReceive client request room now timeoutMs =>
      obtain ⟨pipelineActions, serves, ranPipeline⟩ := Network.run_pipeline noStop ranNet
      exact refines.sendReceive (Server.Pipeline.run_opened serves ranPipeline) stepped
  | receive client now later => exact refines.receive stepped
  | pipeline action => exact refines.pipelined (by simpa using running) stepped
  | respond buffer =>
      refine refines.responded small ?_ stepped
      intro msg owes
      obtain ⟨client, request, rfl⟩ := Network.run_owed noStop ranNet msg owes
      rw [peers_container]
      exact ⟨client, rfl⟩

def answeredFrom (names : UnixNames κ) (client : κ)
    (events : List (Network.Event κ SockaddrUn β δ UnixInfo)) :
    List (LinxReceivedMessage UnixInfo) :=
  (answered events).filter fun msg =>
    decide (msg.sender = some { value := (names.client client).value })

theorem answeredTo_peers (names : UnixNames κ) (client : κ)
    (events : List (Network.Event κ SockaddrUn β δ UnixInfo)) :
    answeredTo (peers names) client events = answeredFrom names client events := by
  refine List.filter_congr fun msg _ => ?_
  rw [decide_eq_decide]
  cases msg.sender with
  | none => simp
  | some peer => rw [Option.bind_some, route_eq_some_iff, Option.some.injEq]

/-- Clients, a server that is not stopped and its handler on Unix sockets.  As long as
every earlier call of a client has returned a message, a message that a call returns
is the response to its own request, whole and from its own server.  A request is
answered at most once, and what is pending at the socket of a client are the
responses to requests of its own that no call has returned. -/
theorem unix_responses_paired
    (small : ∀ msg, (respond msg).payload.length + 4 < 4294967296)
    (begins : Begins names live)
    (running : ∀ action ∈ actions, action ≠ .pipeline (.server .stop))
    (ran : (machine names respond).run (start efd size live) actions = some (stack, events))
    (client : κ) :
    (∀ front call back, calls client events = front ++ call :: back →
      (∀ earlier ∈ front, earlier.result ≠ none) →
      ∀ response, call.result = some response →
        response = respond { message := call.request,
                             sender := some { value := (names.client client).value } }) ∧
    (answeredFrom names client events).Subperm
      ((requests client events).map fun request =>
        { message := request, sender := some { value := (names.client client).value } }) ∧
    ∃ unread, (answeredFrom names client events).map respond =
        (calls client events).filterMap Network.Call.result ++ unread ∧
      ∃ endpoint ∈ stack.live, endpoint.socket.socketName = (names.client client).value ∧
        endpoint.inbox = unread.map fun msg => encode ⟨msg, names.server.value⟩ := by
  obtain ⟨netActions, net, noStop, ranNet, refines⟩ := run_refines small begins running ran
  obtain ⟨paired, once, returned, -, -⟩ := Network.responses_paired noStop ranNet client
  have containers : (peers names).container client = fun request =>
      { message := request, sender := some { value := (names.client client).value } } :=
    funext (peers_container names client)
  rw [containers] at paired once
  rw [answeredTo_peers] at once
  refine ⟨paired, once, net.toClient client, ?_, ?_⟩
  · rw [← answeredTo_peers]
    exact returned (peers_named names client)
  · obtain ⟨boxes, represents, holds⟩ := refines.holds
    have atBox := holds.client client
    obtain ⟨endpoint, member, named⟩ :=
      represents.owned (names.client client).value (by rw [atBox]; exact Option.some_ne_none _)
    obtain ⟨letters, present, -, stored⟩ := represents.boxed endpoint member
    rw [named, atBox] at present
    cases present
    refine ⟨endpoint, member, named, ?_⟩
    rw [stored, List.map_map]
    rfl

end

def oneClient : UnixNames Unit where
  server := nameB
  client _ := nameA
  distinct := by decide
  others := by decide

def bothOpen : List Endpoint :=
  [{ socket := { fd := 3, address := nameAddress nameB.value, socketName := nameB.value }
     inbox := [] },
    { socket := { fd := 4, address := nameAddress nameA.value, socketName := nameA.value }
      inbox := [] }]

/-- The client has read the response to its first request, and the response to its
second request is pending at its socket. -/
theorem unix_responses_paired_second_pending :
    ∃ (stack : UnixStack Unit Nat Unit) (unread : List RawMessage),
      [⟨107, []⟩, ⟨108, []⟩] = [⟨107, []⟩] ++ unread ∧
      ∃ endpoint ∈ stack.live, endpoint.socket.socketName = nameA.value ∧
        endpoint.inbox = unread.map fun msg => encode ⟨msg, nameB.value⟩ := by
  have opened : Endpoint.machine.run [] [.opens nameA 4, .opens nameB 3] = some (bothOpen, _) := rfl
  have begins : Begins oneClient bothOpen :=
    { reached := ⟨_, _, opened⟩
      server := ⟨_, .head _, rfl, rfl⟩
      client := fun _ => ⟨_, .tail _ (.head _), rfl, rfl⟩ }
  have ran : (machine oneClient fun msg => ⟨msg.message.reqId + 100, []⟩).run
      (start (β := Nat) (δ := Unit) ⟨5, 0⟩ 2 bothOpen)
    [.pipeline (.registerCallback 7 1 ()), .pipeline (.registerCallback 8 2 ()),
      .pipeline (.server .start),
      .sendReceive () ⟨⟨7, [1]⟩, List.replicate 5 0, by decide, by decide⟩ true 0 50,
      .pipeline (.server .receive), .pipeline (.server (.queue (.lock .worker))),
      .pipeline (.server (.queue (.notify .worker))), .pipeline (.server (.queue (.ret .worker))),
      .pipeline (.handleMessage infiniteTimeout),
      .pipeline (.server (.queue (.lock (.consumer ())))), .pipeline .dispatch,
      .respond (List.replicate 4 0), .pipeline (.callbackReturns 0), .receive () 1 2,
      .sendReceive () ⟨⟨8, [2]⟩, List.replicate 5 0, by decide, by decide⟩ true 3 50,
      .pipeline (.server .receive), .pipeline (.server (.queue (.lock .worker))),
      .pipeline (.server (.queue (.notify .worker))), .pipeline (.server (.queue (.ret .worker))),
      .pipeline (.handleMessage infiniteTimeout),
      .pipeline (.server (.queue (.lock (.consumer ())))), .pipeline .dispatch,
      .respond (List.replicate 4 0)] = some (_, _) := rfl
  obtain ⟨-, -, unread, answers, present⟩ :=
    unix_responses_paired (fun _ => by simp) begins (by simp) ran ()
  exact ⟨_, unread, answers, present⟩

end LinxIpc.UnixStack
