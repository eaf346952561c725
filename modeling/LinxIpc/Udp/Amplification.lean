import LinxIpc.Udp.Genuine

/-!
How much a server sends.

A server answers whoever writes to it, without knowing them.  What it sends is
bounded by what it gets, address by address.
-/

namespace LinxIpc

namespace Server

variable {α β δ ι γ : Type}

def Output.give (answer : ι → Option γ) (offer : LinxReceivedMessage ι → Option γ) :
    Output ι → Option γ
  | .answered peer => answer peer
  | .offered msg => offer msg

theorem outputs_give (answer : ι → Option γ) (offer : LinxReceivedMessage ι → Option γ)
    (outputs : List (Output ι)) :
    ((outputs.filterMap Output.answered?).filterMap answer ++
      (outputs.filterMap Output.offered?).filterMap offer).Perm
        (outputs.filterMap (Output.give answer offer)) := by
  induction outputs with
  | nil => exact .refl _
  | cons output rest ih =>
      cases output with
      | answered peer =>
          simp only [List.filterMap_cons, Output.answered?, Output.offered?, Output.give]
          cases answer peer with
          | none => exact ih
          | some value => exact ih.cons value
      | offered msg =>
          simp only [List.filterMap_cons, Output.answered?, Output.offered?, Output.give]
          cases offer msg with
          | none => exact ih
          | some value => exact List.perm_middle.trans (ih.cons value)

theorem outputs_sublist {identifier : α → ι} {give : Output ι → Option γ} {value : Datagram α → γ}
    (gives : ∀ datagram output other, output? identifier datagram = some output →
      give output = some other → other = value datagram) (datagrams : List (Datagram α)) :
    ((outputs identifier datagrams).filterMap give).Sublist (datagrams.map value) := by
  induction datagrams with
  | nil => exact .slnil
  | cons datagram rest ih =>
      rw [List.map_cons, outputs, List.filterMap_cons]
      cases asked : output? identifier datagram with
      | none => exact ih.cons _
      | some output =>
          simp only [List.filterMap_cons]
          cases given : give output with
          | none => exact ih.cons _
          | some other =>
              rw [gives datagram output other asked given]
              exact ih.cons_cons _

variable [BEq ι]

theorem Pipeline.run_pings {identifier : α → ι} {efd : LinxEventFd} {size : Int32}
    {actions : List (Action α β δ ι)} {p : Pipeline α β δ ι} {events : List (Event α β δ ι)}
    (running : ∀ action ∈ actions, action ≠ .server .stop)
    (ran : (machine identifier).run (create efd size) actions = some (p, events)) :
    (ponged (serverEvents events)).Sublist
      (pings identifier (arrivals (serverEvents events))) := by
  obtain ⟨serverActions, ranServer⟩ := run_server ran
  have flow := State.run_flow ranServer
  rw [flow.arrived, pings_append, ← flow.answered (run_opened running ran), List.append_assoc]
  exact List.sublist_append_left _ _

end Server

namespace Internet

variable {κ β δ : Type}

open Server (arrivals ponged output?)
open Server.Pipeline (invocations serverEvents)

def fromServer (parties : UdpParties κ) (sent : List Packet) : List SockaddrIn :=
  (sent.filter fun packet => decide (packet.source = parties.server)).map Packet.dest

def answers (events : List (Event κ β δ)) : List SockaddrIn :=
  (ponged (serverEvents (pipelineEvents events))).filterMap UdpSocket.peer? ++
    (responded events).filterMap fun msg => msg.sender.bind UdpSocket.peer?

theorem answers_append (front back : List (Event κ β δ)) :
    (answers (front ++ back)).Perm (answers front ++ answers back) := by
  obtain ⟨-, responses, steps⟩ := logs_append front back
  rw [answers, responses, steps, Server.Pipeline.serverEvents_append, ponged,
    List.filterMap_append, List.filterMap_append, List.filterMap_append, answers, answers,
    List.append_assoc, List.append_assoc]
  exact (List.perm_append_comm_assoc _ _ _).append_left _

section
variable {parties : UdpParties κ} {respond : LinxReceivedMessage PortInfo → RawMessage}
  {net next : Internet β δ} {events emitted : List (Event κ β δ)}

theorem fromServer_append (front back : List Packet) :
    fromServer parties (front ++ back) = fromServer parties front ++ fromServer parties back := by
  rw [fromServer, List.filter_append, List.map_append]
  rfl

theorem fromServer_other {packet : Packet} (other : packet.source ≠ parties.server) :
    fromServer parties [packet] = [] := by
  rw [fromServer, List.filter_cons_of_neg (by simpa using other)]
  rfl

theorem fromServer_replied (peer : PortInfo) (message : RawMessage) (goes : Bool) :
    (fromServer parties (replied parties peer message goes)).Sublist
      ([peer].filterMap UdpSocket.peer?) := by
  unfold replied
  split
  · rename_i address peered
    simp [fromServer, peered]
  · exact List.nil_sublist _

theorem did_answers {action : Action κ β δ} (opened : net.pipeline.server.opened = true)
    (fair : Fair parties action) (did : Did parties respond net action next emitted) :
    ∃ more, next.sent = net.sent ++ more ∧
      (fromServer parties more).Sublist (answers emitted) := by
  cases did with
  | @requested client prepared =>
      refine ⟨_, rfl, ?_⟩
      rw [fromServer_other (parties.others client)]
      exact List.nil_sublist _
  | @strange packet =>
      refine ⟨_, rfl, ?_⟩
      rw [fromServer_other fair.1]
      exact List.nil_sublist _
  | @ponged buffer goes peer pipeline steps answering stepped =>
      refine ⟨_, rfl, ?_⟩
      have sent : ponged (serverEvents steps) = [peer] := by
        cases Server.Pipeline.step_cases stepped with
        | server allowed moved =>
            rw [Server.Pipeline.serverEvents_map]
            cases Server.State.step_cases moved with
            | answered atWorker =>
                rw [answering] at atWorker
                cases atWorker
                rw [opened]
                rfl
      rw [answers, pipelineEvents_map, sent]
      exact (fromServer_replied peer pong goes).trans (List.sublist_append_left _ _)
  | @responded buffer goes msg rest peer atHead sender =>
      refine ⟨_, rfl, ?_⟩
      have one : answers [(.responded msg : Event κ β δ)] = [peer].filterMap UdpSocket.peer? := by
        have asked : ([msg].filterMap fun msg => msg.sender.bind UdpSocket.peer?) =
            [peer].filterMap UdpSocket.peer? := by
          simp only [List.filterMap_cons, sender, Option.bind_some, List.filterMap_nil]
        exact asked
      rw [one]
      exact fromServer_replied peer (respond msg) goes
  | notSent | returned | passedOver | arrived | pipeline =>
      exact ⟨[], (List.append_nil _).symm, List.nil_sublist _⟩

variable {efd : LinxEventFd} {size : Int32} {actions : List (Action κ β δ)}

theorem run_answers (small : ∀ msg, (respond msg).payload.length + 4 < 4294967296)
    (fair : ∀ action ∈ actions, Fair parties action)
    (ran : (machine parties respond).run (create efd size) actions = some (net, events)) :
    (fromServer parties net.sent).Subperm (answers events) := by
  revert fair
  refine (machine parties respond).run_invariant
    (motive := fun actions events net =>
      (∀ action ∈ actions, Fair parties action) →
        (fromServer parties net.sent).Subperm (answers events))
    (fun _ => .refl _) ?_ ran
  intro actions events net action next emitted ranSoFar held stepped fair
  rw [List.forall_mem_append, List.forall_mem_singleton] at fair
  obtain ⟨pipelineActions, noStop, ranPipeline⟩ := run_pipeline small fair.1 ranSoFar
  obtain ⟨more, grown, among⟩ := did_answers (Server.Pipeline.run_opened noStop ranPipeline)
    fair.2 (step_cases small stepped)
  rw [grown, fromServer_append]
  exact ((held fair.1).append among.subperm).trans (answers_append events emitted).symm.subperm

/-- The server sends nowhere more datagrams than have arrived from there, whatever
they contain and however many arrive. -/
theorem udp_no_amplification (small : ∀ msg, (respond msg).payload.length + 4 < 4294967296)
    (fair : ∀ action ∈ actions, Fair parties action)
    (ran : (machine parties respond).run (create efd size) actions = some (net, events)) :
    (fromServer parties net.sent).Subperm ((arrived events).map Datagram.address) := by
  obtain ⟨pipelineActions, noStop, ranPipeline⟩ := run_pipeline small fair ran
  have pongs := Server.Pipeline.run_pings noStop ranPipeline
  have invoked := Server.Pipeline.run_invocations noStop ranPipeline
  have traced := run_traced small fair ran
  obtain ⟨order, reordered, among⟩ : (responded events).Subperm
      (Server.messages UdpSocket.identifier (arrived events)) :=
    (List.sublist_append_left _ _).subperm.trans (traced.invoked.subperm.trans invoked.subperm)
  obtain ⟨messages, pings⟩ := Server.outputs_split UdpSocket.identifier (arrived events)
  have given := Server.outputs_give UdpSocket.peer?
    (fun msg => msg.sender.bind UdpSocket.peer?)
    (Server.outputs UdpSocket.identifier (arrived events))
  rw [messages, pings] at given
  have sources : ((Server.outputs UdpSocket.identifier (arrived events)).filterMap
      (Server.Output.give UdpSocket.peer? fun msg => msg.sender.bind UdpSocket.peer?)).Sublist
      ((arrived events).map Datagram.address) := by
    refine Server.outputs_sublist ?_ (arrived events)
    intro datagram output address asked given
    cases output with
    | answered peer =>
        obtain ⟨rfl, -⟩ := Server.answered_peer asked
        rw [Server.Output.give, UdpSocket.peer?_identifier] at given
        exact (Option.some.inj given).symm
    | offered msg =>
        obtain ⟨sender, -⟩ := Server.offered_message asked
        rw [Server.Output.give, sender, Option.bind_some, UdpSocket.peer?_identifier] at given
        exact (Option.some.inj given).symm
  have responses : ((responded events).filterMap fun msg =>
      msg.sender.bind UdpSocket.peer?).Subperm
      ((Server.messages UdpSocket.identifier (arrived events)).filterMap fun msg =>
        msg.sender.bind UdpSocket.peer?) :=
    ⟨_, reordered.filterMap _, among.filterMap _⟩
  have sent := (pongs.filterMap UdpSocket.peer?).subperm.append responses
  exact (run_answers small fair ran).trans
    (sent.trans (given.subperm.trans sources.subperm))

end

theorem udp_no_amplification_twice :
    ∃ (net : Internet Nat Unit) (events : List (Event Unit Nat Unit)),
      fromServer onePair net.sent = [onePair.client (), onePair.client ()] ∧
      (arrived events).map Datagram.address = [onePair.client (), onePair.client ()] ∧
      (fromServer onePair net.sent).Subperm ((arrived events).map Datagram.address) := by
  have ran : (machine onePair plusHundred).run (create ⟨5, 0⟩ 2) deliveredTwice =
    some (_, _) := rfl
  exact ⟨_, _, rfl, rfl, udp_no_amplification (fun _ => by simp [plusHundred])
    deliveredTwice_fair ran⟩

end Internet

end LinxIpc
