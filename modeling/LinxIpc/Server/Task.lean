import LinxIpc.Socket.Receive

/-!
One turn of the loop in `GenericServer::task`, and the outputs that a sequence of
datagrams asks for.
-/

namespace LinxIpc.Server

variable {α ι : Type}

inductive Turn (ι : Type) where
  | leave
  /-- `send(RawMessage(IPC_PING_RSP), *from)`. -/
  | answer (peer : ι)
  /-- `queue->add` of the container. -/
  | offer (msg : LinxReceivedMessage ι)
  deriving DecidableEq, Repr

/-- A positive result without a message would be dereferenced: no turn is
defined there. -/
def taskTurn (received : Received ι) : Option (Turn ι) :=
  if received.result = 0 then some .leave
  else if received.result < 0 then some .leave
  else
    match received.stored with
    | none => none
    | some (msg, sender) =>
        if msg.reqId = ipcPingReq then some (.answer sender)
        else some (.offer { message := msg, sender := some sender })

/-- What the worker hands on for a message: the response of a ping, or the
message itself. -/
inductive Output (ι : Type) where
  | answered (peer : ι)
  | offered (msg : LinxReceivedMessage ι)
  deriving DecidableEq, Repr

def Turn.output? : Turn ι → Option (Output ι)
  | .leave => none
  | .answer peer => some (.answered peer)
  | .offer msg => some (.offered msg)

def output? (identifier : α → ι) (datagram : Datagram α) : Option (Output ι) :=
  (RawMessage.deserialize datagram.bytes).map fun msg =>
    if msg.reqId = ipcPingReq then .answered (identifier datagram.address)
    else .offered { message := msg, sender := some (identifier datagram.address) }

def outputs (identifier : α → ι) (datagrams : List (Datagram α)) : List (Output ι) :=
  datagrams.filterMap (output? identifier)

theorem output_isSome_iff (identifier : α → ι) (datagram : Datagram α) :
    (output? identifier datagram).isSome = true ↔ WellFormed datagram := by
  rw [output?, Option.isSome_map]
  exact RawMessage.deserialize_isSome_iff datagram.bytes

theorem taskTurn_wellFormed (identifier : α → ι) {datagram : Datagram α}
    (wellFormed : WellFormed datagram) :
    ∃ turn output, taskTurn (received identifier datagram) = some turn ∧ turn ≠ .leave ∧
      turn.output? = some output ∧ output? identifier datagram = some output := by
  obtain ⟨msg, decoded, same⟩ := received_wellFormed identifier wellFormed
  have positive := wellFormed.positive
  rw [same]
  simp only [taskTurn, ite_result_positive positive,
    output?, decoded, Option.map_some]
  by_cases ping : msg.reqId = ipcPingReq
  · simp only [if_pos ping]
    exact ⟨_, _, rfl, nofun, rfl, rfl⟩
  · simp only [if_neg ping]
    exact ⟨_, _, rfl, nofun, rfl, rfl⟩

theorem taskTurn_malformed (identifier : α → ι) {datagram : Datagram α}
    (malformed : ¬ WellFormed datagram) :
    taskTurn (received identifier datagram) = some .leave := by
  rw [received_malformed identifier malformed]
  rfl

end LinxIpc.Server
