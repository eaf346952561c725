import LinxIpc.Machine.Run
import LinxIpc.Server.Task
import LinxIpc.Socket.ReceiveLoop

/-!
`GenericClient` and the server it talks to, joined by two channels.

A channel is first-in first-out and delivers when it likes: a packet is taken at
any time after it was sent, and every wait of the client may end without one.  A
packet carries the number of the client's call that it belongs to, which the
program does not see.
-/

namespace LinxIpc.Client

variable {ι : Type}

/-! ### The source -/

/-- The body of the loop in `GenericClient::receive` after `socket->receive`. -/
def receiveBody [BEq ι] (identifier : ι) (sigsel : List UInt32) (received : Received ι) :
    Verdict RawMessage ι :=
  if received.result = 0 then .finish none
  else if received.result < 0 then .finish none
  else
    match received.stored with
    | none => .undefined
    | some (msg, sender) =>
        if matchesFilter sigsel (some identifier) { message := msg, sender := some sender } then
          .finish (some msg)
        else .goOn none

/-- `GenericClient::receive`; `created` is the clock in the constructor of the deadline. -/
def receive [BEq ι] (identifier : ι) (timeoutMs : Int) (sigsel : List UInt32) (created : Int)
    (passes : List (Pass ι)) : LoopRun RawMessage ι :=
  receiveLoop (receiveBody identifier sigsel) (Deadline.create created timeoutMs) passes

def pingTimeout : Int := 100

/-- One pass of the loop in `GenericClient::connect`. -/
structure Round (ι : Type) where
  /-- The clock when the ping is sent, which the program does not read. -/
  started : Int
  sent : Bool
  /-- The clock in the deadline of `receive`. -/
  created : Int
  passes : List (Pass ι)
  /-- The clock in `isExpired`. -/
  later : Int

inductive ConnectStatus where
  | waiting
  | returned (connected : Bool)
  | undefined
  deriving DecidableEq

structure ConnectRun (ι : Type) where
  status : ConnectStatus
  /-- The rounds in which a ping was sent, or failed to be sent. -/
  rounds : List (Round ι)

def Round.receive [BEq ι] (identifier : ι) (round : Round ι) : LoopRun RawMessage ι :=
  Client.receive identifier pingTimeout [ipcPingRsp] round.created round.passes

def Round.outcome [BEq ι] (identifier : ι) (round : Round ι) : Option ConnectStatus :=
  if round.sent then
    match (round.receive identifier).status with
    | .waiting => some .waiting
    | .undefined => some .undefined
    | .returned (some _) => some (.returned true)
    | .returned none => none
  else none

def connectLoop [BEq ι] (identifier : ι) (deadline : Deadline) : List (Round ι) → ConnectRun ι
  | [] => { status := .waiting, rounds := [] }
  | round :: unread =>
      match round.outcome identifier with
      | some status => { status := status, rounds := [round] }
      | none =>
          if deadline.isExpired round.later then
            { status := .returned false, rounds := [round] }
          else
            let more := connectLoop identifier deadline unread
            { more with rounds := round :: more.rounds }

/-- `GenericClient::connect`; `created` is the clock in the constructor of the deadline. -/
def connect [BEq ι] (identifier : ι) (timeoutMs created : Int) (rounds : List (Round ι)) :
    ConnectRun ι :=
  connectLoop identifier (Deadline.create created timeoutMs) rounds

def delivered (sender : ι) (msg : RawMessage) : Received ι :=
  { result := 4 + msg.payload.length, stored := some (msg, sender) }

theorem delivered_positive (sender : ι) (msg : RawMessage) : 0 < (delivered sender msg).result := by
  have size : (delivered sender msg).result = 4 + msg.payload.length := rfl
  omega

@[simp]
theorem delivered_stored (sender : ι) (msg : RawMessage) :
    (delivered sender msg).stored = some (msg, sender) :=
  rfl

theorem taskTurn_delivered (sender : ι) (msg : RawMessage) :
    Server.taskTurn (delivered sender msg) =
      if msg.reqId = ipcPingReq then some (.answer sender)
      else some (.offer { message := msg, sender := some sender }) := by
  have positive := delivered_positive sender msg
  simp only [Server.taskTurn, ite_result_positive positive, delivered_stored]

/-! ### Client and server -/

structure Packet where
  /-- The call that sent it, or whose message it answers. -/
  call : Nat
  message : RawMessage
  deriving DecidableEq, Repr

inductive Point where
  | idle
  | receiving (deadline : Deadline) (sigsel : List UInt32)
  | pinging (deadline : Deadline)
  | awaiting (deadline wait : Deadline)
  | checking (deadline : Deadline)
  deriving DecidableEq

def Point.connecting : Point → Bool
  | .pinging _ | .awaiting _ _ | .checking _ => true
  | .idle | .receiving _ _ => false

inductive Worker where
  | receiving
  | answering (call : Nat)
  | stopped
  deriving DecidableEq

structure Link where
  client : Point
  calls : Nat
  toServer : List Packet
  toClient : List Packet
  worker : Worker

inductive Action where
  | connect (now timeoutMs : Int)
  /-- `send`, which fails unless `sent`. -/
  | send (msg : RawMessage) (sent : Bool)
  | receive (now timeoutMs : Int) (sigsel : List UInt32)
  | sendReceive (msg : RawMessage) (sent : Bool) (now timeoutMs : Int) (sigsel : List UInt32)
  | ping (sent : Bool) (now : Int)
  | take (later : Int)
  /-- `socket->receive` returns 0 or an error. -/
  | giveUp
  | check (now : Int)
  | serve
  | answer
  /-- The server's application sends a message of its own. -/
  | respond (msg : RawMessage)
  | stop

inductive Event where
  | answered (call : Nat)
  | connected (call : Nat)
  | notConnected (call : Nat)
  | returned (call : Nat) (msg : Option RawMessage)
  deriving DecidableEq

def Silent (events : List Event) : Prop :=
  ∀ call, .answered call ∉ events ∧ .connected call ∉ events

theorem silent_nil : Silent [] := fun _ => ⟨List.not_mem_nil, List.not_mem_nil⟩

theorem silent_returned (call : Nat) (msg : Option RawMessage) : Silent [.returned call msg] := by
  simp [Silent]

theorem silent_notConnected (call : Nat) : Silent [.notConnected call] := by
  simp [Silent]

def Action.isConnect : Action → Bool
  | .connect _ _ => true
  | _ => false

def Action.ofServer : Action → Bool
  | .serve | .answer | .respond _ | .stop => true
  | _ => false

/-- The addresses: what the client was created with, and what the two sockets
report as the sender of a packet. -/
structure Names (ι : Type) where
  identifier : ι
  server : ι
  client : ι

namespace Link

def initial : Link :=
  { client := .idle, calls := 0, toServer := [], toClient := [], worker := .receiving }

def begin (s : Link) (client : Point) (sending : Option RawMessage) : Link :=
  { s with
    client := client, calls := s.calls + 1
    toServer := s.toServer ++
      sending.toList.map (fun msg => { call := s.calls + 1, message := msg }) }

variable [BEq ι]

def taken (names : Names ι) (s : Link) (packet : Packet) (later : Int) :
    Option (Point × List Event) :=
  match s.client with
  | .receiving deadline sigsel =>
      match receiveBody names.identifier sigsel (delivered names.server packet.message) with
      | .finish msg => some (.idle, [.returned s.calls msg])
      | .goOn _ =>
          if deadline.isExpired later then some (.idle, [.returned s.calls none])
          else some (s.client, [])
      | .undefined => none
  | .awaiting deadline wait =>
      match receiveBody names.identifier [ipcPingRsp] (delivered names.server packet.message) with
      | .finish (some _) => some (.idle, [.connected s.calls])
      | .finish none => some (.checking deadline, [])
      | .goOn _ =>
          if wait.isExpired later then some (.checking deadline, []) else some (s.client, [])
      | .undefined => none
  | .idle | .pinging _ | .checking _ => none

def step (names : Names ι) (s : Link) : Action → Option (Link × List Event)
  | .connect now timeoutMs =>
      match s.client with
      | .idle => some (s.begin (.pinging (Deadline.create now timeoutMs)) none, [])
      | _ => none
  | .send msg sent =>
      match s.client with
      | .idle => some (s.begin .idle (if sent then some msg else none), [])
      | _ => none
  | .receive now timeoutMs sigsel =>
      match s.client with
      | .idle => some (s.begin (.receiving (Deadline.create now timeoutMs) sigsel) none, [])
      | _ => none
  | .sendReceive msg sent now timeoutMs sigsel =>
      match s.client with
      | .idle =>
          if sent then
            some (s.begin (.receiving (Deadline.create now timeoutMs) sigsel) (some msg), [])
          else some (s.begin .idle none, [.returned (s.calls + 1) none])
      | _ => none
  | .ping sent now =>
      match s.client with
      | .pinging deadline =>
          if sent then
            some ({ s with
              client := .awaiting deadline (Deadline.create now pingTimeout)
              toServer := s.toServer ++
                [{ call := s.calls, message := { reqId := ipcPingReq, payload := [] } }] }, [])
          else some ({ s with client := .checking deadline }, [])
      | _ => none
  | .take later =>
      match s.toClient with
      | packet :: rest =>
          match s.taken names packet later with
          | none => none
          | some (client, events) => some ({ s with client := client, toClient := rest }, events)
      | [] => none
  | .giveUp =>
      match s.client with
      | .receiving _ _ => some ({ s with client := .idle }, [.returned s.calls none])
      | .awaiting deadline _ => some ({ s with client := .checking deadline }, [])
      | _ => none
  | .check now =>
      match s.client with
      | .checking deadline =>
          if deadline.isExpired now then
            some ({ s with client := .idle }, [.notConnected s.calls])
          else some ({ s with client := .pinging deadline }, [])
      | _ => none
  | .serve =>
      match s.worker, s.toServer with
      | .receiving, packet :: rest =>
          match Server.taskTurn (delivered names.client packet.message) with
          | some (.answer _) =>
              some ({ s with toServer := rest, worker := .answering packet.call }, [])
          | some (.offer _) => some ({ s with toServer := rest }, [])
          | some .leave => some ({ s with toServer := rest, worker := .stopped }, [])
          | none => none
      | _, _ => none
  | .answer =>
      match s.worker with
      | .answering call =>
          some ({ s with
            worker := .receiving
            toClient := s.toClient ++
              [{ call := call, message := { reqId := ipcPingRsp, payload := [] } }] },
            [.answered call])
      | _ => none
  | .respond msg =>
      -- the application does not use the ids of the ping protocol
      if s.worker = .stopped ∨ msg.reqId = ipcPingRsp then none
      else some ({ s with toClient := s.toClient ++ [{ call := s.calls, message := msg }] }, [])
  | .stop => some ({ s with worker := .stopped }, [])

def machine (names : Names ι) : Machine Link Action Event where
  step := step names

/-! ### What a step can do -/

inductive Did (s : Link) : Action → Link → List Event → Prop where
  | connect {now timeoutMs : Int} (idle : s.client = .idle) :
      Did s (.connect now timeoutMs) (s.begin (.pinging (Deadline.create now timeoutMs)) none) []
  | called {action : Action} {client : Point} {sending : Option RawMessage} {events : List Event}
      (other : action.isConnect = false) (outside : client.connecting = false)
      (silent : Silent events) : Did s action (s.begin client sending) events
  | pinged {now : Int} {deadline : Deadline} (pinging : s.client = .pinging deadline) :
      Did s (.ping true now)
        { s with
          client := .awaiting deadline (Deadline.create now pingTimeout)
          toServer := s.toServer ++
            [{ call := s.calls, message := { reqId := ipcPingReq, payload := [] } }] } []
  | connected {later : Int} {packet : Packet} {rest : List Packet}
      (connecting : s.client.connecting = true) (atHead : s.toClient = packet :: rest)
      (response : packet.message.reqId = ipcPingRsp) :
      Did s (.take later) { s with client := .idle, toClient := rest } [.connected s.calls]
  | took {later : Int} {packet : Packet} {rest : List Packet} {client : Point}
      {events : List Event} (atHead : s.toClient = packet :: rest)
      (stays : client.connecting = true → s.client.connecting = true) (silent : Silent events) :
      Did s (.take later) { s with client := client, toClient := rest } events
  | moved {action : Action} {client : Point} {events : List Event}
      (other : action.isConnect = false)
      (stays : client.connecting = true → s.client.connecting = true) (silent : Silent events) :
      Did s action { s with client := client } events
  | served {packet : Packet} {rest : List Packet} (receiving : s.worker = .receiving)
      (atHead : s.toServer = packet :: rest) (request : packet.message.reqId = ipcPingReq) :
      Did s .serve { s with toServer := rest, worker := .answering packet.call } []
  | passed {packet : Packet} {rest : List Packet} (receiving : s.worker = .receiving)
      (atHead : s.toServer = packet :: rest) : Did s .serve { s with toServer := rest } []
  | answered {call : Nat} (answering : s.worker = .answering call) :
      Did s .answer
        { s with
          worker := .receiving
          toClient := s.toClient ++
            [{ call := call, message := { reqId := ipcPingRsp, payload := [] } }] }
        [.answered call]
  | responded {msg : RawMessage} (other : msg.reqId ≠ ipcPingRsp) :
      Did s (.respond msg)
        { s with toClient := s.toClient ++ [{ call := s.calls, message := msg }] } []
  | stopped : Did s .stop { s with worker := .stopped } []

inductive ServerDid (s : Link) : Action → Link → List Event → Prop where
  | served {packet : Packet} {rest : List Packet} (receiving : s.worker = .receiving)
      (atHead : s.toServer = packet :: rest) (request : packet.message.reqId = ipcPingReq) :
      ServerDid s .serve { s with toServer := rest, worker := .answering packet.call } []
  | passed {packet : Packet} {rest : List Packet} (receiving : s.worker = .receiving)
      (atHead : s.toServer = packet :: rest) (other : packet.message.reqId ≠ ipcPingReq) :
      ServerDid s .serve { s with toServer := rest } []
  | answered {call : Nat} (answering : s.worker = .answering call) :
      ServerDid s .answer
        { s with
          worker := .receiving
          toClient := s.toClient ++
            [{ call := call, message := { reqId := ipcPingRsp, payload := [] } }] }
        [.answered call]
  | responded {msg : RawMessage} (running : s.worker ≠ .stopped) (other : msg.reqId ≠ ipcPingRsp) :
      ServerDid s (.respond msg)
        { s with toClient := s.toClient ++ [{ call := s.calls, message := msg }] } []
  | stopped : ServerDid s .stop { s with worker := .stopped } []

theorem ServerDid.did {s next : Link} {action : Action} {events : List Event}
    (did : ServerDid s action next events) : Did s action next events := by
  cases did with
  | served receiving atHead request => exact .served receiving atHead request
  | passed receiving atHead other => exact .passed receiving atHead
  | answered answering => exact .answered answering
  | responded running other => exact .responded other
  | stopped => exact .stopped

theorem server_cases {names : Names ι} {s next : Link} {action : Action} {events : List Event}
    (side : action.ofServer = true) (stepped : s.step names action = some (next, events)) :
    ServerDid s action next events := by
  cases action with
  | serve =>
      simp only [step] at stepped
      split at stepped
      · rename_i packet rest receiving atHead
        rw [taskTurn_delivered] at stepped
        by_cases request : packet.message.reqId = ipcPingReq
        · simp only [if_pos request] at stepped
          cases stepped
          exact .served receiving atHead request
        · simp only [if_neg request] at stepped
          cases stepped
          exact .passed receiving atHead request
      · cases stepped
  | answer =>
      simp only [step] at stepped
      split at stepped
      · rename_i call answering
        cases stepped
        exact .answered answering
      · cases stepped
  | respond msg =>
      simp only [step] at stepped
      split at stepped
      · cases stepped
      · rename_i allowed
        cases stepped
        rw [not_or] at allowed
        exact .responded allowed.1 allowed.2
  | stop =>
      cases stepped
      exact .stopped
  | connect | send | receive | sendReceive | ping | take | giveUp | check => cases side

theorem receiveBody_delivered (names : Names ι) (sigsel : List UInt32) (msg : RawMessage) :
    receiveBody names.identifier sigsel (delivered names.server msg) =
      if matchesFilter sigsel (some names.identifier)
          { message := msg, sender := some names.server } then .finish (some msg)
      else .goOn none := by
  have positive := delivered_positive names.server msg
  simp only [receiveBody, ite_result_positive positive, delivered_stored]

theorem taken_cases {names : Names ι} {s : Link} {packet : Packet} {later : Int}
    {client : Point} {events : List Event}
    (took : s.taken names packet later = some (client, events)) :
    (s.client.connecting = true ∧ packet.message.reqId = ipcPingRsp ∧ client = .idle ∧
        events = [.connected s.calls]) ∨
      ((client.connecting = true → s.client.connecting = true) ∧ Silent events) := by
  cases atClient : s.client with
  | idle | pinging | checking => simp only [taken, atClient, reduceCtorEq] at took
  | receiving deadline sigsel =>
      right
      simp only [taken, atClient, receiveBody_delivered] at took
      split at took
      · cases took
        exact ⟨nofun, silent_returned _ _⟩
      · split at took
        · cases took
          exact ⟨nofun, silent_returned _ _⟩
        · cases took
          exact ⟨id, silent_nil⟩
      · cases took
  | awaiting deadline wait =>
      simp only [taken, atClient, receiveBody_delivered] at took
      split at took
      · rename_i msg matched
        cases took
        left
        refine ⟨rfl, ?_, rfl, rfl⟩
        split at matched
        · rename_i passes
          have selected := (Bool.and_eq_true_iff.mp passes).2
          simpa [matchesSignalSelector_iff] using selected
        · cases matched
      · cases took
        exact .inr ⟨fun _ => rfl, silent_nil⟩
      · split at took
        · cases took
          exact .inr ⟨fun _ => rfl, silent_nil⟩
        · cases took
          exact .inr ⟨id, silent_nil⟩
      · cases took

theorem step_cases {names : Names ι} {s next : Link} {action : Action} {events : List Event}
    (stepped : s.step names action = some (next, events)) : Did s action next events := by
  cases action with
  | connect now timeoutMs =>
      simp only [step] at stepped
      split at stepped
      · rename_i idle
        cases stepped
        exact .connect idle
      · cases stepped
  | send msg sent =>
      simp only [step] at stepped
      split at stepped
      · cases stepped
        exact .called rfl rfl silent_nil
      · cases stepped
  | receive now timeoutMs sigsel =>
      simp only [step] at stepped
      split at stepped
      · cases stepped
        exact .called rfl rfl silent_nil
      · cases stepped
  | sendReceive msg sent now timeoutMs sigsel =>
      simp only [step] at stepped
      split at stepped
      · split at stepped
        · cases stepped
          exact .called rfl rfl silent_nil
        · cases stepped
          exact .called rfl rfl (silent_returned _ _)
      · cases stepped
  | ping sent now =>
      simp only [step] at stepped
      split at stepped
      · rename_i deadline pinging
        split at stepped
        · rename_i isSent
          subst isSent
          cases stepped
          exact .pinged pinging
        · cases stepped
          exact .moved rfl (fun _ => by rw [pinging]; rfl) silent_nil
      · cases stepped
  | take later =>
      simp only [step] at stepped
      split at stepped
      · rename_i packet rest atHead
        cases took : s.taken names packet later with
        | none => simp only [took, reduceCtorEq] at stepped
        | some result =>
            simp only [took] at stepped
            cases stepped
            rcases taken_cases took with ⟨connecting, response, idle, said⟩ | ⟨stays, silent⟩
            · rw [idle, said]
              exact .connected connecting atHead response
            · exact .took atHead stays silent
      · cases stepped
  | giveUp =>
      simp only [step] at stepped
      split at stepped
      · cases stepped
        exact .moved rfl nofun (silent_returned _ _)
      · rename_i deadline wait awaiting
        cases stepped
        exact .moved rfl (fun _ => by rw [awaiting]; rfl) silent_nil
      · cases stepped
  | check now =>
      simp only [step] at stepped
      split at stepped
      · rename_i deadline checking
        split at stepped
        · cases stepped
          exact .moved rfl nofun (silent_notConnected _)
        · cases stepped
          exact .moved rfl (fun _ => by rw [checking]; rfl) silent_nil
      · cases stepped
  | serve | answer | respond | stop => exact (server_cases rfl stepped).did

end Link

end LinxIpc.Client
