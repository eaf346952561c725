import LinxIpc.Client.Connect
import LinxIpc.Machine.Progress

/-!
`connect` to a server that runs.

Until it has returned, one of the two sides can go on.  Only failed pings, waits
that end early and messages that are no responses to pings make it take longer.
-/

namespace LinxIpc.Client

variable {ι : Type}

/-! ### Costs -/

def Action.isWork : Action → Bool
  | .ping sent _ => sent
  | .take _ | .check _ | .serve | .answer => true
  | .connect _ _ | .send _ _ | .receive _ _ _ | .sendReceive _ _ _ _ _ | .giveUp | .respond _
  | .stop => false

/-- What a step that is no such work adds to what is still to do. -/
def Action.brings : Action → Nat
  | .connect _ _ => 4
  | .send _ sent | .sendReceive _ sent _ _ _ => sent.toNat * 3
  | .ping sent _ => (!sent).toNat
  | .giveUp => 5
  | .respond _ => 6
  | .receive _ _ _ | .take _ | .check _ | .serve | .answer | .stop => 0

def Point.cost : Point → Nat
  | .idle | .receiving _ _ | .awaiting _ _ => 0
  | .pinging _ => 4
  | .checking _ => 5

def Worker.cost : Worker → Nat
  | .answering _ => 2
  | .receiving | .stopped => 0

def Packet.cost (packet : Packet) : Nat :=
  if packet.message.reqId = ipcPingRsp then 1 else 6

def Point.limit? : Point → Option Deadline
  | .pinging deadline | .awaiting deadline _ | .checking deadline => some deadline
  | .idle | .receiving _ _ => none

namespace Link

def cost (s : Link) : Nat :=
  s.client.cost + s.toServer.length * 3 + s.worker.cost + (s.toClient.map Packet.cost).sum

variable [BEq ι]

/-! ### What a client can do -/

inductive ClientDid (names : Names ι) (s : Link) : Action → Link → List Event → Prop where
  | entered {now timeoutMs : Int} (idle : s.client = .idle) :
      ClientDid names s (.connect now timeoutMs)
        (s.begin (.pinging (Deadline.create now timeoutMs)) none) []
  | called {action : Action} {client : Point} {sending : Option RawMessage} {events : List Event}
      (outside : client.connecting = false) (work : action.isWork = false)
      (brought : sending.toList.length * 3 ≤ action.brings)
      (quiet : ∀ call, .notConnected call ∉ events) :
      ClientDid names s action (s.begin client sending) events
  | pinged {now : Int} {deadline : Deadline} (pinging : s.client = .pinging deadline) :
      ClientDid names s (.ping true now)
        { s with
          client := .awaiting deadline (Deadline.create now pingTimeout)
          toServer := s.toServer ++
            [{ call := s.calls, message := { reqId := ipcPingReq, payload := [] } }] } []
  | notPinged {now : Int} {deadline : Deadline} (pinging : s.client = .pinging deadline) :
      ClientDid names s (.ping false now) { s with client := .checking deadline } []
  | took {later : Int} {packet : Packet} {rest : List Packet} {client : Point}
      {events : List Event} (atHead : s.toClient = packet :: rest)
      (took : s.taken names packet later = some (client, events)) :
      ClientDid names s (.take later) { s with client := client, toClient := rest } events
  | gaveUp {deadline : Deadline} {sigsel : List UInt32}
      (receiving : s.client = .receiving deadline sigsel) :
      ClientDid names s .giveUp { s with client := .idle } [.returned s.calls none]
  | waited {deadline wait : Deadline} (awaiting : s.client = .awaiting deadline wait) :
      ClientDid names s .giveUp { s with client := .checking deadline } []
  | expired {now : Int} {deadline : Deadline} (checking : s.client = .checking deadline)
      (late : deadline.isExpired now = true) :
      ClientDid names s (.check now) { s with client := .idle } [.notConnected s.calls]
  | repeated {now : Int} {deadline : Deadline} (checking : s.client = .checking deadline) :
      ClientDid names s (.check now) { s with client := .pinging deadline } []

inductive Took (s : Link) (packet : Packet) : Point → Prop where
  | received {deadline : Deadline} {sigsel : List UInt32}
      (receiving : s.client = .receiving deadline sigsel) {client : Point}
      (outside : client.connecting = false) : Took s packet client
  | connected (response : packet.message.reqId = ipcPingRsp) : Took s packet .idle
  | passed (other : packet.message.reqId ≠ ipcPingRsp) : Took s packet s.client
  | waited {deadline wait : Deadline} (awaiting : s.client = .awaiting deadline wait)
      (other : packet.message.reqId ≠ ipcPingRsp) : Took s packet (.checking deadline)

theorem taken_took {names : Names ι} (named : (names.server == names.identifier) = true)
    {s : Link} {packet : Packet} {later : Int} {client : Point} {events : List Event}
    (took : s.taken names packet later = some (client, events)) :
    Took s packet client ∧ ∀ call, .notConnected call ∉ events := by
  cases atClient : s.client with
  | idle | pinging | checking => simp only [taken, atClient, reduceCtorEq] at took
  | receiving deadline sigsel =>
      simp only [taken, atClient, receiveBody_delivered] at took
      split at took
      · cases took
        exact ⟨.received atClient rfl, by simp⟩
      · split at took
        · cases took
          exact ⟨.received atClient rfl, by simp⟩
        · cases took
          exact ⟨.received atClient rfl, by simp⟩
      · cases took
  | awaiting deadline wait =>
      by_cases response : packet.message.reqId = ipcPingRsp
      · have matched := (awaited_iff named packet.message).mpr response
        simp only [taken, atClient, receiveBody_delivered, matched, if_true] at took
        cases took
        exact ⟨.connected response, by simp⟩
      · have passed : matchesFilter [ipcPingRsp] (some names.identifier)
            { message := packet.message, sender := some names.server } = false := by
          rw [← Bool.not_eq_true, awaited_iff named]
          exact response
        simp only [taken, atClient, receiveBody_delivered, passed, Bool.false_eq_true, if_false]
          at took
        split at took
        · cases took
          exact ⟨.waited atClient response, fun _ => List.not_mem_nil⟩
        · cases took
          rw [← atClient]
          exact ⟨.passed response, fun _ => List.not_mem_nil⟩

/-! ### Costs of the steps -/

omit [BEq ι] in
theorem outside_cost {client : Point} (outside : client.connecting = false) : client.cost = 0 := by
  cases client with
  | idle | receiving => rfl
  | pinging | awaiting | checking => cases outside

omit [BEq ι] in
theorem Took.cost {s : Link} {packet : Packet} {client : Point} (took : Took s packet client) :
    1 + client.cost ≤ s.client.cost + packet.cost := by
  have positive : 1 ≤ packet.cost := by
    unfold Packet.cost
    split
    · exact Nat.le_refl _
    · exact Nat.le_of_ble_eq_true rfl
  cases took with
  | received receiving outside =>
      rw [outside_cost outside]
      exact Nat.le_add_left_of_le positive
  | connected response => exact Nat.le_add_left_of_le positive
  | passed other =>
      rw [Nat.add_comm]
      exact Nat.add_le_add_left positive _
  | waited awaiting other =>
      rw [awaiting, Packet.cost, if_neg other]
      exact Nat.le_refl _

omit [BEq ι] in
theorem server_cost {s next : Link} {action : Action} {events : List Event}
    (did : ServerDid s action next events) :
    action.isWork.toNat + cost next ≤ cost s + action.brings := by
  cases did with
  | served receiving atHead request =>
      simp only [cost, receiving, atHead, Worker.cost, List.length_cons, Action.isWork,
        Bool.toNat_true]
      omega
  | passed receiving atHead other =>
      simp only [cost, atHead, List.length_cons, Action.isWork, Bool.toNat_true]
      omega
  | @answered call answering =>
      have response :
          Packet.cost { call := call, message := { reqId := ipcPingRsp, payload := [] } } = 1 := rfl
      simp only [cost, answering, Worker.cost, List.map_append, List.map_singleton,
        List.sum_append, List.sum_singleton, response, Action.isWork, Bool.toNat_true]
      omega
  | @responded msg running other =>
      have another : Packet.cost { call := s.calls, message := msg } = 6 := if_neg other
      simp only [cost, List.map_append, List.map_singleton, List.sum_append, List.sum_singleton,
        another, Action.isWork, Action.brings, Bool.toNat_false]
      omega
  | stopped =>
      simp only [cost, Worker.cost, Action.isWork, Bool.toNat_false]
      omega

def Expected (s : Link) : Prop :=
  (∃ packet ∈ s.toServer, packet.message.reqId = ipcPingReq) ∨
    (∃ call, s.worker = .answering call) ∨
    ∃ packet ∈ s.toClient, packet.message.reqId = ipcPingRsp

structure Attended (s : Link) : Prop where
  running : s.worker ≠ .stopped
  expected : ∀ deadline wait, s.client = .awaiting deadline wait → Expected s

omit [BEq ι] in
theorem Attended.server {s next : Link} {action : Action} {events : List Event}
    (attended : Attended s) (running : action ≠ .stop)
    (did : ServerDid s action next events) : Attended next := by
  cases did with
  | served receiving atHead request => exact ⟨by simp, fun _ _ _ => .inr (.inl ⟨_, rfl⟩)⟩
  | @passed packet rest receiving atHead other =>
      refine ⟨attended.running, fun deadline wait awaiting => ?_⟩
      rcases attended.expected deadline wait awaiting with ⟨ping, member, request⟩ | later
      · rw [atHead] at member
        rcases List.mem_cons.mp member with rfl | behind
        · exact absurd request other
        · exact .inl ⟨ping, behind, request⟩
      · exact .inr later
  | answered answering =>
      refine ⟨by simp, fun _ _ _ => .inr (.inr ?_)⟩
      exact ⟨_, List.mem_append_right _ List.mem_cons_self, rfl⟩
  | responded alive other =>
      refine ⟨attended.running, fun deadline wait awaiting => ?_⟩
      rcases attended.expected deadline wait awaiting with ping | answering | response
      · exact .inl ping
      · exact .inr (.inl answering)
      · obtain ⟨packet, member, response⟩ := response
        exact .inr (.inr ⟨packet, List.mem_append_left _ member, response⟩)
  | stopped => exact absurd rfl running

theorem Attended.client {names : Names ι} (named : (names.server == names.identifier) = true)
    {s next : Link} {action : Action} {events : List Event} (attended : Attended s)
    (did : ClientDid names s action next events) : Attended next := by
  have outside : ∀ point deadline wait, Point.connecting point = false →
      point ≠ .awaiting deadline wait := by
    rintro point deadline wait outside rfl
    cases outside
  cases did with
  | entered | notPinged | waited | repeated =>
      exact ⟨attended.running, fun _ _ awaiting => by cases awaiting⟩
  | called notConnecting =>
      exact ⟨attended.running, fun deadline wait awaiting =>
        absurd awaiting (outside _ deadline wait notConnecting)⟩
  | pinged pinging =>
      refine ⟨attended.running, fun _ _ _ => .inl ?_⟩
      exact ⟨_, List.mem_append_right _ List.mem_cons_self, rfl⟩
  | @took later packet rest client events atHead took =>
      refine ⟨attended.running, fun deadline wait awaiting => ?_⟩
      have point := (taken_took named took).1
      rw [show client = .awaiting deadline wait from awaiting] at point
      generalize atClient : (Point.awaiting deadline wait) = after at point
      cases point with
      | received receiving notConnecting =>
          exact absurd atClient.symm (outside _ deadline wait notConnecting)
      | connected response => cases atClient
      | waited was other => cases atClient
      | passed other =>
          rcases attended.expected deadline wait atClient.symm with ping | answering | response
          · exact .inl ping
          · exact .inr (.inl answering)
          · obtain ⟨pong, member, response⟩ := response
            rw [atHead] at member
            rcases List.mem_cons.mp member with rfl | behind
            · exact absurd response other
            · exact .inr (.inr ⟨pong, behind, response⟩)
  | gaveUp | expired => exact ⟨attended.running, fun _ _ awaiting => by cases awaiting⟩

/-! ### The next step -/

omit [BEq ι] in
theorem nonempty_of_mem {packets : List Packet} {wanted : UInt32}
    (present : ∃ packet ∈ packets, packet.message.reqId = wanted) :
    ∃ packet rest, packets = packet :: rest := by
  obtain ⟨packet, member, -⟩ := present
  exact List.exists_cons_of_ne_nil (List.ne_nil_of_mem member)

theorem serve_enabled (names : Names ι) {s : Link} {packet : Packet} {rest : List Packet}
    (receiving : s.worker = .receiving) (atHead : s.toServer = packet :: rest) :
    s.step names .serve ≠ none := by
  by_cases request : packet.message.reqId = ipcPingReq
  · simp only [step, receiving, atHead, taskTurn_delivered, if_pos request]
    exact Option.some_ne_none _
  · simp only [step, receiving, atHead, taskTurn_delivered, if_neg request]
    exact Option.some_ne_none _

theorem take_enabled (names : Names ι) {s : Link} {deadline wait : Deadline}
    (awaiting : s.client = .awaiting deadline wait) {packet : Packet} {rest : List Packet}
    (atHead : s.toClient = packet :: rest) : s.step names (.take 0) ≠ none := by
  simp only [step, atHead, taken, awaiting, receiveBody_delivered]
  cases matchesFilter [ipcPingRsp] (some names.identifier)
      { message := packet.message, sender := some names.server } with
  | true => exact Option.some_ne_none _
  | false =>
      cases wait.isExpired 0 with
      | true => exact Option.some_ne_none _
      | false => exact Option.some_ne_none _

theorem Attended.works (names : Names ι) {s : Link} (attended : Attended s)
    (connecting : s.client.connecting = true) :
    ∃ action : Action, action.isWork = true ∧ s.step names action ≠ none := by
  cases atClient : s.client with
  | idle | receiving =>
      rw [atClient] at connecting
      cases connecting
  | pinging deadline =>
      refine ⟨.ping true 0, rfl, ?_⟩
      simp only [step, atClient, if_true]
      exact Option.some_ne_none _
  | checking deadline =>
      refine ⟨.check 0, rfl, ?_⟩
      simp only [step, atClient]
      split
      · exact Option.some_ne_none _
      · exact Option.some_ne_none _
  | awaiting deadline wait =>
      cases atWorker : s.worker with
      | stopped => exact absurd atWorker attended.running
      | answering call =>
          refine ⟨.answer, rfl, ?_⟩
          simp only [step, atWorker]
          exact Option.some_ne_none _
      | receiving =>
          rcases attended.expected deadline wait atClient with ping | answering | response
          · obtain ⟨packet, rest, atHead⟩ := nonempty_of_mem ping
            exact ⟨.serve, rfl, serve_enabled names atWorker atHead⟩
          · obtain ⟨call, answering⟩ := answering
            rw [atWorker] at answering
            cases answering
          · obtain ⟨packet, rest, atHead⟩ := nonempty_of_mem response
            exact ⟨.take 0, rfl, take_enabled names atClient atHead⟩

/-! ### Whole runs -/

def Unlimited (client : Point) : Prop :=
  ∀ deadline, client.limit? = some deadline → deadline.deadline = none

theorem outside_unlimited {client : Point} (outside : client.connecting = false) :
    Unlimited client := by
  intro deadline limit
  cases client with
  | idle | receiving => cases limit
  | pinging | awaiting | checking => cases outside

theorem Unlimited.took {s : Link} {packet : Packet} {client : Point}
    (unlimited : Unlimited s.client) (took : Took s packet client) : Unlimited client := by
  cases took with
  | received receiving outside => exact outside_unlimited outside
  | connected response => exact outside_unlimited rfl
  | passed other => exact unlimited
  | waited awaiting other =>
      rw [awaiting] at unlimited
      exact unlimited

theorem Unlimited.client {names : Names ι} (named : (names.server == names.identifier) = true)
    {s next : Link} {action : Action} {events : List Event} (unlimited : Unlimited s.client)
    (infinite : ∀ now timeoutMs, action = .connect now timeoutMs → timeoutMs = infiniteTimeout)
    (did : ClientDid names s action next events) :
    Unlimited next.client ∧ ∀ call, .notConnected call ∉ events := by
  have silent : ∀ call, Event.notConnected call ∉ ([] : List Event) := fun _ => List.not_mem_nil
  cases did with
  | @entered now timeoutMs idle =>
      rw [infinite now timeoutMs rfl]
      refine ⟨fun deadline limit => ?_, silent⟩
      cases limit
      rfl
  | called outside work brought quiet => exact ⟨outside_unlimited outside, quiet⟩
  | pinged atClient | notPinged atClient | waited atClient | repeated atClient =>
      rw [atClient] at unlimited
      exact ⟨unlimited, silent⟩
  | took atHead took =>
      obtain ⟨point, quiet⟩ := taken_took named took
      exact ⟨unlimited.took point, quiet⟩
  | gaveUp receiving => exact ⟨outside_unlimited rfl, by simp⟩
  | @expired now deadline checking late =>
      rw [checking] at unlimited
      rw [Deadline.isExpired, unlimited deadline rfl] at late
      cases late

end Link

end LinxIpc.Client
