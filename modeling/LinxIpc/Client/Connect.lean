import LinxIpc.Client.GenericClient

/-!
What `connect` proves about the server.

It returns true at the first `IPC_PING_RSP` it reads, and nothing tells whose
ping a response answers.  So it may trust a response only if, when it was called,
none was left unread and none could still come for an earlier ping.
-/

namespace LinxIpc.Client

variable {ι : Type}

structure PingTraffic (own : Nat → Prop) (s : Link) : Prop where
  responses : ∀ packet ∈ s.toClient, packet.message.reqId = ipcPingRsp → own packet.call
  answering : ∀ call, s.worker = .answering call → own call
  requests : s.worker ≠ .stopped →
    ∀ packet ∈ s.toServer, packet.message.reqId = ipcPingReq → own packet.call

/-- No response to an earlier ping is unread, and none can still arrive. -/
def Fresh (s : Link) : Prop := PingTraffic (fun _ => False) s

namespace Link

theorem mem_of_tail {channel rest : List Packet} {packet other : Packet}
    (atHead : channel = packet :: rest) (member : other ∈ rest) : other ∈ channel := by
  rw [atHead]
  exact List.mem_cons_of_mem packet member

structure Tagged (s : Link) (events : List Event) : Prop where
  requests : ∀ packet ∈ s.toServer, packet.call ≤ s.calls
  answering : ∀ call, s.worker = .answering call → call ≤ s.calls
  responses : ∀ packet ∈ s.toClient, packet.message.reqId = ipcPingRsp →
    .answered packet.call ∈ events
  answered : ∀ call, .answered call ∈ events → call ≤ s.calls

theorem tagged_initial : Tagged initial [] :=
  ⟨nofun, nofun, nofun, nofun⟩

theorem Tagged.silent {s next : Link} {events emitted : List Event} (tagged : Tagged s events)
    (silent : Silent emitted) (calls : s.calls ≤ next.calls)
    (toServer : ∀ packet ∈ next.toServer, packet ∈ s.toServer ∨ packet.call ≤ next.calls)
    (toClient : ∀ packet ∈ next.toClient, packet.message.reqId = ipcPingRsp →
      packet ∈ s.toClient)
    (worker : ∀ call, next.worker = .answering call →
      s.worker = .answering call ∨ call ≤ s.calls) : Tagged next (events ++ emitted) := by
  constructor
  · intro packet member
    rcases toServer packet member with older | own
    · exact Nat.le_trans (tagged.requests packet older) calls
    · exact own
  · intro call answering
    rcases worker call answering with older | known
    · exact Nat.le_trans (tagged.answering call older) calls
    · exact Nat.le_trans known calls
  · intro packet member response
    apply List.mem_append_left
    exact tagged.responses packet (toClient packet member response) response
  · intro call said
    rcases List.mem_append.mp said with before | now
    · exact Nat.le_trans (tagged.answered call before) calls
    · exact absurd now (silent call).1

theorem Tagged.begin {s : Link} {events emitted : List Event} (tagged : Tagged s events)
    (silent : Silent emitted) (client : Point) (sending : Option RawMessage) :
    Tagged (s.begin client sending) (events ++ emitted) := by
  refine tagged.silent silent (Nat.le_succ _) ?_ (fun _ member _ => member) (fun _ => .inl)
  intro packet member
  rcases List.mem_append.mp member with older | own
  · exact .inl older
  · obtain ⟨msg, -, rfl⟩ := List.mem_map.mp own
    exact .inr (Nat.le_refl _)

theorem Tagged.answer {s : Link} {events : List Event} (tagged : Tagged s events) {call : Nat}
    (answering : s.worker = .answering call) :
    Tagged { s with
      worker := .receiving
      toClient := s.toClient ++
        [{ call := call, message := { reqId := ipcPingRsp, payload := [] } }] }
      (events ++ [.answered call]) := by
  constructor
  · exact tagged.requests
  · exact nofun
  · intro packet member response
    rcases List.mem_append.mp member with older | own
    · exact List.mem_append_left _ (tagged.responses packet older response)
    · obtain rfl := List.mem_singleton.mp own
      exact List.mem_append_right _ (List.mem_singleton_self _)
  · intro other said
    rcases List.mem_append.mp said with before | now
    · exact tagged.answered other before
    · cases List.mem_singleton.mp now
      exact tagged.answering call answering

theorem Tagged.did {s next : Link} {action : Action} {events emitted : List Event}
    (tagged : Tagged s events) (did : Did s action next emitted) :
    Tagged next (events ++ emitted) := by
  cases did with
  | connect idle => exact tagged.begin silent_nil _ _
  | called other outside silent => exact tagged.begin silent _ _
  | pinged pinging =>
      refine tagged.silent silent_nil (Nat.le_refl _) ?_ (fun _ member _ => member) (fun _ => .inl)
      intro packet member
      rcases List.mem_append.mp member with older | own
      · exact .inl older
      · obtain rfl := List.mem_singleton.mp own
        exact .inr (Nat.le_refl _)
  | @connected later packet rest connecting atHead response =>
      constructor
      · exact tagged.requests
      · exact tagged.answering
      · intro other member isResponse
        apply List.mem_append_left
        exact tagged.responses other (mem_of_tail atHead member) isResponse
      · intro call said
        apply tagged.answered call
        simpa using said
  | @took later packet rest client events atHead stays silent =>
      exact tagged.silent silent (Nat.le_refl _) (fun _ => .inl)
        (fun _ member _ => mem_of_tail atHead member) (fun _ => .inl)
  | moved other stays silent =>
      exact tagged.silent silent (Nat.le_refl _) (fun _ => .inl) (fun _ member _ => member)
        (fun _ => .inl)
  | @served packet rest receiving atHead request =>
      refine tagged.silent silent_nil (Nat.le_refl _)
        (fun _ member => .inl (mem_of_tail atHead member)) (fun _ member _ => member) ?_
      intro call same
      cases same
      apply Or.inr
      apply tagged.requests packet
      rw [atHead]
      exact List.mem_cons_self
  | @passed packet rest receiving atHead =>
      exact tagged.silent silent_nil (Nat.le_refl _)
        (fun _ member => .inl (mem_of_tail atHead member)) (fun _ member _ => member)
        (fun _ => .inl)
  | answered answering => exact tagged.answer answering
  | @responded msg other =>
      refine tagged.silent silent_nil (Nat.le_refl _) (fun _ => .inl) ?_ (fun _ => .inl)
      intro packet member response
      rcases List.mem_append.mp member with older | own
      · exact older
      · obtain rfl := List.mem_singleton.mp own
        exact absurd response other
  | stopped =>
      exact tagged.silent silent_nil (Nat.le_refl _) (fun _ => .inl)
        (fun _ member _ => member) nofun

def Owns (s : Link) : Prop := s.client.connecting = true → PingTraffic (· = s.calls) s

theorem Owns.did {s next : Link} {action : Action} {events : List Event} (owns : Owns s)
    (fresh : action.isConnect = true → Fresh s) (did : Did s action next events) : Owns next := by
  intro connecting
  cases did with
  | connect idle =>
      obtain ⟨responses, answering, requests⟩ := fresh rfl
      refine ⟨?_, ?_, ?_⟩
      · intro packet member response
        exact (responses packet member response).elim
      · intro call isAnswering
        exact (answering call isAnswering).elim
      · intro running packet member request
        rw [begin, Option.toList_none, List.map_nil, List.append_nil] at member
        exact (requests running packet member request).elim
  | called other outside silent =>
      rw [begin, outside] at connecting
      cases connecting
  | pinged pinging =>
      have traffic := owns (by rw [pinging]; rfl)
      refine ⟨traffic.responses, traffic.answering, ?_⟩
      intro running packet member request
      rcases List.mem_append.mp member with older | own
      · exact traffic.requests running packet older request
      · obtain rfl := List.mem_singleton.mp own
        rfl
  | connected => cases connecting
  | @took later packet rest client events atHead stays silent =>
      have traffic := owns (stays connecting)
      exact ⟨fun other member => traffic.responses other (mem_of_tail atHead member),
        traffic.answering, traffic.requests⟩
  | moved other stays silent =>
      have traffic := owns (stays connecting)
      exact ⟨traffic.responses, traffic.answering, traffic.requests⟩
  | @served packet rest receiving atHead request =>
      have traffic := owns connecting
      have running : s.worker ≠ .stopped := by rw [receiving]; exact nofun
      have requests := traffic.requests running
      rw [atHead, List.forall_mem_cons] at requests
      refine ⟨traffic.responses, ?_, fun _ => requests.2⟩
      intro call same
      cases same
      exact requests.1 request
  | @passed packet rest receiving atHead =>
      have traffic := owns connecting
      refine ⟨traffic.responses, traffic.answering, ?_⟩
      intro running other member
      exact traffic.requests running other (mem_of_tail atHead member)
  | @answered call answering =>
      have traffic := owns connecting
      have running : s.worker ≠ .stopped := by rw [answering]; exact nofun
      refine ⟨?_, nofun, fun _ => traffic.requests running⟩
      intro packet member response
      rcases List.mem_append.mp member with older | own
      · exact traffic.responses packet older response
      · obtain rfl := List.mem_singleton.mp own
        exact traffic.answering call answering
  | @responded msg other =>
      have traffic := owns connecting
      refine ⟨?_, traffic.answering, traffic.requests⟩
      intro packet member response
      rcases List.mem_append.mp member with older | own
      · exact traffic.responses packet older response
      · obtain rfl := List.mem_singleton.mp own
        exact absurd response other
  | stopped =>
      have traffic := owns connecting
      exact ⟨traffic.responses, nofun, fun running => absurd rfl running⟩

theorem did_calls {s next : Link} {action : Action} {events : List Event}
    (did : Did s action next events) :
    s.calls ≤ next.calls ∧ (action.isConnect = true → s.calls < next.calls) := by
  cases did with
  | connect idle => exact ⟨Nat.le_succ _, fun _ => Nat.lt_succ_self _⟩
  | called other outside silent => exact ⟨Nat.le_succ _, fun _ => Nat.lt_succ_self _⟩
  | moved other stays silent =>
      refine ⟨Nat.le_refl _, fun isConnect => ?_⟩
      rw [other] at isConnect
      cases isConnect
  | pinged | connected | took | served | passed | answered | responded | stopped =>
      exact ⟨Nat.le_refl _, nofun⟩

theorem did_connected {s next : Link} {action : Action} {events : List Event} {call : Nat}
    (did : Did s action next events) (said : .connected call ∈ events) :
    call = s.calls ∧ s.client.connecting = true ∧
      ∃ packet ∈ s.toClient, packet.message.reqId = ipcPingRsp := by
  cases did with
  | @connected later packet rest connecting atHead response =>
      cases List.mem_singleton.mp said
      refine ⟨rfl, connecting, packet, ?_, response⟩
      rw [atHead]
      exact List.mem_cons_self
  | called other outside silent => exact absurd said (silent call).2
  | took atHead stays silent => exact absurd said (silent call).2
  | moved other stays silent => exact absurd said (silent call).2
  | answered answering => cases List.mem_singleton.mp said
  | connect | pinged | served | passed | responded | stopped => cases said

variable [BEq ι]

theorem run_tagged {names : Names ι} {actions : List Action} {s : Link} {events : List Event}
    (ran : (machine names).run initial actions = some (s, events)) : Tagged s events := by
  refine (machine names).run_invariant (motive := fun _ events s => Tagged s events)
    tagged_initial ?_ ran
  intro _ _ _ _ _ _ _ tagged stepped
  exact tagged.did (step_cases stepped)

structure Proves (call : Nat) (earlier events : List Event) (s : Link) : Prop where
  tagged : Tagged s (earlier ++ events)
  begun : call ≤ s.calls
  owns : s.calls = call → Owns s
  proved : .connected call ∈ events → .answered call ∈ earlier ++ events

theorem Proves.did {call : Nat} {earlier events emitted : List Event} {s next : Link}
    {action : Action} (proves : Proves call earlier events s)
    (did : Did s action next emitted) : Proves call earlier (events ++ emitted) next := by
  obtain ⟨onwards, connects⟩ := did_calls did
  constructor
  · rw [← List.append_assoc]
    exact proves.tagged.did did
  · exact Nat.le_trans proves.begun onwards
  · intro same
    have current : s.calls = call := Nat.le_antisymm (same ▸ onwards) proves.begun
    refine (proves.owns current).did ?_ did
    intro isConnect
    have later := connects isConnect
    omega
  · rw [← List.append_assoc, List.mem_append, List.mem_append]
    rintro (before | now)
    · exact .inl (proves.proved before)
    · obtain ⟨rfl, connecting, packet, member, response⟩ := did_connected did now
      have own := (proves.owns rfl connecting).responses packet member response
      rw [← own]
      exact .inl (proves.tagged.responses packet member response)

theorem fresh_connect_proves {names : Names ι} {before after : List Action} {s last : Link}
    {earlier events : List Event} {now timeoutMs : Int}
    (ran : (machine names).run initial before = some (s, earlier)) (fresh : Fresh s)
    (ranAfter : (machine names).run s (.connect now timeoutMs :: after) = some (last, events))
    (connected : .connected (s.calls + 1) ∈ events) : .answered (s.calls + 1) ∈ events := by
  have tagged := run_tagged ran
  obtain ⟨first, emitted, later, stepped, ranLater, rfl⟩ := (machine names).run_cons_inv ranAfter
  have did : Did s (.connect now timeoutMs) first emitted := @step_cases _ _ names _ _ _ _ stepped
  have quiet : s.client.connecting = false ∧ emitted = [] := by
    cases did with
    | connect idle =>
        rw [idle]
        exact ⟨rfl, rfl⟩
    | called other | moved other => cases other
  obtain ⟨outside, rfl⟩ := quiet
  have start : Proves (s.calls + 1) earlier [] first := by
    refine ⟨tagged.did did, (did_calls did).2 rfl, fun _ => ?_, nofun⟩
    refine Owns.did ?_ (fun _ => fresh) did
    intro connecting
    rw [outside] at connecting
    cases connecting
  have proves : Proves (s.calls + 1) earlier later last := by
    refine (machine names).run_invariant
      (motive := fun _ events s' => Proves (s.calls + 1) earlier events s') start ?_ ranLater
    intro _ _ _ _ _ _ _ proves stepped
    exact proves.did (step_cases stepped)
  rcases List.mem_append.mp (proves.proved connected) with before | now
  · -- no ping of this call was answered before it
    have old := tagged.answered _ before
    omega
  · exact now

/-! ### Channels that are not fresh -/

theorem stale_cases {s : Link} (stale : ¬ Fresh s) :
    (∃ packet ∈ s.toClient, packet.message.reqId = ipcPingRsp) ∨
      (∃ call, s.worker = .answering call) ∨
      (s.worker = .receiving ∧ ∃ packet ∈ s.toServer, packet.message.reqId = ipcPingReq) := by
  by_contra none
  rw [not_or, not_or] at none
  obtain ⟨noResponse, noAnswer, noRequest⟩ := none
  refine stale ⟨?_, ?_, ?_⟩
  · intro packet member response
    exact noResponse ⟨packet, member, response⟩
  · intro call answering
    exact noAnswer ⟨call, answering⟩
  · intro running packet member request
    cases atWorker : s.worker with
    | receiving => exact noRequest ⟨atWorker, packet, member, request⟩
    | answering call => exact noAnswer ⟨call, atWorker⟩
    | stopped => exact running atWorker

theorem notExpired (deadline : Deadline) : ∃ later, deadline.isExpired later = false := by
  obtain ⟨limit⟩ := deadline
  cases limit with
  | none => exact ⟨0, rfl⟩
  | some limit => exact ⟨limit, Deadline.isExpired_eq_false_iff.mpr (Int.le_refl _)⟩

/-- From here the call can return true with no ping of its own answered. -/
def Deceived (names : Names ι) (s : Link) (call : Nat) : Prop :=
  ∃ actions last events, (machine names).run s actions = some (last, events) ∧
    .connected call ∈ events ∧ .answered call ∉ events

theorem Deceived.after {names : Names ι} {s middle : Link} {actions : List Action}
    {events : List Event} {call : Nat} (deceived : Deceived names middle call)
    (ran : (machine names).run s actions = some (middle, events))
    (unanswered : .answered call ∉ events) : Deceived names s call := by
  obtain ⟨later, last, more, ranLater, connected, silent⟩ := deceived
  refine ⟨actions ++ later, last, events ++ more, (machine names).run_append ran ranLater,
    List.mem_append_right _ connected, ?_⟩
  rw [List.mem_append]
  rintro (before | now)
  · exact unanswered before
  · exact silent now

theorem awaited_iff {names : Names ι} (named : (names.server == names.identifier) = true)
    (msg : RawMessage) :
    matchesFilter [ipcPingRsp] (some names.identifier)
        { message := msg, sender := some names.server } = true ↔ msg.reqId = ipcPingRsp := by
  simp only [matchesFilter, matchesFrom, named, Bool.true_and, matchesSignalSelector_iff]
  simp

theorem awaiting_connects {names : Names ι} (named : (names.server == names.identifier) = true)
    {packets : List Packet} {s : Link} (unread : s.toClient = packets) {deadline wait : Deadline}
    (awaiting : s.client = .awaiting deadline wait)
    (stale : ∃ packet ∈ packets, packet.message.reqId = ipcPingRsp) :
    Deceived names s s.calls := by
  induction packets generalizing s with
  | nil =>
      obtain ⟨_, member, -⟩ := stale
      cases member
  | cons packet rest ih =>
      by_cases response : packet.message.reqId = ipcPingRsp
      · have matched := (awaited_iff named packet.message).mpr response
        have stepped : (machine names).step s (.take 0) =
            some ({ s with client := .idle, toClient := rest }, [.connected s.calls]) := by
          simp only [machine, step, unread, taken, awaiting, receiveBody_delivered, matched,
            if_true]
        exact ⟨[.take 0], _, _, (machine names).run_single stepped, by simp, by simp⟩
      · obtain ⟨later, running⟩ := notExpired wait
        have passed : matchesFilter [ipcPingRsp] (some names.identifier)
            { message := packet.message, sender := some names.server } = false := by
          rw [← Bool.not_eq_true, awaited_iff named]
          exact response
        have stepped : (machine names).step s (.take later) =
            some ({ s with toClient := rest }, []) := by
          simp only [machine, step, unread, taken, awaiting, receiveBody_delivered, passed, running,
            Bool.false_eq_true, if_false]
        have staleRest : ∃ packet ∈ rest, packet.message.reqId = ipcPingRsp := by
          obtain ⟨other, member, isResponse⟩ := stale
          rcases List.mem_cons.mp member with rfl | inRest
          · exact absurd isResponse response
          · exact ⟨other, inRest, isResponse⟩
        have deceived := ih (s := { s with toClient := rest }) rfl awaiting staleRest
        exact deceived.after ((machine names).run_single stepped) List.not_mem_nil

theorem serves_request {names : Names ι} {packets : List Packet} {s : Link}
    (unserved : s.toServer = packets) (receiving : s.worker = .receiving)
    (old : ∃ packet ∈ packets, packet.message.reqId = ipcPingReq) :
    ∃ actions rest packet, (machine names).run s actions =
        some ({ s with toServer := rest, worker := .answering packet.call }, []) ∧
      packet ∈ packets := by
  induction packets generalizing s with
  | nil =>
      obtain ⟨_, member, -⟩ := old
      cases member
  | cons packet rest ih =>
      by_cases request : packet.message.reqId = ipcPingReq
      · have stepped : (machine names).step s .serve =
            some ({ s with toServer := rest, worker := .answering packet.call }, []) := by
          simp only [machine, step, receiving, unserved, taskTurn_delivered, if_pos request]
        exact ⟨[.serve], rest, packet, (machine names).run_single stepped, List.mem_cons_self⟩
      · have stepped : (machine names).step s .serve = some ({ s with toServer := rest }, []) := by
          simp only [machine, step, receiving, unserved, taskTurn_delivered, if_neg request]
        have oldRest : ∃ packet ∈ rest, packet.message.reqId = ipcPingReq := by
          obtain ⟨other, member, isRequest⟩ := old
          rcases List.mem_cons.mp member with rfl | inRest
          · exact absurd isRequest request
          · exact ⟨other, inRest, isRequest⟩
        obtain ⟨actions, left, served, ran, member⟩ :=
          ih (s := { s with toServer := rest }) rfl receiving oldRest
        exact ⟨_, left, served, (machine names).run_cons_some stepped ran,
          List.mem_cons_of_mem packet member⟩

theorem pinging_connects {names : Names ι} (named : (names.server == names.identifier) = true)
    {s : Link} {deadline : Deadline} (pinging : s.client = .pinging deadline)
    (stale : ∃ packet ∈ s.toClient, packet.message.reqId = ipcPingRsp) :
    Deceived names s s.calls := by
  have stepped : (machine names).step s (.ping true 0) =
      some ({ s with
        client := .awaiting deadline (Deadline.create 0 pingTimeout)
        toServer := s.toServer ++
          [{ call := s.calls, message := { reqId := ipcPingReq, payload := [] } }] }, []) := by
    simp only [machine, step, pinging, if_true]
  have deceived := awaiting_connects named (s := { s with
    client := .awaiting deadline (Deadline.create 0 pingTimeout)
    toServer := s.toServer ++
      [{ call := s.calls, message := { reqId := ipcPingReq, payload := [] } }] }) rfl rfl stale
  exact deceived.after ((machine names).run_single stepped) List.not_mem_nil

theorem answering_connects {names : Names ι} (named : (names.server == names.identifier) = true)
    {s : Link} {deadline : Deadline} (pinging : s.client = .pinging deadline) {call : Nat}
    (answering : s.worker = .answering call) (older : call < s.calls) :
    Deceived names s s.calls := by
  have stepped : (machine names).step s .answer =
      some ({ s with
        worker := .receiving
        toClient := s.toClient ++
          [{ call := call, message := { reqId := ipcPingRsp, payload := [] } }] },
        [.answered call]) := by
    simp only [machine, step, answering]
  have deceived := pinging_connects named (s := { s with
    worker := .receiving
    toClient := s.toClient ++
      [{ call := call, message := { reqId := ipcPingRsp, payload := [] } }] })
    pinging ⟨_, List.mem_append_right _ (List.mem_singleton_self _), rfl⟩
  refine deceived.after ((machine names).run_single stepped) ?_
  intro member
  injection List.mem_singleton.mp member with same
  exact Nat.ne_of_gt older same

/-- Unless the channels are fresh, `connect` can return true with no ping of its
own answered. -/
theorem stale_connects {names : Names ι} (named : (names.server == names.identifier) = true)
    {s : Link} {events : List Event} (tagged : Tagged s events) (idle : s.client = .idle)
    (stale : ¬ Fresh s) (now timeoutMs : Int) :
    ∃ after last emitted,
      (machine names).run s (.connect now timeoutMs :: after) = some (last, emitted) ∧
      .connected (s.calls + 1) ∈ emitted ∧ .answered (s.calls + 1) ∉ emitted := by
  have stepped : (machine names).step s (.connect now timeoutMs) =
      some (s.begin (.pinging (Deadline.create now timeoutMs)) none, []) := by
    simp only [machine, step, idle]
  generalize begun : s.begin (.pinging (Deadline.create now timeoutMs)) none = first at stepped
  have pinging : first.client = .pinging (Deadline.create now timeoutMs) := by rw [← begun]; rfl
  have calls : first.calls = s.calls + 1 := by rw [← begun]; rfl
  have sameWorker : first.worker = s.worker := by rw [← begun]; rfl
  have sameServer : first.toServer = s.toServer := by
    rw [← begun]
    exact List.append_nil _
  have sameClient : first.toClient = s.toClient := by rw [← begun]; rfl
  suffices deceived : Deceived names first first.calls by
    obtain ⟨after, last, emitted, ran, connected, unanswered⟩ := deceived
    rw [calls] at connected unanswered
    exact ⟨after, last, _, (machine names).run_cons_some stepped ran, connected, unanswered⟩
  rcases stale_cases stale with unread | ⟨call, atWorker⟩ | ⟨atWorker, old⟩
  · exact pinging_connects named pinging (sameClient ▸ unread)
  · have older := tagged.answering call atWorker
    exact answering_connects named pinging (sameWorker.trans atWorker) (by omega)
  · -- the worker first takes that old ping
    obtain ⟨serving, rest, packet, ranServing, member⟩ :=
      @serves_request _ _ names _ first sameServer (sameWorker.trans atWorker) old
    have older := tagged.requests packet member
    have deceived := answering_connects named
      (s := { first with toServer := rest, worker := .answering packet.call })
      pinging rfl (by change packet.call < first.calls; omega)
    exact deceived.after ranServing List.not_mem_nil

/-- A call of `connect`, at any point of any run.  That the call returns true only
if a ping of its own was answered holds in every continuation exactly if the
channels are fresh when it begins. -/
theorem connect_answered_iff {names : Names ι} (named : (names.server == names.identifier) = true)
    {before : List Action} {s : Link} {earlier : List Event}
    (ran : (machine names).run initial before = some (s, earlier)) (idle : s.client = .idle)
    (now timeoutMs : Int) :
    (∀ after last events,
        (machine names).run s (.connect now timeoutMs :: after) = some (last, events) →
        .connected (s.calls + 1) ∈ events → .answered (s.calls + 1) ∈ events) ↔ Fresh s := by
  constructor
  · intro proves
    by_contra stale
    obtain ⟨after, last, emitted, ranAfter, connected, unanswered⟩ :=
      stale_connects named (run_tagged ran) idle stale now timeoutMs
    exact unanswered (proves after last emitted ranAfter connected)
  · intro fresh after last events ranAfter connected
    exact fresh_connect_proves ran fresh ranAfter connected

theorem connect_answered_iff_first :
    ∃ events : List Event, .connected 1 ∈ events ∧ .answered 1 ∈ events := by
  have ran : (machine (⟨1, 1, 2⟩ : Names Nat)).run initial
    (.connect 0 1000 :: [.ping true 0, .serve, .giveUp, .check 100000000, .ping true 100000000,
      .answer, .take 100000001]) = some (_, _) := rfl
  have fresh : Fresh initial := ⟨nofun, nofun, fun _ => nofun⟩
  refine ⟨_, ?_, (@connect_answered_iff Nat _ ⟨1, 1, 2⟩ rfl [] _ _ rfl rfl 0 1000).mpr fresh
    _ _ _ ran ?_⟩
  · decide
  · decide

/-- Two pings of the first call are answered, the second response stays unread,
the server stops, and the next `connect` returns true. -/
theorem stale_response_connects :
    ∃ (s : Link) (events : List Event),
      (machine (⟨1, 1, 2⟩ : Names Nat)).run initial
        [.connect 0 1000, .ping true 0, .giveUp, .check 100000000, .ping true 100000000,
          .serve, .answer, .serve, .answer, .take 100000001, .stop,
          .connect 200000000 1000, .ping true 200000000, .take 200000001] = some (s, events) ∧
      s.worker = .stopped ∧ .connected 2 ∈ events ∧ .answered 2 ∉ events := by
  refine ⟨_, _, rfl, rfl, ?_, ?_⟩
  · decide
  · decide

end Link

end LinxIpc.Client
