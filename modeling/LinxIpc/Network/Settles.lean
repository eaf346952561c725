import LinxIpc.Network.Pairing
import LinxIpc.Server.HandlerLoop

/-!
Every request is answered.

While no wait of a client ends early and nobody stops the server, the calls need so
many steps; and where none of these is left every call has returned its response,
but for those whose request met a full queue or had no callback.
-/

namespace LinxIpc.Network

variable {κ α β δ ι : Type}

open Server (arrivals messages)
open Server.Pipeline (invocations serverEvents unhandledMessages droppedMessages)

def Action.isRequest : Action κ α β δ ι → Bool
  | .sendReceive _ _ sent _ _ => sent
  | _ => false

def Action.isSpurious : Action κ α β δ ι → Bool
  | .pipeline action => action.isSpurious
  | _ => false

def Action.isWork : Action κ α β δ ι → Bool
  | .sendReceive _ _ _ _ _ | .giveUp _ => false
  | .take _ _ | .deliver _ | .respond => true
  | .pipeline action => action.isWork

/-- No `socket->receive` of a client returns early, and the server runs with a handler
in its loop. -/
def Looping (net : Network κ α β δ ι) : Action κ α β δ ι → Bool
  | .giveUp _ => false
  | .pipeline action => net.pipeline.Looping action
  | .sendReceive _ _ _ _ _ | .take _ _ | .deliver _ | .respond => true

structure Loops (net : Network κ α β δ ι) : Prop where
  pipeline : net.pipeline.Loops
  owed : net.owed.length = net.pipeline.callbacks.length

def cost [Fintype κ] (net : Network κ α β δ ι) : Nat :=
  (∑ client, (net.toServer client).length) * 12 + net.pipeline.cost 2 +
    (net.owed.filterMap id).length * 2 + ∑ client, (net.toClient client).length

def Action.brings (action : Action κ α β δ ι) : Nat :=
  action.isRequest.toNat * 12 + action.isSpurious.toNat

theorem datagram_wellFormed (peers : Peers κ α ι) (client : κ) (request : RawMessage) :
    WellFormed (peers.datagram client request) := by
  simp only [WellFormed, Peers.datagram, RawMessage.bytes, List.length_append, htonl_length]
  omega

variable [BEq ι]

/-! ### The callbacks and what they owe -/

theorem owed_length {identifier : α → ι} {p next : Server.Pipeline α β δ ι}
    {action : Server.Pipeline.Action α β δ ι} {events : List (Server.Pipeline.Event α β δ ι)}
    (did : Server.Pipeline.Did identifier p action next events)
    {owed after : List (Option (LinxReceivedMessage ι))}
    (same : owed.length = p.callbacks.length)
    (kept : owedAfter owed action events = some after) :
    after.length = next.callbacks.length := by
  cases did with
  | server allowed stepped | called free stepped =>
      cases kept
      rw [invocations_server]
      exact same
  | registered free =>
      cases kept
      exact same
  | @dispatched recvMsg server events returning stepped =>
      cases kept
      rw [invocations_append, invocations_server, List.nil_append]
      cases p.handler.handleMessage recvMsg with
      | invoked container msg => exact congrArg (· + 1) same
      | returned unhandled result => cases unhandled <;> exact same
  | left free inside =>
      rw [inside] at same
      cases owed with
      | nil => cases same
      | cons head rest =>
          cases head with
          | some msg => cases kept
          | none =>
              cases kept
              exact Nat.succ.inj same

/-! ### The steps -/

section

variable [DecidableEq κ]

omit [BEq ι] [DecidableEq κ] in
theorem loops_create (efd : LinxEventFd) (size : Int32) :
    Loops (create (κ := κ) (α := α) (β := β) (δ := δ) (ι := ι) efd size) :=
  ⟨Server.Pipeline.loops_create efd size, rfl⟩

theorem Loops.did {peers : Peers κ α ι} {respond : LinxReceivedMessage ι → RawMessage}
    {net next : Network κ α β δ ι} {action : Action κ α β δ ι} {events : List (Event κ α β δ ι)}
    (loops : Loops net) (looping : net.Looping action = true)
    (did : Did peers respond net action next events) : Loops next := by
  cases did with
  | @delivered client request rest pipeline events atHead stepped =>
      have inside := Server.Pipeline.step_cases stepped
      have arrives : net.pipeline.Looping (.server (.arrive (peers.datagram client request))) =
          true := decide_eq_true (datagram_wellFormed peers client request)
      refine ⟨(loops.pipeline.did 2 arrives inside).1, ?_⟩
      cases inside with
      | server allowed moved => exact loops.owed
  | pipeline allowed stepped kept =>
      have inside := Server.Pipeline.step_cases stepped
      exact ⟨(loops.pipeline.did 2 looping inside).1, owed_length inside loops.owed kept⟩
  | @responded msg rest peer atHead sender =>
      refine ⟨loops.pipeline, ?_⟩
      have same := loops.owed
      rw [atHead] at same
      exact same
  | requested | notSent | answered | dropped | expired | gaveUp => exact { loops with }

variable [Fintype κ]

theorem sum_lengths (channels : κ → List RawMessage) (client : κ) (after : List RawMessage) :
    ∑ other, (Function.update channels client after other).length + (channels client).length =
      ∑ other, (channels other).length + after.length :=
  Machine.sum_update channels List.length client after

omit [BEq ι] in
theorem took_cost {net : Network κ α β δ ι} {client : κ} {msg : RawMessage}
    {rest : List RawMessage} (atHead : net.toClient client = msg :: rest) (points : κ → Point) :
    1 + cost { net with
        client := points
        toClient := Function.update net.toClient client rest } = cost net := by
  have shorter := sum_lengths net.toClient client rest
  rw [atHead, List.length_cons] at shorter
  simp only [cost]
  omega

theorem respond_lengths (channels : κ → List RawMessage) (client : Option κ)
    (response : RawMessage) :
    ∑ other : κ, ((match client with
        | some client => Function.update channels client (channels client ++ [response])
        | none => channels) other).length ≤ ∑ other, (channels other).length + 1 := by
  cases client with
  | none => exact Nat.le_succ _
  | some client =>
      have longer := sum_lengths channels client (channels client ++ [response])
      rw [List.length_append, List.length_singleton] at longer
      rw [← Nat.add_assoc, Nat.add_right_comm] at longer
      exact Nat.le_of_eq (Nat.add_right_cancel longer)

omit [BEq ι] [DecidableEq κ] in
theorem responded_cost {net : Network κ α β δ ι} {msg : LinxReceivedMessage ι}
    {rest : List (Option (LinxReceivedMessage ι))} (atHead : net.owed = some msg :: rest)
    (toClient : κ → List RawMessage)
    (sent : ∑ other, (toClient other).length ≤ ∑ other, (net.toClient other).length + 1) :
    1 + cost { net with owed := none :: rest, toClient := toClient } ≤ cost net := by
  simp only [cost, atHead, List.filterMap_cons, id, List.length_cons]
  omega

theorem did_cost {peers : Peers κ α ι} {respond : LinxReceivedMessage ι → RawMessage}
    {net next : Network κ α β δ ι} {action : Action κ α β δ ι} {events : List (Event κ α β δ ι)}
    (loops : Loops net) (looping : net.Looping action = true)
    (did : Did peers respond net action next events) :
    action.isWork.toNat + cost next ≤ cost net + action.brings := by
  cases did with
  | @requested client request now timeoutMs idle other =>
      have longer := sum_lengths net.toServer client (net.toServer client ++ [request])
      rw [List.length_append, List.length_singleton] at longer
      simp only [cost, Action.isWork, Action.brings, Action.isRequest, Action.isSpurious,
        Bool.toNat_false, Bool.toNat_true]
      omega
  | notSent idle =>
      simp only [Action.isWork, Bool.toNat_false]
      omega
  | answered receiving atHead named =>
      rw [Action.isWork, Bool.toNat_true, took_cost atHead]
      exact Nat.le_add_right _ _
  | dropped atHead stranger =>
      rw [Action.isWork, Bool.toNat_true, took_cost atHead]
      exact Nat.le_add_right _ _
  | expired receiving atHead stranger =>
      rw [Action.isWork, Bool.toNat_true, took_cost atHead]
      exact Nat.le_add_right _ _
  | gaveUp receiving => cases looping
  | @delivered client request rest pipeline events atHead stepped =>
      have arrives : net.pipeline.Looping (.server (.arrive (peers.datagram client request))) =
          true := decide_eq_true (datagram_wellFormed peers client request)
      have lower := (loops.pipeline.did 2 arrives (Server.Pipeline.step_cases stepped)).2
      have shorter := sum_lengths net.toServer client rest
      rw [atHead, List.length_cons] at shorter
      simp only [Server.Pipeline.Action.isWork, Server.Pipeline.Action.brings,
        Server.Pipeline.Action.isArrival, Server.Pipeline.Action.isSpurious,
        Server.Action.isArrival, Bool.toNat_false, Bool.toNat_true] at lower
      simp only [cost, Action.isWork, Bool.toNat_true]
      omega
  | @pipeline action pipeline events owed allowed stepped kept =>
      have inside := Server.Pipeline.step_cases stepped
      have lower := (loops.pipeline.did 2 looping inside).2
      have owes := congrArg List.length (pipeline_owes inside kept)
      rw [List.length_append, List.length_map] at owes
      have noArrival : action.isArrival = false := by
        cases action with
        | server action =>
            cases action with
            | arrive datagram => cases allowed
            | receive | receiveFails | answer | queue | start | stop | join => rfl
        | registerCallback | handleMessage | dispatch | callbackReturns => rfl
      simp only [Server.Pipeline.Action.brings, noArrival, Bool.toNat_false] at lower
      simp only [cost, Action.isWork, Action.brings, Action.isRequest, Action.isSpurious,
        Bool.toNat_false]
      omega
  | @responded msg rest peer atHead sender =>
      have lower := responded_cost atHead _
        (respond_lengths net.toClient (peers.route peer) (respond msg))
      exact Nat.le_add_right_of_le lower

end

/-! ### Some party can go on, or all of them wait -/

section

variable [DecidableEq κ]

def Works (peers : Peers κ α ι) (respond : LinxReceivedMessage ι → RawMessage)
    (net : Network κ α β δ ι) : Prop :=
  ∃ action : Action κ α β δ ι, action.isWork = true ∧
    ((machine peers respond).restrict Looping).step net action ≠ none

omit [DecidableEq κ] [BEq ι] in
theorem isWork_pipelineAction {action : Server.Pipeline.Action α β δ ι}
    (work : action.isWork = true) : PipelineAction action = true := by
  cases action with
  | server action =>
      cases action with
      | arrive datagram => cases work
      | receive | receiveFails | answer | queue | start | stop | join => rfl
  | registerCallback | handleMessage | dispatch | callbackReturns => rfl

theorem pipeline_enabled {peers : Peers κ α ι} {respond : LinxReceivedMessage ι → RawMessage}
    {net : Network κ α β δ ι} {action : Server.Pipeline.Action α β δ ι}
    (allowed : PipelineAction action = true)
    (enabled : net.pipeline.step peers.identifier action ≠ none)
    (kept : ∀ events, owedAfter net.owed action events ≠ none) :
    net.step peers respond (.pipeline action) ≠ none := by
  obtain ⟨⟨pipeline, events⟩, stepped⟩ := Option.ne_none_iff_exists'.mp enabled
  obtain ⟨owed, after⟩ := Option.ne_none_iff_exists'.mp (kept events)
  simp only [step, allowed, if_true, stepped, after]
  exact Option.some_ne_none _

theorem Loops.callback_works {peers : Peers κ α ι} {respond : LinxReceivedMessage ι → RawMessage}
    {net : Network κ α β δ ι} (loops : Loops net)
    (senders : ∀ msg ∈ net.owed.filterMap id, msg.sender ≠ none) :
    (net.owed = [] ∧ net.pipeline.callbacks = []) ∨ Works peers respond net := by
  have same := loops.owed
  cases inside : net.pipeline.callbacks with
  | nil =>
      rw [inside] at same
      exact .inl ⟨List.eq_nil_of_length_eq_zero same, rfl⟩
  | cons container callbacks =>
      right
      have outside : net.pipeline.receiving = false := by
        by_contra receiving
        rw [loops.pipeline.outside (Bool.eq_true_of_not_eq_false receiving)] at inside
        cases inside
      rw [inside] at same
      cases atHead : net.owed with
      | nil =>
          rw [atHead] at same
          cases same
      | cons head rest =>
          cases head with
          | some msg =>
              have known := senders msg (by rw [atHead]; exact List.mem_cons_self)
              obtain ⟨peer, sender⟩ := Option.ne_none_iff_exists'.mp known
              refine ⟨.respond, rfl, Machine.restrict_enabled rfl ?_⟩
              simp only [machine, step, outside, atHead, Server.sendResponse, sender, if_true]
              exact Option.some_ne_none _
          | none =>
              have enabled : net.step peers respond (.pipeline (.callbackReturns 0)) ≠ none := by
                refine pipeline_enabled rfl ?_ ?_
                · simp only [Server.Pipeline.step, outside, inside]
                  exact Option.some_ne_none _
                · intro events
                  rw [atHead]
                  exact Option.some_ne_none _
              exact ⟨.pipeline (.callbackReturns 0), rfl, Machine.restrict_enabled rfl enabled⟩

theorem Loops.deliver_works {peers : Peers κ α ι} {respond : LinxReceivedMessage ι → RawMessage}
    {net : Network κ α β δ ι} (loops : Loops net) (client : κ) :
    net.toServer client = [] ∨ Works peers respond net := by
  cases atHead : net.toServer client with
  | nil => exact .inl rfl
  | cons request rest =>
      refine .inr ⟨.deliver client, rfl, Machine.restrict_enabled rfl ?_⟩
      simp only [machine, step, atHead, Server.Pipeline.step, Server.Pipeline.ServerAction,
        Server.State.step, loops.pipeline.opened, if_true]
      exact Option.some_ne_none _

omit [DecidableEq κ] in
theorem taken_receiving (peers : Peers κ α ι) (client : κ) (request msg : RawMessage)
    (deadline : Deadline) (later : Int) :
    ∃ after : Point × List (Event κ α β δ ι),
      taken peers client (.receiving request deadline) msg later = some after := by
  have body := Client.Link.receiveBody_delivered
    (⟨peers.target client, peers.server, peers.server⟩ : Client.Names ι) [] msg
  simp only [matchesFilter, matchesFrom, matchesSignalSelector, List.length_nil, beq_self_eq_true,
    Bool.true_or, Bool.and_true] at body
  simp only [taken, body]
  cases peers.server == peers.target client with
  | true => exact ⟨_, rfl⟩
  | false =>
      cases deadline.isExpired later with
      | true => exact ⟨_, rfl⟩
      | false => exact ⟨_, rfl⟩

theorem take_works (peers : Peers κ α ι) (respond : LinxReceivedMessage ι → RawMessage)
    (net : Network κ α β δ ι) (client : κ) :
    net.client client = .idle ∨ net.toClient client = [] ∨ Works peers respond net := by
  cases atPoint : net.client client with
  | idle => exact .inl rfl
  | receiving request deadline =>
      right
      cases atHead : net.toClient client with
      | nil => exact .inl rfl
      | cons msg rest =>
          refine .inr ⟨.take client 0, rfl, Machine.restrict_enabled rfl ?_⟩
          obtain ⟨⟨point, events⟩, took⟩ :=
            taken_receiving (α := α) (β := β) (δ := δ) peers client request msg deadline 0
          simp only [machine, step, atHead, atPoint, took]
          exact Option.some_ne_none _

/-- Nothing is on its way, and who waits waits for a response that nobody owes. -/
structure Quiet (net : Network κ α β δ ι) : Prop where
  pipeline : net.pipeline.Quiet
  owed : net.owed = []
  toServer : ∀ client, net.toServer client = []
  toClient : ∀ client, net.client client = .idle ∨ net.toClient client = []

omit [DecidableEq κ] [BEq ι] in
theorem owedAfter_some {owed : List (Option (LinxReceivedMessage ι))}
    {action : Server.Pipeline.Action α β δ ι}
    (stays : ∀ result, action ≠ .callbackReturns result)
    (events : List (Server.Pipeline.Event α β δ ι)) : owedAfter owed action events ≠ none := by
  cases action with
  | callbackReturns result => exact absurd rfl (stays result)
  | server | registerCallback | handleMessage | dispatch => exact Option.some_ne_none _

theorem pipeline_works {peers : Peers κ α ι} (respond : LinxReceivedMessage ι → RawMessage)
    {net : Network κ α β δ ι} (outside : net.pipeline.callbacks = [])
    (works : net.pipeline.Works peers.identifier) : Works peers respond net := by
  obtain ⟨action, work, enabled⟩ := works
  obtain ⟨⟨next, events⟩, stepped⟩ := Option.ne_none_iff_exists'.mp enabled
  obtain ⟨looping, moved⟩ := Machine.restrict_step.mp stepped
  have taken : net.pipeline.step peers.identifier action = some (next, events) := moved
  have stays : ∀ result, action ≠ .callbackReturns result := by
    rintro result rfl
    cases Server.Pipeline.step_cases taken with
    | left free inside =>
        rw [inside] at outside
        cases outside
  have moves : net.pipeline.step peers.identifier action ≠ none := by
    rw [taken]
    exact Option.some_ne_none _
  have enabled : net.step peers respond (.pipeline action) ≠ none :=
    pipeline_enabled (isWork_pipelineAction work) moves (owedAfter_some stays)
  exact ⟨.pipeline action, work, Machine.restrict_enabled looping enabled⟩

end

section

variable [DecidableEq κ] {peers : Peers κ α ι} {respond : LinxReceivedMessage ι → RawMessage}
  {efd : LinxEventFd} {size : Int32} {actions : List (Action κ α β δ ι)}
  {net : Network κ α β δ ι} {events : List (Event κ α β δ ι)}

theorem run_owed (running : ∀ action ∈ actions, action ≠ .pipeline (.server .stop))
    (ran : (machine peers respond).run (create efd size) actions = some (net, events)) :
    ∀ msg ∈ net.owed.filterMap id, ∃ client request, msg = peers.container client request := by
  intro msg owes
  have carried := run_carried ran
  obtain ⟨pipelineActions, noStop, ranPipeline⟩ := run_pipeline running ran
  have invoked := Server.Pipeline.run_invocations noStop ranPipeline
  rw [carried.arrived, messages_datagrams carried.deliveries_not_pings] at invoked
  have member := invoked.subset (carried.invoked.subset (List.mem_append_right _ owes))
  obtain ⟨delivery, -, same⟩ := List.mem_map.mp member
  exact ⟨delivery.1, delivery.2, same.symm⟩

theorem Loops.works_or_quiet (loops : Loops net)
    (running : ∀ action ∈ actions, action ≠ .pipeline (.server .stop))
    (ran : (machine peers respond).run (create efd size) actions = some (net, events))
    (started : net.pipeline.server.worker ≠ .absent) :
    Works peers respond net ∨ Quiet net := by
  by_cases works : Works peers respond net
  · exact .inl works
  · have senders : ∀ msg ∈ net.owed.filterMap id, msg.sender ≠ none := by
      intro msg owes
      obtain ⟨client, request, rfl⟩ := run_owed running ran msg owes
      exact Option.some_ne_none _
    obtain ⟨owed, outside⟩ := (loops.callback_works senders).resolve_right works
    obtain ⟨pipelineActions, noStop, ranPipeline⟩ := run_pipeline running ran
    have quiet := (loops.pipeline.works_or_quiet noStop ranPipeline started).resolve_left
      fun moves => works (pipeline_works respond outside moves)
    refine .inr ⟨quiet, owed, ?_, ?_⟩
    · intro client
      exact (loops.deliver_works client).resolve_right works
    · intro client
      rcases take_works peers respond net client with idle | empty | moves
      · exact .inl idle
      · exact .inr empty
      · exact absurd moves works

/-! ### Nothing left to do -/

/-- The messages of the client that met a full queue, or for which there was no
callback. -/
def lostTo (peers : Peers κ α ι) (client : κ) (events : List (Event κ α β δ ι)) :
    List (LinxReceivedMessage ι) :=
  (unhandledMessages (pipelineEvents events) ++ droppedMessages (pipelineEvents events)).filter
    fun msg => decide (msg.sender.bind peers.route = some client)

theorem Quiet.accounts (quiet : Quiet net)
    (running : ∀ action ∈ actions, action ≠ .pipeline (.server .stop))
    (ran : (machine peers respond).run (create efd size) actions = some (net, events))
    (client : κ) :
    (answeredTo peers client events ++ lostTo peers client events).Perm
      ((requests client events).map (peers.container client)) := by
  have carried := run_carried ran
  obtain ⟨pipelineActions, noStop, ranPipeline⟩ := run_pipeline running ran
  have everything := (quiet.pipeline.accounts noStop ranPipeline).2
  rw [carried.arrived, messages_datagrams carried.deliveries_not_pings] at everything
  have invoked := carried.invoked
  rw [quiet.owed, List.filterMap_nil, List.append_nil] at invoked
  have own := ((invoked.append_right _).trans everything).filter
    (fun msg => decide (msg.sender.bind peers.route = some client))
  rw [List.filter_append, routed_containers] at own
  rw [carried.sent client, quiet.toServer, List.append_nil]
  exact own

/-! ### The responses -/

def Answers (expected : RawMessage → RawMessage) (calls : List Call) : Prop :=
  ∀ call ∈ calls, call.result = if call.sent then some (expected call.request) else none

omit [BEq ι] [DecidableEq κ] in
theorem Answers.results {expected : RawMessage → RawMessage} {calls : List Call}
    (answers : Answers expected calls) :
    calls.filterMap Call.result = ((calls.filter Call.sent).map Call.request).map expected := by
  induction calls with
  | nil => rfl
  | cons call rest ih =>
      obtain ⟨own, others⟩ := List.forall_mem_cons.mp answers
      rw [List.filterMap_cons, own, ih others]
      cases sent : call.sent with
      | true =>
          rw [List.filter_cons_of_pos sent]
          rfl
      | false =>
          rw [List.filter_cons_of_neg (Bool.eq_false_iff.mp sent)]
          rfl

theorem next_response (running : ∀ action ∈ actions, action ≠ .pipeline (.server .stop))
    (ran : (machine peers respond).run (create efd size) actions = some (net, events))
    {client : κ} (named : (peers.server == peers.target client) = true)
    (answers : Answers (fun request => respond (peers.container client request))
      (calls client events)) {request response : RawMessage} {rest : List RawMessage}
    (current : (net.client client).current = [request])
    (atHead : net.toClient client = response :: rest) :
    response = respond (peers.container client request) := by
  obtain ⟨called, -, returned, -⟩ := run_returned ran client
  obtain ⟨reordered, same, sublist⟩ := run_answeredTo running ran client
  have responses : ((answeredTo peers client events).map respond).Subperm
      ((requests client events).map (fun request => respond (peers.container client request))) := by
    have mapped := sublist.map respond
    rw [List.map_map] at mapped
    exact ⟨_, same.map respond, mapped⟩
  rw [returned named, answers.results, atHead, called, current, List.map_append,
    List.map_singleton] at responses
  have last := (List.subperm_append_left _).mp responses
  exact List.mem_singleton.mp (last.subset List.mem_cons_self)

/-! ### Whole runs -/

theorem looping_unstopped {start : Network κ α β δ ι}
    (ran : ((machine peers respond).restrict Looping).run start actions = some (net, events)) :
    ∀ action ∈ actions, action ≠ .pipeline (.server .stop) := by
  refine Machine.restrict_within ?_ ran
  rintro net action looping rfl
  cases looping

omit [BEq ι] in
theorem answers_finished {expected : RawMessage → RawMessage} (client other : κ) {call : Call}
    (own : other = client →
      call.result = if call.sent then some (expected call.request) else none) :
    Answers expected (calls client [(.finished other call : Event κ α β δ ι)]) := by
  rw [calls_finished]
  by_cases same : other = client
  · rw [if_pos same]
    exact List.forall_mem_singleton.mpr (own same)
  · rw [if_neg same]
    exact List.forall_mem_nil _

theorem run_answers (named : ∀ client, (peers.server == peers.target client) = true)
    (ran : ((machine peers respond).restrict Looping).run (create efd size) actions =
      some (net, events)) (client : κ) :
    Answers (fun request => respond (peers.container client request)) (calls client events) := by
  refine ((machine peers respond).restrict Looping).run_invariant
    (motive := fun _ events _ => Answers (fun request => respond (peers.container client request))
      (calls client events)) (List.forall_mem_nil _) ?_ ran
  intro actions events net action next emitted ranSoFar answers stepped
  obtain ⟨looping, moved⟩ := Machine.restrict_step.mp stepped
  rw [(client_logs_append peers client events emitted).2.1]
  suffices own : Answers (fun request => respond (peers.container client request))
      (calls client emitted) from List.forall_mem_append.mpr ⟨answers, own⟩
  cases step_cases moved with
  | notSent => exact answers_finished _ _ fun _ => rfl
  | @answered other later request msg deadline rest receiving atHead =>
      refine answers_finished _ _ ?_
      rintro rfl
      refine congrArg some ?_
      exact next_response (looping_unstopped ranSoFar) (Machine.restrict_run ranSoFar) (named other)
        answers (by rw [receiving]; rfl) atHead
  | @dropped other later msg rest atHead stranger
  | @expired other later request msg deadline rest receiving atHead stranger =>
      rw [named other] at stranger
      cases stranger
  | gaveUp => cases looping
  | @delivered other request rest pipeline emitted atHead =>
      have silent : calls client (.delivered other request ::
          emitted.map (Event.pipeline (κ := κ))) = [] :=
        (pipeline_client_logs peers client emitted).2.1
      rw [silent]
      exact List.forall_mem_nil _
  | @pipeline action pipeline emitted =>
      rw [(pipeline_client_logs peers client emitted).2.1]
      exact List.forall_mem_nil _
  | requested | responded => exact List.forall_mem_nil _

theorem Quiet.idle_iff (quiet : Quiet net)
    (named : ∀ client, (peers.server == peers.target client) = true)
    (ran : ((machine peers respond).restrict Looping).run (create efd size) actions =
      some (net, events)) (client : κ) :
    net.client client = .idle ↔ lostTo peers client events = [] := by
  have plain := Machine.restrict_run ran
  have total := (quiet.accounts (looping_unstopped ran) plain client).length_eq
  obtain ⟨called, -, returned, -⟩ := run_returned plain client
  have read := congrArg List.length (returned (named client))
  rw [(run_answers named ran client).results] at read
  simp only [called, List.length_append, List.length_map] at total read
  rcases quiet.toClient client with idle | empty
  · rw [idle] at total
    refine iff_of_true idle (List.eq_nil_of_length_eq_zero ?_)
    simp only [Point.current, List.length_nil] at total
    omega
  · rw [empty] at read
    cases atPoint : net.client client with
    | idle =>
        rw [atPoint] at total
        refine iff_of_true rfl (List.eq_nil_of_length_eq_zero ?_)
        simp only [Point.current, List.length_nil] at total
        omega
    | receiving request deadline =>
        rw [atPoint] at total
        refine iff_of_false (by simp) ?_
        intro nothing
        rw [nothing] at total
        simp only [Point.current, List.length_nil, List.length_singleton] at total read
        omega

theorem loops_fed [Fintype κ] (peers : Peers κ α ι)
    (respond : LinxReceivedMessage ι → RawMessage) :
    ((machine (β := β) (δ := δ) peers respond).restrict Looping).Fed Loops (fun _ => True)
      Action.isWork Action.brings cost where
  kept _ _ _ _ loops _ stepped := by
    obtain ⟨looping, moved⟩ := Machine.restrict_step.mp stepped
    exact loops.did looping (step_cases moved)
  lowered _ _ _ _ loops _ stepped := by
    obtain ⟨looping, moved⟩ := Machine.restrict_step.mp stepped
    exact did_cost loops looping (step_cases moved)

omit [BEq ι] [DecidableEq κ] in
theorem sum_brings (actions : List (Action κ α β δ ι)) :
    (actions.map Action.brings).sum =
      actions.countP Action.isRequest * 12 + actions.countP Action.isSpurious := by
  change (actions.map fun action =>
    action.isRequest.toNat * 12 + action.isSpurious.toNat).sum = _
  rw [List.sum_map_add, Machine.sum_portions, Machine.sum_marked]

/-- Finitely many clients of a server that nobody stops, whose handler is called in a
loop.  A request costs the channels, the server and its client so many steps, of which
the next can be taken until each request was answered, met a full queue or had no
callback.  A call whose request is answered returns its own response, and no other
call waits on. -/
theorem requests_settle [Fintype κ]
    (named : ∀ client, (peers.server == peers.target client) = true)
    (ran : ((machine peers respond).restrict Looping).run (create efd size) actions =
      some (net, events)) :
    actions.countP Action.isWork ≤
        actions.countP Action.isRequest * 12 + actions.countP Action.isSpurious + 3 ∧
      (∀ client, ∀ call ∈ calls client events, call.sent = true →
        call.result = some (respond (peers.container client call.request))) ∧
      (net.pipeline.server.worker = .absent ∨ Works peers respond net ∨
        ∀ client, (answeredTo peers client events ++ lostTo peers client events).Perm
            ((requests client events).map (peers.container client)) ∧
          (net.client client = .idle ↔ lostTo peers client events = [])) := by
  obtain ⟨loops, bound⟩ :=
    (loops_fed peers respond).run (loops_create efd size) (fun _ _ => trivial) ran
  have running := looping_unstopped ran
  have plain := Machine.restrict_run ran
  refine ⟨?_, ?_, ?_⟩
  · have few : cost (create (κ := κ) (α := α) (β := β) (δ := δ) (ι := ι) efd size) = 3 := by
      simp [cost, create, Server.Pipeline.cost_create]
    rw [sum_brings, few] at bound
    omega
  · intro client call member sent
    have answers := run_answers named ran client call member
    rw [sent] at answers
    exact answers
  · by_cases started : net.pipeline.server.worker = .absent
    · exact .inl started
    · rcases loops.works_or_quiet running plain started with works | quiet
      · exact .inr (.inl works)
      · exact .inr (.inr fun client =>
          ⟨quiet.accounts running plain client, quiet.idle_iff named ran client⟩)

end

theorem requests_settle_one_lost :
    ∃ (peers : Peers (Fin 2) SockaddrIn PortInfo)
      (net : Network (Fin 2) SockaddrIn Nat Unit PortInfo)
      (events : List (Event (Fin 2) SockaddrIn Nat Unit PortInfo)),
      (Works peers (fun msg => ⟨msg.message.reqId + 100, msg.message.payload⟩) net ∨
        ∀ client, (answeredTo peers client events ++ lostTo peers client events).Perm
            ((requests client events).map (peers.container client)) ∧
          (net.client client = .idle ↔ lostTo peers client events = [])) ∧
      (calls 0 events).map Call.result = [some ⟨107, [1]⟩] ∧
      lostTo peers 1 events = [peers.container 1 ⟨8, [2]⟩] := by
  let address : Fin 2 → SockaddrIn := fun client => ⟨(127, 0, 0, 1), (0, UInt8.ofNat client)⟩
  let peers : Peers (Fin 2) SockaddrIn PortInfo :=
    { address := address, identifier := UdpSocket.identifier
      route := fun peer => if peer.port = 0 then some 0 else some 1
      routed := by decide, server := PortInfo.create [] 5, target := fun _ => PortInfo.create [] 5 }
  have ran : ((machine peers fun msg => ⟨msg.message.reqId + 100, msg.message.payload⟩).restrict
      Looping).run (create (β := Nat) (δ := Unit) ⟨3, 0⟩ 2)
    [.pipeline (.registerCallback 7 1 ()), .pipeline (.server .start),
      .sendReceive 0 ⟨7, [1]⟩ true 0 50, .sendReceive 1 ⟨8, [2]⟩ true 0 50, .deliver 0, .deliver 1,
      .pipeline (.server .receive), .pipeline (.server (.queue (.lock .worker))),
      .pipeline (.server (.queue (.notify .worker))), .pipeline (.server (.queue (.ret .worker))),
      .pipeline (.server .receive), .pipeline (.server (.queue (.lock .worker))),
      .pipeline (.server (.queue (.notify .worker))), .pipeline (.server (.queue (.ret .worker))),
      .pipeline (.handleMessage infiniteTimeout),
      .pipeline (.server (.queue (.lock (.consumer ())))), .pipeline .dispatch, .respond,
      .pipeline (.callbackReturns 0), .take 0 1, .pipeline (.handleMessage infiniteTimeout),
      .pipeline (.server (.queue (.lock (.consumer ())))), .pipeline .dispatch,
      .pipeline (.handleMessage infiniteTimeout),
      .pipeline (.server (.queue (.lock (.consumer ()))))] = some (_, _) := rfl
  obtain ⟨-, -, absent | next⟩ := requests_settle (by decide) ran
  · cases absent
  · exact ⟨peers, _, _, next, by decide +kernel, by decide +kernel⟩

end LinxIpc.Network
