import LinxIpc.Server.Agreement
import LinxIpc.Server.Handler

/-!
Where every message of a pipeline ends up.

The worker offers the messages in order of arrival, the queue takes what it has
room for, and the handler gets the queue's messages one after the other.  Each
message has one fate, and the fates are read off the logs of these three stages.
-/

namespace LinxIpc.Server

variable {α β δ ι : Type}

/-! ### Fates of a list -/

section

variable {γ υ φ ψ : Type}

/-- The elements that pass take the given fates, in order; the others are rejected. -/
def refill (passes : γ → Bool) (value : γ → υ) (rejected : φ) :
    List γ → List (υ × φ) → List (υ × φ)
  | [], _ => []
  | item :: items, fates =>
      if passes item then
        match fates with
        | [] => []
        | fate :: fates => fate :: refill passes value rejected items fates
      else (value item, rejected) :: refill passes value rejected items fates

variable {passes : γ → Bool} {value : γ → υ} {rejected : φ}

theorem refill_induction {motive : List γ → List (υ × φ) → List (υ × φ) → Prop}
    (nil : motive [] [] [])
    (taken : ∀ {item items fate fates filled}, passes item = true → fate.1 = value item →
      motive items fates filled → motive (item :: items) (fate :: fates) (fate :: filled))
    (left : ∀ {item items fates filled}, passes item = false → motive items fates filled →
      motive (item :: items) fates ((value item, rejected) :: filled))
    {items : List γ} {fates : List (υ × φ)}
    (same : (items.filter passes).map value = fates.map Prod.fst) :
    motive items fates (refill passes value rejected items fates) := by
  induction items generalizing fates with
  | nil =>
      obtain rfl := List.map_eq_nil_iff.mp same.symm
      exact nil
  | cons item items ih =>
      cases pass : passes item with
      | true =>
          cases fates with
          | nil => simp [pass] at same
          | cons fate fates =>
              simp only [List.filter_cons, pass, if_true, List.map_cons, List.cons.injEq] at same
              simp only [refill, pass, if_true]
              exact taken pass same.1.symm (ih same.2)
      | false =>
          simp only [List.filter_cons, pass, Bool.false_eq_true, if_false] at same
          simp only [refill, pass, Bool.false_eq_true, if_false]
          exact left pass (ih same)

theorem refill_values {items : List γ} {fates : List (υ × φ)}
    (same : (items.filter passes).map value = fates.map Prod.fst) :
    (refill passes value rejected items fates).map Prod.fst = items.map value := by
  refine refill_induction (motive := fun items _ filled =>
    filled.map Prod.fst = items.map value) rfl ?_ ?_ same
  · intro item items fate fates filled _ first ih
    rw [List.map_cons, List.map_cons, first, ih]
  · intro item items fates filled _ ih
    rw [List.map_cons, List.map_cons, ih]

theorem refill_accepted {asked : υ × φ → Option ψ} (skips : ∀ value, asked (value, rejected) = none)
    {items : List γ} {fates : List (υ × φ)}
    (same : (items.filter passes).map value = fates.map Prod.fst) :
    (refill passes value rejected items fates).filterMap asked = fates.filterMap asked := by
  refine refill_induction (motive := fun _ fates filled =>
    filled.filterMap asked = fates.filterMap asked) rfl ?_ ?_ same
  · intro item items fate fates filled _ _ ih
    rw [List.filterMap_cons, List.filterMap_cons, ih]
  · intro item items fates filled _ ih
    rw [List.filterMap_cons_none (skips _), ih]

theorem refill_rejected {asked : υ × φ → Option ψ} {items : List γ} {fates : List (υ × φ)}
    (skips : ∀ fate ∈ fates, asked fate = none)
    (same : (items.filter passes).map value = fates.map Prod.fst) :
    (refill passes value rejected items fates).filterMap asked =
      (items.filter (fun item => !passes item)).filterMap
        (fun item => asked (value item, rejected)) := by
  refine refill_induction (motive := fun items fates filled =>
    (∀ fate ∈ fates, asked fate = none) → filled.filterMap asked =
      (items.filter (fun item => !passes item)).filterMap
        (fun item => asked (value item, rejected))) (fun _ => rfl) ?_ ?_ same skips
  · intro item items fate fates filled pass _ ih skips
    rw [List.forall_mem_cons] at skips
    rw [List.filterMap_cons_none skips.1, ih skips.2, List.filter_cons_of_neg (by simp [pass])]
  · intro item items fates filled pass ih skips
    rw [List.filter_cons_of_pos (by simp [pass]), List.filterMap_cons, List.filterMap_cons,
      ih skips]

end

namespace Pipeline

open Queue (Commit commits committedBy invokedBy returnedBy)

/-! ### The logs of the three stages -/

def offers (events : List (Queue.Event (Role Unit) ι)) : List (LinxReceivedMessage ι × Bool) :=
  (commits events).filterMap fun commit =>
    commit.call.added?.map fun msg => (msg, commit.accepted?.isSome)

def droppedMessages (events : List (Event α β δ ι)) : List (LinxReceivedMessage ι) :=
  ((offers (State.queueEvents (serverEvents events))).filter (fun offer => !offer.2)).map Prod.fst

def unhandledMessages (events : List (Event α β δ ι)) : List (LinxReceivedMessage ι) :=
  events.filterMap fun
    | .unhandled msg => some msg
    | _ => none

def lastRegistered (reqId : UInt32) (events : List (Event α β δ ι)) :
    Option (IpcContainer β δ) :=
  (events.filterMap fun
    | .registered id container => if id = reqId then some container else none
    | _ => none).getLast?

/-! ### Fates of messages -/

/-- Where a message is, or was left, that no callback was invoked for. -/
inductive Place where
  | offering
  | dropped
  | queued
  /-- Taken from the queue by a call of `handleMessage` that has not looked it up yet. -/
  | handling
  /-- Looked up by a call of `handleMessage` that found no callback. -/
  | unhandled
  deriving DecidableEq

inductive Fate (β δ : Type) where
  | invoked (container : IpcContainer β δ)
  | placed (place : Place)

def invoked? (entry : LinxReceivedMessage ι × Fate β δ) :
    Option (IpcContainer β δ × LinxReceivedMessage ι) :=
  match entry.2 with
  | .invoked container => some (container, entry.1)
  | .placed _ => none

def placed? (place : Place) (entry : LinxReceivedMessage ι × Fate β δ) :
    Option (LinxReceivedMessage ι) :=
  match entry.2 with
  | .invoked _ => none
  | .placed other => if other = place then some entry.1 else none

def offering (p : Pipeline α β δ ι) : List (LinxReceivedMessage ι) :=
  (p.server.queue.pc .worker).uncommitted.filterMap Queue.Call.added?

def handling (p : Pipeline α β δ ι) : List (LinxReceivedMessage ι) :=
  (p.server.queue.pc (.consumer ())).unreturned.filterMap Queue.Return.message?

/-- Every message the worker has received has one fate, and the messages of each
fate are, in order of arrival, the contents of the place or the log of the
stage. -/
structure Accounted (identifier : α → ι) (p : Pipeline α β δ ι) (events : List (Event α β δ ι))
    (record : List (LinxReceivedMessage ι × Fate β δ)) : Prop where
  received : record.map Prod.fst = messages identifier (consumed (serverEvents events))
  invoked : record.filterMap invoked? = invocations events
  unhandled : record.filterMap (placed? .unhandled) = unhandledMessages events
  dropped : record.filterMap (placed? .dropped) = droppedMessages events
  queued : record.filterMap (placed? .queued) = p.server.queue.shared.queue
  handling : record.filterMap (placed? .handling) = p.handling
  offering : record.filterMap (placed? .offering) = p.offering

/-! ### The calls of the pipeline on the queue -/

inductive Calls : Role Unit → Queue.Call ι → Prop where
  | adds (msg : LinxReceivedMessage ι) : Calls .worker (.add msg)
  | gets (timeoutMs : Int) : Calls (.consumer ()) (.get (LinxIpcHandler.anyMessage timeoutMs))

variable [BEq ι]

theorem server_invoked {identifier : α → ι} {s next : State Unit α ι}
    {action : Server.Action Unit α ι} {events : List (Server.Event Unit α ι)}
    (did : State.Did identifier s action next events) {role : Role Unit} {call : Queue.Call ι}
    (begun : .invoked role call ∈ State.queueEvents events) :
    (role = .worker ∧ ∃ msg, call = .add msg) ∨ action = .stop ∨
      action = .queue (.call role call) := by
  cases did with
  | @offered datagram rest msg =>
      obtain ⟨rfl, rfl⟩ : role = .worker ∧ call = .add msg := by
        simpa [State.queueEvents] using begun
      exact .inl ⟨rfl, msg, rfl⟩
  | @queue action queue events allowed stepped =>
      rw [State.queueEvents_map] at begun
      rw [Queue.Threads.did_invoked (Queue.Threads.step_cases stepped) begun]
      exact .inr (.inr rfl)
  | stopping => exact .inr (.inl rfl)
  | answered answering => split at begun <;> cases begun
  | arrived | left | pinged | failed | alreadyStarted | started | notStarted | joined =>
      cases begun

theorem did_calls {identifier : α → ι} {p next : Pipeline α β δ ι} {action : Action α β δ ι}
    {events : List (Event α β δ ι)} (did : Did identifier p action next events)
    (running : action ≠ .server .stop) {role : Role Unit} {call : Queue.Call ι}
    (begun : .invoked role call ∈ State.queueEvents (serverEvents events)) : Calls role call := by
  cases did with
  | @server action server events allowed stepped =>
      rw [serverEvents_map] at begun
      rcases server_invoked (State.step_cases stepped) begun with ⟨rfl, msg, rfl⟩ | rfl | rfl
      · exact .adds msg
      · exact absurd rfl running
      · cases State.step_cases stepped with
        | queue allowedQueue moved =>
            cases role with
            | worker | control => cases allowedQueue
            | consumer name => cases allowed
  | called free stepped =>
      rw [serverEvents_map] at begun
      rcases server_invoked (State.step_cases stepped) begun with ⟨rfl, msg, rfl⟩ | impossible | same
      · exact .adds msg
      · cases impossible
      · cases same
        exact .gets _
  | @dispatched recvMsg server events returning stepped =>
      rw [serverEvents_dispatched] at begun
      rcases server_invoked (State.step_cases stepped) begun with ⟨rfl, msg, rfl⟩ | impossible | same
      · exact .adds msg
      · cases impossible
      · cases same
  | registered | left => cases begun

theorem run_calls {identifier : α → ι} {efd : LinxEventFd} {size : Int32}
    {actions : List (Action α β δ ι)} {p : Pipeline α β δ ι} {events : List (Event α β δ ι)}
    (running : ∀ action ∈ actions, action ≠ .server .stop)
    (ran : (machine identifier).run (create efd size) actions = some (p, events))
    {role : Role Unit} {call : Queue.Call ι}
    (begun : .invoked role call ∈ State.queueEvents (serverEvents events)) : Calls role call := by
  revert role call
  refine (machine identifier).run_invariant_within
    (motive := fun _ events _ => ∀ {role call},
      .invoked role call ∈ State.queueEvents (serverEvents events) → Calls role call)
    nofun ?_ running ran
  intro _ events _ action next emitted _ held allowed stepped role call begun
  rw [serverEvents_append, State.queueEvents, List.filterMap_append] at begun
  rcases List.mem_append.mp begun with before | now
  · exact held before
  · exact did_calls (step_cases stepped) allowed now

/-! ### What the handler has looked up -/

def handledFates (events : List (Event α β δ ι)) : List (LinxReceivedMessage ι × Fate β δ) :=
  events.filterMap fun
    | .invoked container msg => some (msg, .invoked container)
    | .unhandled msg => some (msg, .placed .unhandled)
    | _ => none

def receivedBy (events : List (Server.Event Unit α ι)) : List (Queue.Return ι) :=
  returnedBy (.consumer ()) (State.queueEvents events)

omit [BEq ι] in
theorem logs_append (front back : List (Event α β δ ι)) :
    handledFates (front ++ back) = handledFates front ++ handledFates back ∧
      receivedBy (serverEvents (front ++ back)) =
        receivedBy (serverEvents front) ++ receivedBy (serverEvents back) := by
  refine ⟨List.filterMap_append .., ?_⟩
  rw [receivedBy, serverEvents_append, State.queueEvents, List.filterMap_append, returnedBy,
    List.filterMap_append]
  rfl

omit [BEq ι] in
theorem handledFates_server (events : List (Server.Event Unit α ι)) :
    handledFates (events.map (Event.server (β := β) (δ := δ))) = [] := by
  rw [handledFates, List.filterMap_map, List.filterMap_eq_nil_iff]
  exact fun _ _ => rfl

theorem server_receivedBy {identifier : α → ι} {s next : State Unit α ι}
    {action : Server.Action Unit α ι} {events : List (Server.Event Unit α ι)}
    (did : State.Did identifier s action next events)
    (other : action ≠ .queue (.ret (.consumer ()))) : receivedBy events = [] := by
  rw [receivedBy, returnedBy, List.filterMap_eq_nil_iff]
  intro event member
  cases event with
  | returned role result =>
      cases role with
      | worker | control => rfl
      | consumer name =>
          cases did with
          | queue allowed stepped =>
              rw [State.queueEvents_map] at member
              obtain ⟨rfl, -⟩ :=
                Queue.Threads.did_returned (Queue.Threads.step_cases stepped) member
              exact absurd rfl other
          | offered => simp [State.queueEvents] at member
          | answered answering => split at member <;> cases member
          | stopping => simp [State.queueEvents] at member
          | arrived | left | pinged | failed | alreadyStarted | started | notStarted | joined =>
              cases member
  | invoked | removed | committed => rfl

theorem server_returns {identifier : α → ι} {s next : State Unit α ι} {result : Queue.Return ι}
    {events : List (Server.Event Unit α ι)}
    (returning : s.queue.pc (.consumer ()) = .returning result)
    (stepped : s.step identifier (.queue (.ret (.consumer ()))) = some (next, events)) :
    receivedBy events = [result] := by
  cases State.step_cases stepped with
  | queue allowed moved =>
      rw [receivedBy, State.queueEvents_map]
      cases Queue.Threads.step_cases moved with
      | returned ready =>
          rw [ready] at returning
          cases returning
          rfl

omit [BEq ι] in
theorem afterReceive_handled (p : Pipeline α β δ ι) (server : State Unit α ι)
    (recvMsg : Option (LinxReceivedMessage ι)) :
    (handledFates (p.afterReceive server (p.handler.handleMessage recvMsg)).2).map Prod.fst =
      recvMsg.toList := by
  cases recvMsg with
  | none => rfl
  | some msg =>
      cases found : p.handler.handlers msg.message.reqId <;>
        simp only [LinxIpcHandler.handleMessage, found] <;> rfl

theorem did_handled {identifier : α → ι} {p next : Pipeline α β δ ι} {action : Action α β δ ι}
    {events : List (Event α β δ ι)} (did : Did identifier p action next events) :
    (handledFates events).map Prod.fst =
      (receivedBy (serverEvents events)).filterMap Queue.Return.message? := by
  cases did with
  | server allowed stepped =>
      rw [handledFates_server, serverEvents_map, server_receivedBy (State.step_cases stepped)]
      · rfl
      · rintro rfl
        cases allowed
  | called free stepped =>
      rw [handledFates_server, serverEvents_map,
        server_receivedBy (State.step_cases stepped) nofun]
      rfl
  | @dispatched recvMsg server events returning stepped =>
      obtain ⟨fates, -⟩ := logs_append (events.map .server)
        (p.afterReceive server (p.handler.handleMessage recvMsg)).2
      rw [fates, handledFates_server, List.nil_append, serverEvents_dispatched,
        server_returns returning stepped, afterReceive_handled]
      cases recvMsg <;> rfl
  | registered | left => rfl

theorem run_handled {identifier : α → ι} {start p : Pipeline α β δ ι}
    {actions : List (Action α β δ ι)} {events : List (Event α β δ ι)}
    (ran : (machine identifier).run start actions = some (p, events)) :
    (handledFates events).map Prod.fst =
      (receivedBy (serverEvents events)).filterMap Queue.Return.message? := by
  refine (machine identifier).run_invariant
    (motive := fun _ events _ => (handledFates events).map Prod.fst =
      (receivedBy (serverEvents events)).filterMap Queue.Return.message?) rfl ?_ ran
  intro _ events _ action next emitted _ held stepped
  obtain ⟨fates, received⟩ := logs_append events emitted
  rw [fates, received, List.map_append, List.filterMap_append, held,
    did_handled (step_cases stepped)]

/-! ### The two ledgers -/

theorem run_queue {identifier : α → ι} {efd : LinxEventFd} {size : Int32}
    {actions : List (Action α β δ ι)} {p : Pipeline α β δ ι} {events : List (Event α β δ ι)}
    (ran : (machine identifier).run (create efd size) actions = some (p, events)) :
    ∃ queueActions, Queue.Threads.machine.run (.initial efd size) queueActions =
      some (p.server.queue, State.queueEvents (serverEvents events)) := by
  obtain ⟨serverActions, ranServer⟩ := run_server ran
  exact State.run_queue ranServer

theorem commit_calls {identifier : α → ι} {efd : LinxEventFd} {size : Int32}
    {actions : List (Action α β δ ι)} {p : Pipeline α β δ ι} {events : List (Event α β δ ι)}
    (running : ∀ action ∈ actions, action ≠ .server .stop)
    (ran : (machine identifier).run (create efd size) actions = some (p, events))
    {commit : Commit (Role Unit) ι}
    (member : commit ∈ commits (State.queueEvents (serverEvents events))) :
    Calls commit.thread commit.call := by
  obtain ⟨queueActions, ranQueue⟩ := run_queue ran
  have invoked := Queue.Threads.run_commit_invoked ranQueue member
  obtain ⟨event, present, same⟩ := List.mem_filterMap.mp invoked
  cases event with
  | invoked role call =>
      simp only [Queue.Event.invokedBy?, Option.ite_none_right_eq_some, Option.some.injEq] at same
      obtain ⟨rfl, rfl⟩ := same
      exact run_calls running ran present
  | removed | committed | returned => cases same

theorem run_opened {identifier : α → ι} {efd : LinxEventFd} {size : Int32}
    {actions : List (Action α β δ ι)} {p : Pipeline α β δ ι} {events : List (Event α β δ ι)}
    (running : ∀ action ∈ actions, action ≠ .server .stop)
    (ran : (machine identifier).run (create efd size) actions = some (p, events)) :
    p.server.opened = true := by
  refine (machine identifier).run_invariant_within
    (motive := fun _ _ p => p.server.opened = true) rfl ?_ running ran
  intro _ _ p action next emitted _ opened allowed stepped
  cases step_cases stepped with
  | @server action server events permitted moved =>
      rw [← opened]
      exact (State.step_cases moved).opened_kept (by rintro rfl; exact allowed rfl)
  | called free moved =>
      rw [← opened]
      exact (State.step_cases moved).opened_kept nofun
  | @dispatched recvMsg server events returning moved =>
      rw [afterReceive_server, ← opened]
      exact (State.step_cases moved).opened_kept nofun
  | registered | left => exact opened

theorem run_offers {identifier : α → ι} {efd : LinxEventFd} {size : Int32}
    {actions : List (Action α β δ ι)} {p : Pipeline α β δ ι} {events : List (Event α β δ ι)}
    (running : ∀ action ∈ actions, action ≠ .server .stop)
    (ran : (machine identifier).run (create efd size) actions = some (p, events)) :
    (offers (State.queueEvents (serverEvents events))).map Prod.fst ++ p.offering =
      messages identifier (consumed (serverEvents events)) := by
  obtain ⟨serverActions, ranServer⟩ := run_server ran
  obtain ⟨queueActions, ranQueue⟩ := run_queue ran
  rw [← (State.run_flow ranServer).offered (run_opened running ran)]
  rw [(Queue.Threads.run_open ranQueue .worker).2, List.filterMap_append]
  congr 1
  rw [offers, commits, committedBy, List.filterMap_filterMap, List.map_filterMap,
    List.map_filterMap, List.filterMap_filterMap]
  refine List.filterMap_congr ?_
  intro event member
  cases event with
  | committed thread call result =>
      have called := commit_calls running ran
        (List.mem_filterMap.mpr ⟨_, member, rfl⟩ :
          (⟨thread, call, result⟩ : Commit (Role Unit) ι) ∈ _)
      cases called with
      | adds msg => rfl
      | gets timeoutMs => rfl
  | invoked | removed | returned => rfl

omit [BEq ι] in
theorem offers_stored (events : List (Queue.Event (Role Unit) ι)) :
    ((offers events).filter Prod.snd).map Prod.fst =
      (commits events).filterMap Commit.accepted? := by
  rw [offers, List.filter_filterMap, List.map_filterMap]
  refine List.filterMap_congr ?_
  intro commit _
  obtain ⟨thread, call, result⟩ := commit
  cases call with
  | add msg =>
      cases accepted : (Commit.accepted? (⟨thread, .add msg, result⟩ : Commit (Role Unit) ι)) with
      | none => simp [Queue.Call.added?]
      | some other =>
          obtain rfl := Queue.Call.add.inj (Commit.accepted_call accepted)
          simp [Queue.Call.added?]
  | get | clear | stop => rfl

theorem Calls.one_filter {role : Role Unit} {call : Queue.Call ι} (called : Calls role call) :
    call.op role ≠ .clear ∧
      ∀ reader, call.op role = .take reader → Queue.accepts reader = fun _ => true := by
  cases called with
  | adds msg => exact ⟨nofun, nofun⟩
  | gets timeoutMs =>
      refine ⟨nofun, ?_⟩
      intro reader same
      obtain rfl := SelectiveFifo.Op.take.inj same
      exact funext matchesFilter_any

omit [BEq ι] in
theorem delivered_calls {events : List (Queue.Event (Role Unit) ι)}
    (called : ∀ commit ∈ commits events, Calls commit.thread commit.call) :
    ((commits events).filterMap Commit.delivered?).map Prod.snd =
      ((committedBy (.consumer ()) events).map Prod.snd).filterMap Queue.Return.message? := by
  rw [commits, committedBy, List.map_filterMap, List.filterMap_filterMap, List.map_filterMap,
    List.filterMap_filterMap]
  refine List.filterMap_congr ?_
  intro event member
  cases event with
  | committed thread call result =>
      have allowed : Calls thread call :=
        called ⟨thread, call, result⟩ (List.mem_filterMap.mpr ⟨_, member, rfl⟩)
      cases allowed with
      | adds msg => rfl
      | gets timeoutMs =>
          cases result with
          | get msg => cases msg <;> rfl
          | add | done => rfl
  | invoked | removed | returned => rfl

/-- The stored messages are those the handler has looked up, the one it holds,
and those in the queue. -/
theorem run_stored {identifier : α → ι} {efd : LinxEventFd} {size : Int32}
    {actions : List (Action α β δ ι)} {p : Pipeline α β δ ι} {events : List (Event α β δ ι)}
    (running : ∀ action ∈ actions, action ≠ .server .stop)
    (ran : (machine identifier).run (create efd size) actions = some (p, events)) :
    ((offers (State.queueEvents (serverEvents events))).filter Prod.snd).map Prod.fst =
      (handledFates events).map Prod.fst ++ p.handling ++ p.server.queue.shared.queue := by
  obtain ⟨queueActions, ranQueue⟩ := run_queue ran
  have called : ∀ commit ∈ commits (State.queueEvents (serverEvents events)),
      Calls commit.thread commit.call := fun commit member => commit_calls running ran member
  have filtered := Queue.Threads.run_one_filter ranQueue
    (fun commit member => (called commit member).one_filter)
  rw [List.filter_true, List.filter_true, delivered_calls called,
    (Queue.Threads.run_open ranQueue (.consumer ())).1, List.filterMap_append] at filtered
  rw [offers_stored, run_handled ran]
  exact filtered.symm

/-! ### One fate for each message -/

def allAt (place : Place) (msgs : List (LinxReceivedMessage ι)) :
    List (LinxReceivedMessage ι × Fate β δ) :=
  msgs.map fun msg => (msg, .placed place)

omit [BEq ι] in
@[simp]
theorem allAt_messages (place : Place) (msgs : List (LinxReceivedMessage ι)) :
    (allAt (β := β) (δ := δ) place msgs).map Prod.fst = msgs := by
  rw [allAt, List.map_map]
  exact List.map_id msgs

omit [BEq ι] in
@[simp]
theorem allAt_invoked (place : Place) (msgs : List (LinxReceivedMessage ι)) :
    (allAt (β := β) (δ := δ) place msgs).filterMap invoked? = [] := by
  rw [allAt, List.filterMap_map, List.filterMap_eq_nil_iff]
  exact fun _ _ => rfl

omit [BEq ι] in
@[simp]
theorem allAt_placed (place other : Place) (msgs : List (LinxReceivedMessage ι)) :
    (allAt (β := β) (δ := δ) other msgs).filterMap (placed? place) =
      if other = place then msgs else [] := by
  rw [allAt, List.filterMap_map]
  by_cases same : other = place
  · rw [if_pos same]
    exact (List.filterMap_congr (fun _ _ => if_pos same)).trans List.filterMap_some
  · rw [if_neg same, List.filterMap_eq_nil_iff]
    exact fun _ _ => if_neg same

omit [BEq ι] in
@[simp]
theorem handled_invoked (events : List (Event α β δ ι)) :
    (handledFates events).filterMap invoked? = invocations events := by
  rw [handledFates, invocations, List.filterMap_filterMap]
  refine List.filterMap_congr ?_
  intro event _
  cases event <;> rfl

omit [BEq ι] in
@[simp]
theorem handled_placed (place : Place) (events : List (Event α β δ ι)) :
    (handledFates events).filterMap (placed? place) =
      if Place.unhandled = place then unhandledMessages events else [] := by
  rw [handledFates, unhandledMessages, List.filterMap_filterMap]
  by_cases same : Place.unhandled = place
  · rw [if_pos same]
    refine List.filterMap_congr ?_
    intro event _
    cases event with
    | unhandled msg => exact if_pos same
    | server | registered | invoked | handled => rfl
  · rw [if_neg same, List.filterMap_eq_nil_iff]
    intro event _
    cases event with
    | unhandled msg => exact if_neg same
    | server | registered | invoked | handled => rfl

def storedFates (p : Pipeline α β δ ι) (events : List (Event α β δ ι)) :
    List (LinxReceivedMessage ι × Fate β δ) :=
  handledFates events ++ allAt .handling p.handling ++ allAt .queued p.server.queue.shared.queue

def fates (p : Pipeline α β δ ι) (events : List (Event α β δ ι)) :
    List (LinxReceivedMessage ι × Fate β δ) :=
  refill Prod.snd Prod.fst (.placed .dropped) (offers (State.queueEvents (serverEvents events)))
      (p.storedFates events) ++ allAt .offering p.offering

omit [BEq ι] in
theorem storedFates_not_dropped (p : Pipeline α β δ ι) (events : List (Event α β δ ι)) :
    (p.storedFates events).filterMap (placed? .dropped) = [] := by
  simp [storedFates]

omit [BEq ι] in
theorem accounted_of_ledgers {identifier : α → ι} {p : Pipeline α β δ ι}
    {events : List (Event α β δ ι)}
    (offered : (offers (State.queueEvents (serverEvents events))).map Prod.fst ++ p.offering =
      messages identifier (consumed (serverEvents events)))
    (stored : ((offers (State.queueEvents (serverEvents events))).filter Prod.snd).map Prod.fst =
      (handledFates events).map Prod.fst ++ p.handling ++ p.server.queue.shared.queue) :
    Accounted identifier p events (p.fates events) := by
  have same : ((offers (State.queueEvents (serverEvents events))).filter Prod.snd).map Prod.fst =
      (p.storedFates events).map Prod.fst := by
    rw [stored]
    simp [storedFates]
  have accepted : ∀ {ψ : Type} (asked : LinxReceivedMessage ι × Fate β δ → Option ψ),
      (∀ msg, asked (msg, .placed .dropped) = none) →
      (p.fates events).filterMap asked = (p.storedFates events).filterMap asked ++
        (allAt .offering p.offering).filterMap asked := by
    intro ψ asked skips
    rw [fates, List.filterMap_append, refill_accepted skips same]
  constructor
  · rw [fates, List.map_append, refill_values same, ← offered, allAt_messages]
  · simp [accepted invoked? (fun _ => rfl), storedFates]
  · simp [accepted (placed? .unhandled) (fun _ => rfl), storedFates]
  · rw [fates, List.filterMap_append,
      refill_rejected (List.filterMap_eq_nil_iff.mp (p.storedFates_not_dropped events)) same]
    simp [droppedMessages, placed?]
  · simp [accepted (placed? .queued) (fun _ => rfl), storedFates]
  · simp [accepted (placed? .handling) (fun _ => rfl), storedFates]
  · simp [accepted (placed? .offering) (fun _ => rfl), storedFates]

/-! ### At the moment of a step -/

omit [BEq ι] in
theorem lastRegistered_append (reqId : UInt32) (front back : List (Event α β δ ι)) :
    lastRegistered reqId (front ++ back) =
      (lastRegistered reqId back).or (lastRegistered reqId front) := by
  unfold lastRegistered
  rw [List.filterMap_append, List.getLast?_append]

omit [BEq ι] in
theorem lastRegistered_server (reqId : UInt32) (events : List (Server.Event Unit α ι)) :
    lastRegistered reqId (events.map (Event.server (β := β) (δ := δ))) = none := by
  rw [lastRegistered, List.filterMap_map, List.getLast?_eq_none_iff, List.filterMap_eq_nil_iff]
  exact fun _ _ => rfl

omit [BEq ι] in
theorem afterReceive_handler (p : Pipeline α β δ ι) (server : State Unit α ι)
    (handled : Handled β δ ι) :
    (p.afterReceive server handled).1.handler = p.handler ∧
      ∀ reqId, lastRegistered reqId (p.afterReceive server handled).2 = none := by
  cases handled with
  | invoked container msg => exact ⟨rfl, fun _ => rfl⟩
  | returned unhandled result => cases unhandled <;> exact ⟨rfl, fun _ => rfl⟩

theorem did_registered {identifier : α → ι} {p next : Pipeline α β δ ι} {action : Action α β δ ι}
    {events : List (Event α β δ ι)} (did : Did identifier p action next events) (reqId : UInt32) :
    next.handler.handlers reqId = (lastRegistered reqId events).or (p.handler.handlers reqId) := by
  cases did with
  | server allowed stepped =>
      rw [lastRegistered_server]
      rfl
  | called free stepped =>
      rw [lastRegistered_server]
      rfl
  | @registered id callback data free =>
      by_cases same : id = reqId
      · subst same
        simp [LinxIpcHandler.registerCallback, lastRegistered]
      · simp [LinxIpcHandler.registerCallback, lastRegistered, same, Ne.symm same]
  | @dispatched recvMsg server events returning stepped =>
      obtain ⟨sameHandler, silent⟩ :=
        p.afterReceive_handler server (p.handler.handleMessage recvMsg)
      rw [lastRegistered_append, silent, lastRegistered_server, sameHandler]
      rfl
  | left free inside => rfl

theorem run_registered {identifier : α → ι} {efd : LinxEventFd} {size : Int32}
    {actions : List (Action α β δ ι)} {p : Pipeline α β δ ι} {events : List (Event α β δ ι)}
    (ran : (machine identifier).run (create efd size) actions = some (p, events))
    (reqId : UInt32) : p.handler.handlers reqId = lastRegistered reqId events := by
  refine (machine identifier).run_invariant
    (motive := fun _ events p => p.handler.handlers reqId = lastRegistered reqId events) rfl ?_ ran
  intro _ events p action next emitted _ held stepped
  rw [did_registered (step_cases stepped) reqId, held, lastRegistered_append]

omit [BEq ι] in
theorem afterReceive_looksUp (p : Pipeline α β δ ι) (server : State Unit α ι)
    (recvMsg : Option (LinxReceivedMessage ι)) {msg : LinxReceivedMessage ι} :
    (∀ container,
      .invoked container msg ∈ (p.afterReceive server (p.handler.handleMessage recvMsg)).2 →
      p.handler.handlers msg.message.reqId = some container) ∧
    (.unhandled msg ∈ (p.afterReceive server (p.handler.handleMessage recvMsg)).2 →
      p.handler.handlers msg.message.reqId = none ∧
      .handled 0 ∈ (p.afterReceive server (p.handler.handleMessage recvMsg)).2) := by
  cases recvMsg with
  | none => simp [LinxIpcHandler.handleMessage, afterReceive]
  | some received =>
      cases found : p.handler.handlers received.message.reqId with
      | none =>
          simp only [LinxIpcHandler.handleMessage, found, afterReceive]
          refine ⟨by simp, ?_⟩
          intro member
          obtain rfl : msg = received := by simpa using member
          exact ⟨found, by simp⟩
      | some container =>
          simp only [LinxIpcHandler.handleMessage, found, afterReceive]
          refine ⟨?_, by simp⟩
          intro other member
          obtain ⟨rfl, rfl⟩ : other = container ∧ msg = received := by simpa using member
          exact found

theorem did_looksUp {identifier : α → ι} {p next : Pipeline α β δ ι} {action : Action α β δ ι}
    {events : List (Event α β δ ι)} (did : Did identifier p action next events)
    {msg : LinxReceivedMessage ι} :
    (∀ container, .invoked container msg ∈ events →
      p.handler.handlers msg.message.reqId = some container) ∧
    (.unhandled msg ∈ events →
      p.handler.handlers msg.message.reqId = none ∧ .handled 0 ∈ events) := by
  cases did with
  | server allowed stepped | called free stepped | registered free | left free inside => simp
  | @dispatched recvMsg server events returning stepped =>
      obtain ⟨invokes, misses⟩ := @afterReceive_looksUp _ _ _ _ p server recvMsg msg
      constructor
      · intro container member
        exact invokes container (by simpa using member)
      · intro member
        obtain ⟨missing, returned⟩ := misses (by simpa using member)
        exact ⟨missing, List.mem_append_right _ returned⟩

theorem server_commits {identifier : α → ι} {s next : State Unit α ι}
    {action : Server.Action Unit α ι} {events : List (Server.Event Unit α ι)}
    (did : State.Did identifier s action next events) {commit : Commit (Role Unit) ι}
    (member : commit ∈ commits (State.queueEvents events)) :
    ∃ queueAction queue, s.queue.step queueAction = some (queue, State.queueEvents events) := by
  cases did with
  | queue allowed stepped =>
      rw [State.queueEvents_map]
      exact ⟨_, _, stepped⟩
  | answered answering => split at member <;> cases member
  | arrived | left | pinged | offered | failed | alreadyStarted | started | stopping | notStarted
  | joined =>
      cases member

theorem did_commits {identifier : α → ι} {p next : Pipeline α β δ ι} {action : Action α β δ ι}
    {events : List (Event α β δ ι)} (did : Did identifier p action next events)
    {commit : Commit (Role Unit) ι}
    (member : commit ∈ commits (State.queueEvents (serverEvents events))) :
    ∃ queueAction queue, p.server.queue.step queueAction =
      some (queue, State.queueEvents (serverEvents events)) := by
  cases did with
  | server allowed stepped | called free stepped =>
      rw [serverEvents_map] at member ⊢
      exact server_commits (State.step_cases stepped) member
  | @dispatched recvMsg server events returning stepped =>
      rw [serverEvents_dispatched] at member ⊢
      exact server_commits (State.step_cases stepped) member
  | registered | left => cases member

theorem step_drops {identifier : α → ι} {efd : LinxEventFd} {size : Int32}
    {actions : List (Action α β δ ι)} {p next : Pipeline α β δ ι}
    {events emitted : List (Event α β δ ι)} {action : Action α β δ ι}
    (ran : (machine identifier).run (create efd size) actions = some (p, events))
    (stepped : p.step identifier action = some (next, emitted))
    (dropped : droppedMessages emitted ≠ []) :
    p.server.queue.shared.queue.length = Queue.capacity size := by
  obtain ⟨queueActions, ranQueue⟩ := run_queue ran
  obtain ⟨msg, lost⟩ := List.exists_mem_of_ne_nil _ dropped
  obtain ⟨offer, rejected, rfl⟩ := List.mem_map.mp lost
  obtain ⟨offered, notStored⟩ := List.mem_filter.mp rejected
  obtain ⟨commit, member, same⟩ := List.mem_filterMap.mp offered
  obtain ⟨msg, called, rfl⟩ := Option.map_eq_some_iff.mp same
  obtain ⟨queueAction, queue, moved⟩ := did_commits (step_cases stepped) member
  exact Queue.Threads.step_rejects ranQueue moved member called (by simpa using notStored)

/-! ### Outside of a call nothing is in hand -/

theorem server_consumer {identifier : α → ι} {s next : State Unit α ι}
    {action : Server.Action Unit α ι} {events : List (Server.Event Unit α ι)}
    (did : State.Did identifier s action next events)
    (inside : ∀ call, action ≠ .queue (.call (.consumer ()) call))
    (idle : s.queue.pc (.consumer ()) = .idle) : next.queue.pc (.consumer ()) = .idle := by
  cases did with
  | offered receiving opened atHead asked quiet =>
      simpa only [Queue.Threads.setPc_pc, ne_eq, reduceCtorEq, not_false_eq_true,
        Function.update_of_ne] using idle
  | stopping idleControl joinable quiet =>
      simpa only [Queue.Threads.setPc_pc, ne_eq, reduceCtorEq, not_false_eq_true,
        Function.update_of_ne] using idle
  | queue allowed stepped =>
      cases Queue.Threads.did_thread (Queue.Threads.step_cases stepped) (.consumer ()) with
      | called before after => exact absurd rfl (inside _)
      | returned before after => exact after
      | went within goes =>
          rw [idle] at goes
          exact goes_idle goes
  | arrived | left | pinged | failed | answered | alreadyStarted | started | notStarted | joined =>
      exact idle

theorem did_outside {identifier : α → ι} {p next : Pipeline α β δ ι} {action : Action α β δ ι}
    {events : List (Event α β δ ι)} (did : Did identifier p action next events)
    (outside : p.receiving = false → p.server.queue.pc (.consumer ()) = .idle)
    (free : next.receiving = false) : next.server.queue.pc (.consumer ()) = .idle := by
  cases did with
  | server allowed stepped =>
      refine server_consumer (State.step_cases stepped) ?_ (outside free)
      rintro call rfl
      cases allowed
  | called | registered | left => first | exact outside free | cases free
  | @dispatched recvMsg server events returning stepped =>
      rw [afterReceive_server]
      cases State.step_cases stepped with
      | queue allowed moved =>
          cases Queue.Threads.did_thread (Queue.Threads.step_cases moved) (.consumer ()) with
          | returned before after => exact after
          | went within goes => exact absurd rfl within

theorem run_outside {identifier : α → ι} {efd : LinxEventFd} {size : Int32}
    {actions : List (Action α β δ ι)} {p : Pipeline α β δ ι} {events : List (Event α β δ ι)}
    (ran : (machine identifier).run (create efd size) actions = some (p, events)) :
    (p.server.worker ≠ .adding → p.offering = []) ∧ (p.receiving = false → p.handling = []) := by
  obtain ⟨serverActions, ranServer⟩ := run_server ran
  have sound : State.Sound p.server := State.sound_reachable ⟨serverActions, _, ranServer⟩
  constructor
  · intro elsewhere
    rw [offering, sound.workerIdle elsewhere]
    rfl
  · have outside : p.receiving = false → p.server.queue.pc (.consumer ()) = .idle := by
      refine (machine identifier).run_invariant
        (motive := fun _ _ p => p.receiving = false → p.server.queue.pc (.consumer ()) = .idle)
        (fun _ => rfl) ?_ ran
      intro _ _ _ _ _ _ _ held stepped
      exact did_outside (step_cases stepped) held
    intro free
    rw [handling, outside free]
    rfl

/-! ### The pipeline -/

omit [BEq ι] in
theorem Accounted.sublist {identifier : α → ι} {p : Pipeline α β δ ι}
    {events : List (Event α β δ ι)} {record : List (LinxReceivedMessage ι × Fate β δ)}
    (accounted : Accounted identifier p events record) :
    ((invocations events).map Prod.snd).Sublist
      (messages identifier (consumed (serverEvents events))) := by
  rw [← accounted.invoked, ← accounted.received, List.map_filterMap]
  have taken : ∀ entry ∈ record, Option.map Prod.snd (invoked? entry) =
      if (invoked? entry).isSome then (some ∘ Prod.fst) entry else none := by
    rintro ⟨msg, fate⟩ _
    cases fate <;> rfl
  rw [List.filterMap_congr taken, ← List.filterMap_filter, List.filterMap_eq_map]
  exact List.filter_sublist.map Prod.fst

theorem run_accounted {identifier : α → ι} {efd : LinxEventFd} {size : Int32}
    {actions : List (Action α β δ ι)} {p : Pipeline α β δ ι} {events : List (Event α β δ ι)}
    (running : ∀ action ∈ actions, action ≠ .server .stop)
    (ran : (machine identifier).run (create efd size) actions = some (p, events)) :
    Accounted identifier p events (p.fates events) :=
  accounted_of_ledgers (run_offers running ran) (run_stored running ran)

theorem run_invocations {identifier : α → ι} {efd : LinxEventFd} {size : Int32}
    {actions : List (Action α β δ ι)} {p : Pipeline α β δ ι} {events : List (Event α β δ ι)}
    (running : ∀ action ∈ actions, action ≠ .server .stop)
    (ran : (machine identifier).run (create efd size) actions = some (p, events)) :
    ((invocations events).map Prod.snd).Sublist
      (messages identifier (arrivals (serverEvents events))) := by
  obtain ⟨serverActions, ranServer⟩ := run_server ran
  rw [(State.run_flow ranServer).arrived, messages_append]
  exact (run_accounted running ran).sublist.trans (List.sublist_append_left _ _)

/-- A pipeline that is not stopped, with any datagrams, any capacity and any
registrations.  Every message received has one fate; the invocations follow the
order of arrival, each by the callback registered last; a message left without
one is in a place, was looked up in vain, or met a full queue; and no ping is
queued or dispatched. -/
theorem dispatched_exactly_once {identifier : α → ι} {efd : LinxEventFd} {size : Int32}
    {actions : List (Action α β δ ι)} {p : Pipeline α β δ ι} {events : List (Event α β δ ι)}
    (running : ∀ action ∈ actions, action ≠ .server .stop)
    (ran : (machine identifier).run (create efd size) actions = some (p, events)) :
    arrivals (serverEvents events) = consumed (serverEvents events) ++ p.server.inbox ∧
    (∃ record, Accounted identifier p events record) ∧
    ((p.server.worker ≠ .adding → p.offering = []) ∧
      (p.receiving = false → p.handling = [])) ∧
    ((invocations events).map Prod.snd).Sublist
      (messages identifier (arrivals (serverEvents events))) ∧
    ((∀ msg ∈ p.server.queue.shared.queue, msg.message.reqId ≠ ipcPingReq) ∧
      ∀ call ∈ invocations events, call.2.message.reqId ≠ ipcPingReq) ∧
    ∀ action next emitted, p.step identifier action = some (next, emitted) →
      (∀ container msg, .invoked container msg ∈ emitted →
        lastRegistered msg.message.reqId events = some container) ∧
      (∀ msg, .unhandled msg ∈ emitted →
        lastRegistered msg.message.reqId events = none ∧ .handled 0 ∈ emitted) ∧
      (droppedMessages emitted ≠ [] →
        p.server.queue.shared.queue.length = Queue.capacity size) := by
  obtain ⟨serverActions, ranServer⟩ := run_server ran
  have accounted := run_accounted running ran
  refine ⟨(State.run_flow ranServer).arrived, ⟨_, accounted⟩, run_outside ran,
    run_invocations running ran, ⟨?_, ?_⟩, ?_⟩
  · intro msg queued
    rw [← accounted.queued] at queued
    obtain ⟨⟨received, fate⟩, member, same⟩ := List.mem_filterMap.mp queued
    have known : received ∈ messages identifier (consumed (serverEvents events)) := by
      rw [← accounted.received]
      exact List.mem_map_of_mem member
    cases fate with
    | invoked container => cases same
    | placed place =>
        simp only [placed?, Option.ite_none_right_eq_some, Option.some.injEq] at same
        obtain ⟨-, rfl⟩ := same
        exact State.messages_not_ping known
  · intro call invoked
    exact State.messages_not_ping (accounted.sublist.subset (List.mem_map_of_mem invoked))
  · intro action next emitted stepped
    have did := step_cases stepped
    refine ⟨?_, ?_, step_drops ran stepped⟩
    · intro container msg member
      rw [← run_registered ran]
      exact (did_looksUp did).1 container member
    · intro msg member
      rw [← run_registered ran]
      exact (did_looksUp did).2 member

theorem dispatched_exactly_once_four_datagrams :
    ∃ (p : Pipeline SockaddrIn Nat Unit PortInfo)
      (events : List (Event SockaddrIn Nat Unit PortInfo)),
      (invocations events).map (fun call => call.1.callback) = [2] ∧
      (unhandledMessages events).length = 1 ∧ (droppedMessages events).length = 1 ∧
      ∃ record, Accounted UdpSocket.identifier p events record := by
  have dispatched := @dispatched_exactly_once SockaddrIn Nat Unit PortInfo _ UdpSocket.identifier
    ⟨3, 0⟩ 1
    [.registerCallback 7 1 (), .registerCallback 1 3 (), .server .start,
      .server (.arrive ⟨[0, 0, 0, 1], ⟨(127, 0, 0, 1), (0, 9)⟩⟩),
      .server (.arrive ⟨[0, 0, 0, 7], ⟨(127, 0, 0, 1), (0, 9)⟩⟩),
      .server (.arrive ⟨[0, 0, 0, 7, 5], ⟨(127, 0, 0, 1), (0, 9)⟩⟩),
      .server (.arrive ⟨[0, 0, 0, 8], ⟨(127, 0, 0, 1), (0, 9)⟩⟩),
      .server .receive, .server .answer,
      .server .receive, .server (.queue (.lock .worker)), .server (.queue (.notify .worker)),
      .server (.queue (.ret .worker)), .registerCallback 7 2 (),
      .server .receive, .server (.queue (.lock .worker)), .server (.queue (.notify .worker)),
      .server (.queue (.ret .worker)),
      .handleMessage 10, .server (.queue (.lock (.consumer ()))), .dispatch,
      .server .receive, .server (.queue (.lock .worker)), .callbackReturns 5,
      .handleMessage 10, .server (.queue (.lock (.consumer ()))), .dispatch]
    _ _ (by simp) rfl
  exact ⟨_, _, rfl, rfl, rfl, dispatched.2.1⟩

end Pipeline

end LinxIpc.Server
