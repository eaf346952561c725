import LinxIpc.Client.GenericClient
import LinxIpc.Server.SimpleServer

/-!
What the receive loops of the client and of the simple server take from the
results of their socket.

A stream of results is endless.  A socket that gives only the first of them
leaves the loop waiting for the next.
-/

namespace LinxIpc

variable {β ι : Type}

/-- A positive result comes with a message and a sender. -/
def Received.Sound (received : Received ι) : Prop :=
  0 < received.result → received.stored.isSome = true

instance (received : Received ι) : Decidable received.Sound :=
  inferInstanceAs (Decidable (0 < received.result → received.stored.isSome = true))

theorem Received.Sound.cases {received : Received ι} (sound : received.Sound) :
    received.result ≤ 0 ∨
      0 < received.result ∧ ∃ msg sender, received.stored = some (msg, sender) := by
  by_cases positive : 0 < received.result
  · obtain ⟨⟨msg, sender⟩, stored⟩ := Option.isSome_iff_exists.mp (sound positive)
    exact .inr ⟨positive, msg, sender, stored⟩
  · exact .inl (Int.not_lt.mp positive)

section Streams

variable (passes : RawMessage → ι → Prop) (pinger? : Pass ι → Option ι)

def Unwanted (received : Received ι) : Prop :=
  0 < received.result ∧
    ∃ msg sender, received.stored = some (msg, sender) ∧ ¬ passes msg sender

inductive Outcome (give : RawMessage → ι → β) (deadline : Deadline) (last : Pass ι) :
    Option β → Prop where
  | message {msg : RawMessage} {sender : ι} (positive : 0 < last.received.result)
      (stored : last.received.stored = some (msg, sender)) (wanted : passes msg sender) :
      Outcome give deadline last (some (give msg sender))
  | failed (notPositive : last.received.result ≤ 0) : Outcome give deadline last none
  | expired (unwanted : Unwanted passes last.received)
      (late : deadline.isExpired last.later = true) : Outcome give deadline last none

def WaitsAfter (call : List (Pass ι) → LoopRun β ι) (consumed : List (Pass ι)) : Prop :=
  (call consumed).status = .waiting ∧ (call consumed).unread = [] ∧
    (call consumed).pongs = consumed.filterMap pinger?

def ReturnsAfter (call : List (Pass ι) → LoopRun β ι) (consumed : List (Pass ι))
    (msg : Option β) : Prop :=
  ∀ unread, (call (consumed ++ unread)).status = .returned msg ∧
    (call (consumed ++ unread)).unread = unread ∧
    (call (consumed ++ unread)).pongs = consumed.filterMap pinger?

inductive ConsumesStream (give : RawMessage → ι → β) (deadline : Deadline)
    (call : List (Pass ι) → LoopRun β ι) (stream : Nat → Pass ι) : Prop where
  | keepsGoing (skipped : ∀ i, Unwanted passes (stream i).received)
      (waits : ∀ count, WaitsAfter pinger? call (firstPasses stream count))
  | returns (last : Nat) (msg : Option β)
      (skipped : ∀ i < last, Unwanted passes (stream i).received)
      (waits : ∀ count ≤ last, WaitsAfter pinger? call (firstPasses stream count))
      (returned : ReturnsAfter pinger? call (firstPasses stream (last + 1)) msg)
      (outcome : Outcome passes give deadline (stream last) msg)

end Streams

/-- A body that ends with a message that passes, and skips all others. -/
structure Filters (body : Received ι → Verdict β ι) (passes : RawMessage → ι → Prop)
    (give : RawMessage → ι → β) : Prop where
  failed : ∀ received : Received ι, received.result ≤ 0 → body received = .finish none
  wanted : ∀ (received : Received ι) (msg : RawMessage) (sender : ι), 0 < received.result →
    received.stored = some (msg, sender) → passes msg sender →
    body received = .finish (some (give msg sender))
  unwanted : ∀ received : Received ι, Unwanted passes received → ∃ pong, body received = .goOn pong

theorem Filters.cases {body : Received ι → Verdict β ι} {passes : RawMessage → ι → Prop}
    {give : RawMessage → ι → β} (filters : Filters body passes give) {received : Received ι}
    (sound : received.Sound) :
    (received.result ≤ 0 ∧ body received = .finish none) ∨
      (∃ msg sender, 0 < received.result ∧ received.stored = some (msg, sender) ∧
        passes msg sender ∧ body received = .finish (some (give msg sender))) ∨
      (Unwanted passes received ∧ ∃ pong, body received = .goOn pong) := by
  rcases sound.cases with failed | ⟨positive, msg, sender, stored⟩
  · exact .inl ⟨failed, filters.failed received failed⟩
  · by_cases wanted : passes msg sender
    · exact .inr (.inl ⟨msg, sender, positive, stored, wanted,
        filters.wanted received msg sender positive stored wanted⟩)
    · have unwanted : Unwanted passes received := ⟨positive, msg, sender, stored, wanted⟩
      exact .inr (.inr ⟨unwanted, filters.unwanted received unwanted⟩)

theorem Filters.defined {body : Received ι → Verdict β ι} {passes : RawMessage → ι → Prop}
    {give : RawMessage → ι → β} (filters : Filters body passes give) {received : Received ι}
    (sound : received.Sound) : body received ≠ .undefined := by
  rcases filters.cases sound with ⟨-, ends⟩ | ⟨msg, sender, -, -, -, ends⟩ | ⟨-, pong, goes⟩
  · simp only [ends, ne_eq, reduceCtorEq, not_false_eq_true]
  · simp only [ends, ne_eq, reduceCtorEq, not_false_eq_true]
  · simp only [goes, ne_eq, reduceCtorEq, not_false_eq_true]

theorem Filters.goOn {body : Received ι → Verdict β ι} {passes : RawMessage → ι → Prop}
    {give : RawMessage → ι → β} (filters : Filters body passes give) {received : Received ι}
    (sound : received.Sound) {pong : Option ι} (goes : body received = .goOn pong) :
    Unwanted passes received := by
  rcases filters.cases sound with ⟨-, ends⟩ | ⟨msg, sender, -, -, -, ends⟩ | ⟨unwanted, -⟩
  · rw [ends] at goes
    cases goes
  · rw [ends] at goes
    cases goes
  · exact unwanted

theorem Filters.continues {body : Received ι → Verdict β ι} {passes : RawMessage → ι → Prop}
    {give : RawMessage → ι → β} (filters : Filters body passes give) {deadline : Deadline}
    {pass : Pass ι} (sound : pass.received.Sound) (continues : Continues body deadline pass) :
    Unwanted passes pass.received := by
  obtain ⟨⟨pong, goes⟩, -⟩ := continues
  exact filters.goOn sound goes

theorem Filters.ends {body : Received ι → Verdict β ι} {passes : RawMessage → ι → Prop}
    {give : RawMessage → ι → β} (filters : Filters body passes give) {deadline : Deadline}
    {pass : Pass ι} {msg : Option β} (sound : pass.received.Sound)
    (ends : Ends body deadline pass msg) : Outcome passes give deadline pass msg := by
  cases ends with
  | finished finishes =>
      rcases filters.cases sound with
        ⟨failed, verdict⟩ | ⟨msg, sender, positive, stored, wanted, verdict⟩ | ⟨-, pong, verdict⟩
      · rw [verdict] at finishes
        cases finishes
        exact .failed failed
      · rw [verdict] at finishes
        cases finishes
        exact .message positive stored wanted
      · rw [verdict] at finishes
        cases finishes
  | expired goes late => exact .expired (filters.goOn sound goes) late

theorem Filters.consumesStream {body : Received ι → Verdict β ι} {passes : RawMessage → ι → Prop}
    {give : RawMessage → ι → β} (filters : Filters body passes give) (deadline : Deadline)
    {stream : Nat → Pass ι} (sound : ∀ i, (stream i).received.Sound) :
    ConsumesStream passes (pong? body) give deadline (receiveLoop body deadline) stream := by
  have waiting : ∀ count, (∀ i < count, Continues body deadline (stream i)) →
      WaitsAfter (pong? body) (receiveLoop body deadline) (firstPasses stream count) := by
    intro count continues
    have same := receiveLoop_waits (forall_mem_firstPasses.mpr continues)
    rw [WaitsAfter, same]
    exact ⟨rfl, rfl, rfl⟩
  rcases receiveLoop_stream deadline (fun i => filters.defined (sound i)) with
    all | ⟨last, msg, before, ends⟩
  · exact .keepsGoing (fun i => filters.continues (sound i) (all i))
      (fun count => waiting count (fun i _ => all i))
  · refine .returns last msg (fun i earlier => filters.continues (sound i) (before i earlier))
      (fun count within => waiting count fun i earlier =>
        before i (Nat.lt_of_lt_of_le earlier within))
      (fun unread => ?_) (filters.ends (sound last) ends)
    rw [firstPasses_succ, List.append_assoc, List.singleton_append,
      receiveLoop_of_ends (forall_mem_firstPasses.mpr before) ends]
    exact ⟨rfl, rfl, rfl⟩

/-! ### The two callers -/

section Callers

variable [BEq ι]

namespace Server.GenericSimpleServer

def Wanted (sigsel : List UInt32) (expected : Option ι) (msg : RawMessage) (sender : ι) : Prop :=
  msg.reqId ≠ ipcPingReq ∧ matchesFrom (some sender) expected = true ∧
    matchesSignalSelector msg sigsel = true

def container (msg : RawMessage) (sender : ι) : LinxReceivedMessage ι :=
  { message := msg, sender := some sender }

def pinger? (pass : Pass ι) : Option ι :=
  if 0 < pass.received.result then
    match pass.received.stored with
    | some (msg, sender) => if msg.reqId = ipcPingReq then some sender else none
    | none => none
  else none

theorem receiveBody_filters (sigsel : List UInt32) (expected : Option ι) :
    Filters (receiveBody sigsel expected) (Wanted sigsel expected) container where
  failed received failed := by
    simp only [receiveBody, ite_result_failed failed]
  wanted received msg sender positive stored wanted := by
    obtain ⟨notPing, fromExpected, selected⟩ := wanted
    simp only [receiveBody, ite_result_positive positive, stored, if_neg notPing, matchesFilter,
      fromExpected, selected, Bool.and_self, if_true, container]
  unwanted received unwanted := by
    obtain ⟨positive, msg, sender, stored, unwanted⟩ := unwanted
    simp only [receiveBody, ite_result_positive positive, stored]
    by_cases ping : msg.reqId = ipcPingReq
    · exact ⟨some sender, if_pos ping⟩
    · have fails : matchesFilter sigsel expected { message := msg, sender := some sender } ≠ true :=
        fun passes => unwanted ⟨ping, Bool.and_eq_true_iff.mp passes⟩
      exact ⟨none, by rw [if_neg ping, if_neg fails]⟩

theorem pong_receiveBody (sigsel : List UInt32) (expected : Option ι) :
    pong? (receiveBody sigsel expected) = pinger? := by
  funext pass
  by_cases positive : 0 < pass.received.result
  · simp only [pong?, receiveBody, ite_result_positive positive, pinger?, if_pos positive]
    cases stored : pass.received.stored with
    | none => rfl
    | some pair =>
        by_cases ping : pair.1.reqId = ipcPingReq
        · simp only [if_pos ping]
        · simp only [if_neg ping]
          cases matchesFilter sigsel expected { message := pair.1, sender := some pair.2 } <;> rfl
  · have ends := (receiveBody_filters sigsel expected).failed _ (Int.not_lt.mp positive)
    simp only [pong?, ends, pinger?, if_neg positive]

end Server.GenericSimpleServer

namespace Client

def Wanted (identifier : ι) (sigsel : List UInt32) (msg : RawMessage) (sender : ι) : Prop :=
  matchesFrom (some sender) (some identifier) = true ∧ matchesSignalSelector msg sigsel = true

theorem receiveBody_filters (identifier : ι) (sigsel : List UInt32) :
    Filters (receiveBody identifier sigsel) (Wanted identifier sigsel) (fun msg _ => msg) where
  failed received failed := by
    simp only [receiveBody, ite_result_failed failed]
  wanted received msg sender positive stored wanted := by
    simp only [receiveBody, ite_result_positive positive, stored, matchesFilter,
      wanted.1, wanted.2, Bool.and_self, if_true]
  unwanted received unwanted := by
    obtain ⟨positive, msg, sender, stored, unwanted⟩ := unwanted
    have fails : matchesFilter sigsel (some identifier)
        { message := msg, sender := some sender } ≠ true :=
      fun passes => unwanted (Bool.and_eq_true_iff.mp passes)
    refine ⟨none, ?_⟩
    simp only [receiveBody, ite_result_positive positive, stored, if_neg fails]

theorem pong_receiveBody (identifier : ι) (sigsel : List UInt32) :
    pong? (receiveBody identifier sigsel) = fun _ => none := by
  funext pass
  by_cases positive : 0 < pass.received.result
  · simp only [pong?, receiveBody, ite_result_positive positive]
    cases stored : pass.received.stored with
    | none => rfl
    | some pair =>
        simp only
        cases matchesFilter sigsel (some identifier)
          { message := pair.1, sender := some pair.2 } <;> rfl
  · have ends := (receiveBody_filters identifier sigsel).failed _ (Int.not_lt.mp positive)
    simp only [pong?, ends]

end Client

/-- Both loops read a stream up to the first result that ends the call: every
earlier one was a message that does not pass, and pings were answered to their
own senders. -/
theorem receives_consume_stream (timeoutMs created : Int) (sigsel : List UInt32)
    {stream : Nat → Pass ι} (sound : ∀ i, (stream i).received.Sound) :
    (∀ expected : Option ι,
      ConsumesStream (Server.GenericSimpleServer.Wanted sigsel expected)
        Server.GenericSimpleServer.pinger? Server.GenericSimpleServer.container
        (Deadline.create created timeoutMs)
        (Server.GenericSimpleServer.receive timeoutMs sigsel expected created) stream) ∧
      ∀ identifier : ι,
        ConsumesStream (Client.Wanted identifier sigsel) (fun _ => none) (fun msg _ => msg)
          (Deadline.create created timeoutMs)
          (Client.receive identifier timeoutMs sigsel created) stream := by
  constructor
  · intro expected
    rw [← Server.GenericSimpleServer.pong_receiveBody sigsel expected]
    exact (Server.GenericSimpleServer.receiveBody_filters sigsel expected).consumesStream _ sound
  · intro identifier
    rw [← Client.pong_receiveBody identifier sigsel]
    exact (Client.receiveBody_filters identifier sigsel).consumesStream _ sound

end Callers

def pingThenRequests : Nat → Pass UnixInfo
  | 0 =>
      { now := 0, later := 5,
        received := Client.delivered { value := ofAscii "peer" } { reqId := 1, payload := [] } }
  | i + 1 =>
      { now := 5 + i, later := 6 + i,
        received := Client.delivered { value := ofAscii "peer" } { reqId := 7, payload := [3] } }

theorem pingThenRequests_sound (i : Nat) : (pingThenRequests i).received.Sound := by
  cases i <;> exact fun _ => rfl

theorem pingThenRequests_consumed :
    ConsumesStream (Server.GenericSimpleServer.Wanted [7] (none : Option UnixInfo))
      Server.GenericSimpleServer.pinger? Server.GenericSimpleServer.container
      (Deadline.create 0 1000)
      (Server.GenericSimpleServer.receive 1000 [7] none 0) pingThenRequests ∧
      ConsumesStream (Client.Wanted ({ value := ofAscii "peer" } : UnixInfo) [7]) (fun _ => none)
        (fun msg _ => msg) (Deadline.create 0 1000)
        (Client.receive { value := ofAscii "peer" } 1000 [7] 0) pingThenRequests :=
  ⟨(receives_consume_stream 1000 0 [7] pingThenRequests_sound).1 none,
    (receives_consume_stream 1000 0 [7] pingThenRequests_sound).2 { value := ofAscii "peer" }⟩

end LinxIpc
