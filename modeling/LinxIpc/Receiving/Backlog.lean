import LinxIpc.Receiving.Consumption

/-!
Calls that find their message already in the socket, behind others.

The loops look at the deadline after each datagram that they do not return, so
a message is reached as long as the time is not over when they come to it.
-/

namespace LinxIpc

variable {α β ι : Type}

def Passes (identifier : α → ι) (wanted : RawMessage → ι → Prop) (datagram : Datagram α) : Prop :=
  ∃ msg, RawMessage.deserialize datagram.bytes = some msg ∧
    wanted msg (identifier datagram.address)

/-- The first datagram of the backlog that passes comes after these, and holds
this message of this sender. -/
structure FirstMatch (identifier : α → ι) (wanted : RawMessage → ι → Prop)
    (backlog ahead : List (Datagram α)) (msg : RawMessage) (sender : ι) : Prop where
  split : ∃ datagram behind, backlog = ahead ++ datagram :: behind ∧
    RawMessage.deserialize datagram.bytes = some msg ∧ identifier datagram.address = sender
  passes : wanted msg sender
  first : ∀ datagram ∈ ahead, ¬ Passes identifier wanted datagram

theorem exists_firstMatch {identifier : α → ι} {wanted : RawMessage → ι → Prop}
    {backlog : List (Datagram α)} (present : ∃ datagram ∈ backlog, Passes identifier wanted datagram) :
    ∃ ahead msg sender, FirstMatch identifier wanted backlog ahead msg sender := by
  induction backlog with
  | nil =>
      obtain ⟨datagram, member, -⟩ := present
      cases member
  | cons datagram rest ih =>
      by_cases here : Passes identifier wanted datagram
      · obtain ⟨msg, decoded, passes⟩ := here
        exact ⟨[], msg, _, ⟨datagram, rest, rfl, decoded, rfl⟩, passes, List.forall_mem_nil _⟩
      · obtain ⟨found, member, passes⟩ := present
        have later : found ∈ rest := by
          rcases List.mem_cons.mp member with rfl | later
          · exact absurd passes here
          · exact later
        obtain ⟨ahead, msg, sender, ⟨matching, behind, rfl, holds⟩, passes, first⟩ :=
          ih ⟨found, later, passes⟩
        exact ⟨datagram :: ahead, msg, sender, ⟨matching, behind, rfl, holds⟩, passes,
          List.forall_mem_cons.mpr ⟨here, first⟩⟩

theorem unwanted_of_not_passes {identifier : α → ι} {wanted : RawMessage → ι → Prop}
    {datagram : Datagram α} (wellFormed : WellFormed datagram)
    (fails : ¬ Passes identifier wanted datagram) :
    Unwanted wanted (received identifier datagram) := by
  obtain ⟨msg, decoded, same⟩ := received_wellFormed identifier wellFormed
  have header : 4 ≤ datagram.bytes.length := wellFormed
  rw [same]
  exact ⟨by simp only; omega, msg, _, rfl, fun passes => fails ⟨msg, decoded, passes⟩⟩

def onTime (deadline : Deadline) (passes : List (Pass ι)) : Bool :=
  passes.all (fun pass => !deadline.isExpired pass.later)

theorem receiveLoop_late {body : Received ι → Verdict β ι} {deadline : Deadline}
    {passes : List (Pass ι)} (skips : ∀ pass ∈ passes, ∃ pong, body pass.received = .goOn pong)
    (late : onTime deadline passes = false) (behind : List (Pass ι)) :
    (receiveLoop body deadline (passes ++ behind)).status = .returned none := by
  induction passes with
  | nil => cases late
  | cons pass rest ih =>
      rw [List.forall_mem_cons] at skips
      obtain ⟨pong, goes⟩ := skips.1
      cases expired : deadline.isExpired pass.later with
      | true =>
          rw [List.cons_append, receiveLoop_ends (.expired goes expired)]
          rfl
      | false =>
          simp only [onTime, List.all_cons, expired, Bool.not_false, Bool.true_and] at late
          rw [List.cons_append, receiveLoop_cons ⟨⟨pong, goes⟩, expired⟩]
          exact ih skips.2 late

theorem Filters.backlog {body : Received ι → Verdict β ι} {wanted : RawMessage → ι → Prop}
    {give : RawMessage → ι → β} (filters : Filters body wanted give) (deadline : Deadline)
    {identifier : α → ι} {backlog : List (Datagram α)}
    (wellFormed : ∀ datagram ∈ backlog, WellFormed datagram) {ahead : List (Datagram α)}
    {msg : RawMessage} {sender : ι}
    (firstMatch : FirstMatch identifier wanted backlog ahead msg sender)
    {passes : List (Pass ι)} (reads : Reads identifier passes backlog) :
    (receiveLoop body deadline passes).status =
      if onTime deadline (passes.take ahead.length) then .returned (some (give msg sender))
      else .returned none := by
  obtain ⟨⟨datagram, behind, rfl, decoded, rfl⟩, passing, first⟩ := firstMatch
  rw [Reads, List.map_append, List.map_eq_append_iff] at reads
  obtain ⟨front, back, rfl, readsFront, readsBack⟩ := reads
  obtain ⟨last, unread, rfl, here, -⟩ := reads_cons readsBack
  have length : front.length = ahead.length := by
    have lengths := congrArg List.length readsFront
    rwa [List.length_map, List.length_map] at lengths
  rw [← length, List.take_left]
  have skips : ∀ pass ∈ front, ∃ pong, body pass.received = .goOn pong := by
    intro pass member
    have source : pass.received ∈ front.map Pass.received := List.mem_map_of_mem member
    rw [readsFront] at source
    obtain ⟨skipped, inAhead, same⟩ := List.mem_map.mp source
    rw [← same]
    exact filters.unwanted _ (unwanted_of_not_passes
      (wellFormed _ (List.mem_append_left _ inAhead)) (first _ inAhead))
  by_cases early : onTime deadline front = true
  · have continues : ∀ pass ∈ front, Continues body deadline pass := by
      intro pass member
      have notLate := List.all_eq_true.mp early pass member
      exact ⟨skips pass member, by simpa using notLate⟩
    have header : WellFormed datagram :=
      wellFormed _ (List.mem_append_right _ List.mem_cons_self)
    obtain ⟨_, decodedAgain, same⟩ := received_wellFormed identifier header
    cases decoded.symm.trans decodedAgain
    have positive : 4 ≤ datagram.bytes.length := header
    rw [same] at here
    have finishes := filters.wanted last.received msg _ (by rw [here]; simp only; omega)
      (by rw [here]) passing
    rw [if_pos early, receiveLoop_of_ends continues (.finished finishes)]
    rfl
  · have late : onTime deadline front = false := Bool.eq_false_iff.mpr early
    rw [if_neg early]
    exact receiveLoop_late skips late _

theorem onTime_infinite (created : Int) (passes : List (Pass ι)) :
    onTime (Deadline.create created infiniteTimeout) passes = true := by
  rw [Deadline.create_infinite, onTime, List.all_eq_true]
  intro pass _
  rfl

/-- A call on a backlog returns its first message that passes if it is in time
for it, as it always is without a deadline or with nothing ahead. -/
structure FindsFirst (identifier : α → ι) (wanted : RawMessage → ι → Prop)
    (give : RawMessage → ι → β) (timeoutMs created : Int) (backlog : List (Datagram α))
    (passes : List (Pass ι)) (status : LoopStatus β) (ahead : List (Datagram α))
    (msg : RawMessage) (sender : ι) : Prop where
  first : FirstMatch identifier wanted backlog ahead msg sender
  early : onTime (Deadline.create created timeoutMs) (passes.take ahead.length) = true →
    status = .returned (some (give msg sender))
  late : onTime (Deadline.create created timeoutMs) (passes.take ahead.length) = false →
    status = .returned none
  always : timeoutMs = infiniteTimeout ∨ ahead = [] → status = .returned (some (give msg sender))

theorem Filters.findsFirst {body : Received ι → Verdict β ι} {wanted : RawMessage → ι → Prop}
    {give : RawMessage → ι → β} (filters : Filters body wanted give) (timeoutMs created : Int)
    {identifier : α → ι} {backlog : List (Datagram α)}
    (wellFormed : ∀ datagram ∈ backlog, WellFormed datagram)
    (present : ∃ datagram ∈ backlog, Passes identifier wanted datagram)
    {passes : List (Pass ι)} (reads : Reads identifier passes backlog) :
    ∃ ahead msg sender, FindsFirst identifier wanted give timeoutMs created backlog passes
      (receiveLoop body (Deadline.create created timeoutMs) passes).status ahead msg sender := by
  obtain ⟨ahead, msg, sender, first⟩ := exists_firstMatch present
  have status := filters.backlog (Deadline.create created timeoutMs) wellFormed first reads
  refine ⟨ahead, msg, sender, first, ?_, ?_, ?_⟩
  · intro early
    rw [status, if_pos early]
  · intro late
    rw [status, if_neg (Bool.eq_false_iff.mp late)]
  · rintro (rfl | rfl)
    · rw [status, if_pos (onTime_infinite created _)]
    · rw [status]
      rfl

section Callers

variable [BEq ι]

theorem receives_find_first (timeoutMs created : Int) (sigsel : List UInt32) {identifier : α → ι}
    {backlog : List (Datagram α)} (wellFormed : ∀ datagram ∈ backlog, WellFormed datagram)
    {passes : List (Pass ι)} (reads : Reads identifier passes backlog) :
    (∀ expected : Option ι,
      (∃ datagram ∈ backlog,
        Passes identifier (Server.GenericSimpleServer.Wanted sigsel expected) datagram) →
      ∃ ahead msg sender, FindsFirst identifier (Server.GenericSimpleServer.Wanted sigsel expected)
        Server.GenericSimpleServer.container timeoutMs created backlog passes
        (Server.GenericSimpleServer.receive timeoutMs sigsel expected created passes).status
        ahead msg sender) ∧
      ∀ server : ι,
        (∃ datagram ∈ backlog, Passes identifier (Client.Wanted server sigsel) datagram) →
        ∃ ahead msg sender, FindsFirst identifier (Client.Wanted server sigsel)
          (fun msg _ => msg) timeoutMs created backlog passes
          (Client.receive server timeoutMs sigsel created passes).status ahead msg sender :=
  ⟨fun expected present =>
      (Server.GenericSimpleServer.receiveBody_filters sigsel expected).findsFirst timeoutMs created
        wellFormed present reads,
    fun server present =>
      (Client.receiveBody_filters server sigsel).findsFirst timeoutMs created wellFormed present
        reads⟩

end Callers

/-! ### A backlog that a call with `IMMEDIATE_TIMEOUT` does not get through -/

def peer : SockaddrUn := { sunPath := 0 :: ofAscii "peer" }

def pingAndRequest : List (Datagram SockaddrUn) :=
  [{ bytes := [0, 0, 0, 1], address := peer }, { bytes := [0, 0, 0, 7, 3], address := peer }]

def slowPasses : List (Pass UnixInfo) :=
  pingAndRequest.map fun datagram =>
    { now := 0, received := received AfUnixSocket.identifier datagram, later := 1 }

theorem slowPasses_reads : Reads AfUnixSocket.identifier slowPasses pingAndRequest := rfl

theorem pingAndRequest_find_first :
    ∃ ahead msg sender, FindsFirst AfUnixSocket.identifier
      (Server.GenericSimpleServer.Wanted [] none) Server.GenericSimpleServer.container 100 0
      pingAndRequest slowPasses
      (Server.GenericSimpleServer.receive 100 [] none 0 slowPasses).status ahead msg sender :=
  (receives_find_first 100 0 [] (by decide) slowPasses_reads).1 none
    ⟨{ bytes := [0, 0, 0, 7, 3], address := peer }, by decide, { reqId := 7, payload := [3] },
      by decide, by decide, by decide, by decide⟩

theorem pingAndRequest_firstMatch {wanted : RawMessage → UnixInfo → Prop}
    (request : wanted { reqId := 7, payload := [3] } (AfUnixSocket.identifier peer))
    (ping : ¬ wanted { reqId := 1, payload := [] } (AfUnixSocket.identifier peer)) :
    FirstMatch AfUnixSocket.identifier wanted pingAndRequest
      [{ bytes := [0, 0, 0, 1], address := peer }] { reqId := 7, payload := [3] }
      (AfUnixSocket.identifier peer) where
  split := ⟨{ bytes := [0, 0, 0, 7, 3], address := peer }, [], rfl, by decide, rfl⟩
  passes := request
  first datagram member := by
    cases List.mem_singleton.mp member
    rintro ⟨msg, decoded, wants⟩
    cases Option.some.inj decoded
    exact ping wants

theorem immediate_misses_backlog :
    (∀ datagram ∈ pingAndRequest, WellFormed datagram) ∧
      Reads AfUnixSocket.identifier slowPasses pingAndRequest ∧
      FirstMatch AfUnixSocket.identifier (Server.GenericSimpleServer.Wanted [7] none)
        pingAndRequest [{ bytes := [0, 0, 0, 1], address := peer }]
        { reqId := 7, payload := [3] } (AfUnixSocket.identifier peer) ∧
      (Server.GenericSimpleServer.receive immediateTimeout [7] none 0 slowPasses).status ≠
        .returned (some
          { message := { reqId := 7, payload := [3] },
            sender := some (AfUnixSocket.identifier peer) }) ∧
      FirstMatch AfUnixSocket.identifier (Client.Wanted (AfUnixSocket.identifier peer) [7])
        pingAndRequest [{ bytes := [0, 0, 0, 1], address := peer }]
        { reqId := 7, payload := [3] } (AfUnixSocket.identifier peer) ∧
      (Client.receive (AfUnixSocket.identifier peer) immediateTimeout [7] 0 slowPasses).status ≠
        .returned (some { reqId := 7, payload := [3] }) := by
  have server : (Server.GenericSimpleServer.receive immediateTimeout [7] none 0 slowPasses).status =
      .returned none := by decide
  have client :
      (Client.receive (AfUnixSocket.identifier peer) immediateTimeout [7] 0 slowPasses).status =
        .returned none := by decide
  refine ⟨by decide, slowPasses_reads, pingAndRequest_firstMatch ?_ ?_, ?_,
    pingAndRequest_firstMatch ?_ ?_, ?_⟩
  · exact ⟨by decide, by decide, by decide⟩
  · rintro ⟨notPing, -, -⟩
    exact notPing rfl
  · rw [server]
    simp only [ne_eq, LoopStatus.returned.injEq, reduceCtorEq, not_false_eq_true]
  · exact ⟨by decide, by decide⟩
  · rintro ⟨-, selected⟩
    revert selected
    decide
  · rw [client]
    simp only [ne_eq, LoopStatus.returned.injEq, reduceCtorEq, not_false_eq_true]

end LinxIpc
