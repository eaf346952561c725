import LinxIpc.Server.Task
import LinxIpc.Socket.ReceiveLoop

/-!
`GenericSimpleServer`: its caller's own thread reads the socket, answers the
pings it meets and drops what its filter does not match.
-/

namespace LinxIpc.Server

variable {α ι : Type}

/-! ### Datagrams as containers -/

def container? (identifier : α → ι) (datagram : Datagram α) : Option (LinxReceivedMessage ι) :=
  (RawMessage.deserialize datagram.bytes).map fun msg =>
    { message := msg, sender := some (identifier datagram.address) }

def isPing (container : LinxReceivedMessage ι) : Bool := container.message.reqId == ipcPingReq

def messages (identifier : α → ι) (datagrams : List (Datagram α)) : List (LinxReceivedMessage ι) :=
  (datagrams.filterMap (container? identifier)).filter (fun container => !isPing container)

def pings (identifier : α → ι) (datagrams : List (Datagram α)) : List ι :=
  ((datagrams.filterMap (container? identifier)).filter isPing).filterMap
    LinxReceivedMessage.sender

theorem messages_append (identifier : α → ι) (front back : List (Datagram α)) :
    messages identifier (front ++ back) =
      messages identifier front ++ messages identifier back := by
  rw [messages, List.filterMap_append, List.filter_append]
  rfl

theorem pings_append (identifier : α → ι) (front back : List (Datagram α)) :
    pings identifier (front ++ back) = pings identifier front ++ pings identifier back := by
  rw [pings, List.filterMap_append, List.filter_append, List.filterMap_append]
  rfl

theorem messages_cons {identifier : α → ι} {datagram : Datagram α}
    {container : LinxReceivedMessage ι} (contains : container? identifier datagram = some container)
    (rest : List (Datagram α)) :
    messages identifier (datagram :: rest) =
      if isPing container then messages identifier rest
      else container :: messages identifier rest := by
  simp only [messages, List.filterMap_cons, contains]
  cases ping : isPing container <;> simp [ping]

theorem pings_single {identifier : α → ι} {datagram : Datagram α}
    {container : LinxReceivedMessage ι}
    (contains : container? identifier datagram = some container) :
    pings identifier [datagram] = if isPing container then container.sender.toList else [] := by
  simp only [pings, List.filterMap_cons, contains]
  cases ping : isPing container with
  | false => simp [ping]
  | true => cases sender : container.sender <;> simp [ping, sender]

def Output.offered? : Output ι → Option (LinxReceivedMessage ι)
  | .offered msg => some msg
  | .answered _ => none

def Output.answered? : Output ι → Option ι
  | .answered peer => some peer
  | .offered _ => none

theorem outputs_split (identifier : α → ι) (datagrams : List (Datagram α)) :
    (outputs identifier datagrams).filterMap Output.offered? = messages identifier datagrams ∧
      (outputs identifier datagrams).filterMap Output.answered? = pings identifier datagrams := by
  induction datagrams with
  | nil => exact ⟨rfl, rfl⟩
  | cons datagram rest ih =>
      obtain ⟨offered, answered⟩ := ih
      rw [outputs] at offered answered
      cases decoded : RawMessage.deserialize datagram.bytes with
      | none =>
          simp [outputs, messages, pings, output?, container?, decoded] at offered answered ⊢
          exact ⟨offered, answered⟩
      | some msg =>
          by_cases ping : msg.reqId = ipcPingReq
          · simp [outputs, messages, pings, output?, container?, decoded, ping, isPing,
              Output.answered?] at offered answered ⊢
            exact ⟨offered, answered⟩
          · simp [outputs, messages, pings, output?, container?, decoded, ping, isPing,
              Output.offered?] at offered answered ⊢
            exact ⟨offered, answered⟩

/-! ### `GenericSimpleServer::receive` -/

namespace GenericSimpleServer

variable [BEq ι]

def receiveBody (sigsel : List UInt32) (expected : Option ι) (received : Received ι) :
    Verdict (LinxReceivedMessage ι) ι :=
  if received.result = 0 then .finish none
  else if received.result < 0 then .finish none
  else
    match received.stored with
    | none => .undefined
    | some (msg, sender) =>
        let container : LinxReceivedMessage ι := { message := msg, sender := some sender }
        if msg.reqId = ipcPingReq then .goOn (some sender)
        else if matchesFilter sigsel expected container then .finish (some container)
        else .goOn none

/-- `created` is the clock in the constructor of the deadline. -/
def receive (timeoutMs : Int) (sigsel : List UInt32) (expected : Option ι) (created : Int)
    (passes : List (Pass ι)) : LoopRun (LinxReceivedMessage ι) ι :=
  receiveLoop (receiveBody sigsel expected) (Deadline.create created timeoutMs) passes

/-- Calls one after the other, as many as there are clock readings: the values
they return, the pings they answer, and what they leave unread.  There is no
result if one of them does not return. -/
def receives (timeoutMs : Int) (sigsel : List UInt32) (expected : Option ι) :
    List Int → List (Pass ι) →
      Option (List (Option (LinxReceivedMessage ι)) × List ι × List (Pass ι))
  | [], passes => some ([], [], passes)
  | created :: rest, passes =>
      let call := receive timeoutMs sigsel expected created passes
      match call.status with
      | .returned msg =>
          match receives timeoutMs sigsel expected rest call.unread with
          | none => none
          | some (msgs, pongs, unread) => some (msg :: msgs, call.pongs ++ pongs, unread)
      | .waiting | .undefined => none

theorem receiveBody_wellFormed (identifier : α → ι) {datagram : Datagram α}
    (wellFormed : WellFormed datagram) (sigsel : List UInt32) (expected : Option ι) :
    ∃ container, container? identifier datagram = some container ∧
      (receiveBody sigsel expected (received identifier datagram) =
        if isPing container then .goOn container.sender
        else if matchesFilter sigsel expected container then .finish (some container)
        else .goOn none) := by
  obtain ⟨msg, decoded, same⟩ := received_wellFormed identifier wellFormed
  have positive := wellFormed.positive
  refine ⟨{ message := msg, sender := some (identifier datagram.address) }, ?_, ?_⟩
  · rw [container?, decoded]
    rfl
  · rw [same]
    simp only [receiveBody, ite_result_positive positive, isPing, beq_iff_eq]

theorem receiveBody_head (identifier : α → ι) {datagram : Datagram α}
    (wellFormed : WellFormed datagram) (sigsel : List UInt32) (expected : Option ι)
    (rest : List (Datagram α)) :
    (∃ pong, receiveBody sigsel expected (received identifier datagram) = .goOn pong ∧
        pings identifier [datagram] = pong.toList ∧
        (messages identifier (datagram :: rest)).filter (matchesFilter sigsel expected) =
          (messages identifier rest).filter (matchesFilter sigsel expected)) ∨
      ∃ container, receiveBody sigsel expected (received identifier datagram) =
          .finish (some container) ∧ pings identifier [datagram] = [] ∧
        (messages identifier (datagram :: rest)).filter (matchesFilter sigsel expected) =
          container :: (messages identifier rest).filter (matchesFilter sigsel expected) := by
  obtain ⟨container, contains, verdict⟩ :=
    receiveBody_wellFormed identifier wellFormed sigsel expected
  have asked := pings_single contains
  have remaining := messages_cons contains rest
  by_cases ping : isPing container = true
  · simp only [ping, if_true] at verdict asked remaining
    rw [remaining]
    exact .inl ⟨container.sender, verdict, asked, rfl⟩
  · simp only [ping, Bool.false_eq_true, if_false] at verdict asked remaining
    rw [remaining]
    by_cases matched : matchesFilter sigsel expected container = true
    · simp only [matched, if_true] at verdict
      exact .inr ⟨container, verdict, asked, List.filter_cons_of_pos matched⟩
    · simp only [matched, Bool.false_eq_true, if_false] at verdict
      exact .inl ⟨none, verdict, asked, List.filter_cons_of_neg matched⟩

/-- A call on these datagrams returned the message, answered the pings it read,
and left datagrams in which the rest passes the filter. -/
def Serves (identifier : α → ι) (sigsel : List UInt32) (expected : Option ι)
    (datagrams : List (Datagram α)) (call : LoopRun (LinxReceivedMessage ι) ι)
    (first : LinxReceivedMessage ι) (more : List (LinxReceivedMessage ι)) : Prop :=
  ∃ front back, datagrams = front ++ back ∧ call.status = .returned (some first) ∧
    call.pongs = pings identifier front ∧ Reads identifier call.unread back ∧
    (messages identifier back).filter (matchesFilter sigsel expected) = more

theorem Serves.goOn {identifier : α → ι} {sigsel : List UInt32} {expected : Option ι}
    {datagram : Datagram α} {rest : List (Datagram α)} {pass : Pass ι} {unread : List (Pass ι)}
    {first : LinxReceivedMessage ι} {more : List (LinxReceivedMessage ι)} {pong : Option ι}
    {created : Int} (goes : receiveBody sigsel expected pass.received = .goOn pong)
    (answered : pings identifier [datagram] = pong.toList)
    (serves : Serves identifier sigsel expected rest
      (receive infiniteTimeout sigsel expected created unread) first more) :
    Serves identifier sigsel expected (datagram :: rest)
      (receive infiniteTimeout sigsel expected created (pass :: unread)) first more := by
  obtain ⟨front, back, rfl, returned, pongs, reads, remaining⟩ := serves
  have looped : receive infiniteTimeout sigsel expected created (pass :: unread) = _ :=
    receiveLoop_goOn goes unread
  refine ⟨datagram :: front, back, rfl, ?_, ?_, ?_, remaining⟩
  · rw [looped]
    exact returned
  · have split : pings identifier (datagram :: front) = pong.toList ++ pings identifier front := by
      rw [← answered, ← pings_append, List.singleton_append]
    rw [looped, split]
    exact congrArg (pong.toList ++ ·) pongs
  · rw [looped]
    exact reads

theorem receive_infinite {identifier : α → ι} {datagrams : List (Datagram α)}
    (wellFormed : ∀ datagram ∈ datagrams, WellFormed datagram)
    {sigsel : List UInt32} {expected : Option ι} {first : LinxReceivedMessage ι}
    {more : List (LinxReceivedMessage ι)}
    (wanted : (messages identifier datagrams).filter (matchesFilter sigsel expected) =
      first :: more) {passes : List (Pass ι)} (reads : Reads identifier passes datagrams)
    (created : Int) :
    Serves identifier sigsel expected datagrams
      (receive infiniteTimeout sigsel expected created passes) first more := by
  induction datagrams generalizing passes with
  | nil => cases wanted
  | cons datagram rest ih =>
      rw [List.forall_mem_cons] at wellFormed
      obtain ⟨pass, unread, rfl, here, later⟩ := reads_cons reads
      rcases receiveBody_head identifier wellFormed.1 sigsel expected rest with
        ⟨pong, goes, answered, same⟩ | ⟨container, finishes, answered, split⟩
      · rw [← here] at goes
        rw [same] at wanted
        exact .goOn goes answered (ih wellFormed.2 wanted later)
      · rw [← here] at finishes
        rw [split] at wanted
        obtain ⟨rfl, remaining⟩ := List.cons.inj wanted
        refine ⟨[datagram], rest, rfl, ?_, ?_, ?_, remaining⟩
        · rw [receive, receiveLoop_finish _ finishes]
        · rw [receive, receiveLoop_finish _ finishes, answered]
        · rw [receive, receiveLoop_finish _ finishes]
          exact later

theorem receive_infinite_waits {identifier : α → ι} {datagrams : List (Datagram α)}
    (wellFormed : ∀ datagram ∈ datagrams, WellFormed datagram)
    {sigsel : List UInt32} {expected : Option ι}
    (unwanted : (messages identifier datagrams).filter (matchesFilter sigsel expected) = [])
    {passes : List (Pass ι)} (reads : Reads identifier passes datagrams) (created : Int) :
    (receive infiniteTimeout sigsel expected created passes).status = .waiting ∧
      (receive infiniteTimeout sigsel expected created passes).pongs =
        pings identifier datagrams ∧
      (receive infiniteTimeout sigsel expected created passes).unread = [] := by
  induction datagrams generalizing passes with
  | nil =>
      cases passes with
      | nil => exact ⟨rfl, rfl, rfl⟩
      | cons pass unread => cases reads
  | cons datagram rest ih =>
      rw [List.forall_mem_cons] at wellFormed
      obtain ⟨pass, unread, rfl, here, later⟩ := reads_cons reads
      rcases receiveBody_head identifier wellFormed.1 sigsel expected rest with
        ⟨pong, goes, asked, same⟩ | ⟨container, -, -, split⟩
      · rw [← here] at goes
        rw [same] at unwanted
        obtain ⟨waiting, answered, nothing⟩ := ih wellFormed.2 unwanted later
        have looped : receive infiniteTimeout sigsel expected created (pass :: unread) = _ :=
          receiveLoop_goOn goes unread
        have pongs := pings_append identifier [datagram] rest
        rw [List.singleton_append, asked] at pongs
        rw [looped, pongs]
        exact ⟨waiting, congrArg (pong.toList ++ ·) answered, nothing⟩
      · rw [split] at unwanted
        cases unwanted

/-- As many calls as there are clock readings, each waiting for ever: they all
return, and together they hand over the first messages that pass the filter. -/
theorem receives_infinite {identifier : α → ι} {sigsel : List UInt32} {expected : Option ι}
    (clocks : List Int) {datagrams : List (Datagram α)}
    (wellFormed : ∀ datagram ∈ datagrams, WellFormed datagram)
    (enough : clocks.length ≤
      ((messages identifier datagrams).filter (matchesFilter sigsel expected)).length)
    {passes : List (Pass ι)} (reads : Reads identifier passes datagrams) :
    ∃ front back unread, datagrams = front ++ back ∧ Reads identifier unread back ∧
      receives infiniteTimeout sigsel expected clocks passes =
        some ((((messages identifier datagrams).filter (matchesFilter sigsel expected)).take
          clocks.length).map some, pings identifier front, unread) := by
  induction clocks generalizing datagrams passes with
  | nil => exact ⟨[], datagrams, passes, rfl, reads, rfl⟩
  | cons created rest ih =>
      cases wanted : (messages identifier datagrams).filter (matchesFilter sigsel expected) with
      | nil =>
          rw [wanted] at enough
          cases enough
      | cons first more =>
          rw [wanted] at enough
          obtain ⟨front, back, rfl, returned, pongs, left, rfl⟩ :=
            receive_infinite wellFormed wanted reads created
          rw [List.forall_mem_append] at wellFormed
          obtain ⟨middle, last, unread, rfl, readsLast, others⟩ :=
            ih wellFormed.2 (Nat.le_of_succ_le_succ enough) left
          refine ⟨front ++ middle, last, unread, (List.append_assoc ..).symm, readsLast, ?_⟩
          simp only [receives, returned, others, pongs, pings_append, List.length_cons,
            List.take_succ_cons, List.map_cons]

end GenericSimpleServer

end LinxIpc.Server
