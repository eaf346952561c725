import LinxIpc.Receiving.Consumption
import LinxIpc.Socket.Slots

/-!
The three loops that call `receive`, with the variables they pass to it.

`GenericServer::task` declares its variables inside the loop; the other two
declare theirs before it, so a pass meets what an earlier one left there.
-/

namespace LinxIpc

variable {α β ι : Type}

structure SlotPass (α : Type) where
  now : Int
  fd : Int
  kernel : Kernel α
  later : Int

def SlotPass.pass (identifier : α → ι) (pass : SlotPass α) : Pass ι :=
  { now := pass.now
    received := (socketReceive identifier pass.fd 0).answered pass.kernel
    later := pass.later }

/-! ### The source -/

/-- The remaining time goes to `poll`, whose answer is given: it does not show here. -/
def slotLoop (identifier? : α → Option ι) (body : Int → Slots ι → Verdict β ι)
    (deadline : Deadline) : Slots ι → List (SlotPass α) → LoopStatus β × List ι
  | _, [] => (.waiting, [])
  | slots, pass :: unread =>
      match receiveInto identifier? pass.fd .both pass.kernel slots with
      -- the read past the address structure
      | none => (.undefined, [])
      | some (ret, slots) =>
          match body ret slots with
          | .finish msg => (.returned msg, [])
          | .undefined => (.undefined, [])
          | .goOn pong =>
              if deadline.isExpired pass.later then (.returned none, pong.toList)
              else
                let more := slotLoop identifier? body deadline slots unread
                (more.1, pong.toList ++ more.2)

section Bodies

variable [BEq ι]

/-- `matchesFrom` takes null for the sender; `matchesSignalSelector` reads the message. -/
def Client.slotBody (identifier : ι) (sigsel : List UInt32) (ret : Int) (slots : Slots ι) :
    Verdict RawMessage ι :=
  if ret = 0 then .finish none
  else if ret < 0 then .finish none
  else if matchesFrom slots.sender (some identifier) then
    match slots.msg with
    | none => .undefined
    | some msg => if matchesSignalSelector msg sigsel then .finish (some msg) else .goOn none
  else .goOn none

def Server.GenericSimpleServer.slotBody (sigsel : List UInt32) (expected : Option ι) (ret : Int)
    (slots : Slots ι) : Verdict (LinxReceivedMessage ι) ι :=
  if ret = 0 then .finish none
  else if ret < 0 then .finish none
  else
    match slots.msg with
    | none => .undefined
    | some msg =>
        if msg.reqId = ipcPingReq then
          match slots.sender with
          | none => .undefined
          | some sender => .goOn (some sender)
        else if matchesFrom slots.sender expected && matchesSignalSelector msg sigsel then
          .finish (some { message := msg, sender := slots.sender })
        else .goOn none

end Bodies

/-- The container takes what the variables hold.  If the queue refuses it, its
sender is dereferenced for the log. -/
def Server.slotTurn (ret : Int) (slots : Slots ι) : Option (Turn ι) :=
  if ret = 0 then some .leave
  else if ret < 0 then some .leave
  else
    match slots.msg with
    | none => none
    | some msg =>
        if msg.reqId = ipcPingReq then
          match slots.sender with
          | none => none
          | some sender => some (.answer sender)
        else some (.offer { message := msg, sender := slots.sender })

/-! ### The variables hold what was received -/

def ReadsStored (slotBody : Int → Slots ι → Verdict β ι) (body : Received ι → Verdict β ι) : Prop :=
  ∀ received : Received ι, received.Sound → ∀ slots,
    slotBody received.result (received.storeIn slots) = body received

theorem answered_sound (identifier : α → ι) (fd timeoutMs : Int) (kernel : Kernel α) :
    ((socketReceive identifier fd timeoutMs).answered kernel).Sound := by
  rcases receiveInto_cases (fun address => some (identifier address)) identifier fd kernel with
    ⟨bytes, address, msg, -, -, -, answered, -⟩ | ⟨code, notPositive, -, answered, -⟩
  · rw [answered]
    exact fun _ => rfl
  · rw [answered]
    intro positive
    exact absurd positive (Int.not_lt.mpr notPositive)

/-- Every receive that the loop comes to takes its datagram from such an address. -/
def ReportsOn (identifier : α → ι) (kind : α → Prop) (body : Received ι → Verdict β ι)
    (deadline : Deadline) : List (SlotPass α) → Prop
  | [] => True
  | pass :: rest =>
      pass.kernel.Reports pass.fd kind ∧
        (Continues body deadline (pass.pass identifier) →
          ReportsOn identifier kind body deadline rest)

section Loops

variable {identifier? : α → Option ι} {identifier : α → ι} {kind : α → Prop}
  {slotBody : Int → Slots ι → Verdict β ι} {body : Received ι → Verdict β ι}

theorem slotLoop_cons (decodes : Decodes identifier? identifier kind)
    (reads : ReadsStored slotBody body) (deadline : Deadline) (slots : Slots ι)
    {pass : SlotPass α} (reports : pass.kernel.Reports pass.fd kind)
    (unread : List (SlotPass α)) :
    slotLoop identifier? slotBody deadline slots (pass :: unread) =
      match body (pass.pass identifier).received with
      | .finish msg => (.returned msg, [])
      | .undefined => (.undefined, [])
      | .goOn pong =>
          if deadline.isExpired pass.later then (.returned none, pong.toList)
          else
            ((slotLoop identifier? slotBody deadline
                ((pass.pass identifier).received.storeIn slots) unread).1,
              pong.toList ++ (slotLoop identifier? slotBody deadline
                ((pass.pass identifier).received.storeIn slots) unread).2) := by
  have verdict := reads _ (answered_sound identifier pass.fd 0 pass.kernel) slots
  have stored := receiveInto_eq_answered decodes reports 0 slots
  simp only [slotLoop, stored, verdict, SlotPass.pass]

theorem slotLoop_past (decodes : Decodes identifier? identifier kind)
    (deadline : Deadline) (slots : Slots ι) {pass : SlotPass α}
    (past : ¬ pass.kernel.Reports pass.fd kind) (unread : List (SlotPass α)) :
    slotLoop identifier? slotBody deadline slots (pass :: unread) = (.undefined, []) := by
  simp only [slotLoop, receiveInto_past decodes past]

theorem slotLoop_eq (decodes : Decodes identifier? identifier kind)
    (reads : ReadsStored slotBody body) (deadline : Deadline) (slots : Slots ι)
    {passes : List (SlotPass α)} (reports : ReportsOn identifier kind body deadline passes) :
    slotLoop identifier? slotBody deadline slots passes =
      ((receiveLoop body deadline (passes.map (SlotPass.pass identifier))).status,
        (receiveLoop body deadline (passes.map (SlotPass.pass identifier))).pongs) := by
  induction passes generalizing slots with
  | nil => rfl
  | cons pass rest ih =>
      rw [slotLoop_cons decodes reads deadline slots reports.1, List.map_cons]
      cases answer : body (pass.pass identifier).received with
      | finish msg => rw [receiveLoop_finish deadline answer]
      | undefined => simp only [receiveLoop, answer]
      | goOn pong =>
          cases late : deadline.isExpired pass.later with
          | true =>
              have asked : pong? body (pass.pass identifier) = pong := by rw [pong?, answer]
              rw [receiveLoop_ends (.expired answer late)]
              cases pong <;> simp [LoopRun.after, asked]
          | false =>
              have continues : Continues body deadline (pass.pass identifier) :=
                ⟨⟨pong, answer⟩, late⟩
              have asked : pong? body (pass.pass identifier) = pong := by rw [pong?, answer]
              rw [receiveLoop_cons continues, asked]
              simp only [ih _ (reports.2 continues), Bool.false_eq_true, if_false]

theorem slotLoop_undefined (decodes : Decodes identifier? identifier kind)
    (reads : ReadsStored slotBody body) (deadline : Deadline) (slots : Slots ι)
    {passes : List (SlotPass α)} (past : ¬ ReportsOn identifier kind body deadline passes) :
    (slotLoop identifier? slotBody deadline slots passes).1 = .undefined := by
  induction passes generalizing slots with
  | nil => exact absurd trivial past
  | cons pass rest ih =>
      by_cases reports : pass.kernel.Reports pass.fd kind
      · obtain ⟨⟨⟨pong, goes⟩, early⟩, later⟩ : Continues body deadline (pass.pass identifier) ∧
            ¬ ReportsOn identifier kind body deadline rest := by
          by_contra reached
          exact past ⟨reports, fun continues => by_contra fun later => reached ⟨continues, later⟩⟩
        have onTime : deadline.isExpired pass.later = false := early
        rw [slotLoop_cons decodes reads deadline slots reports]
        simp only [goes, onTime, Bool.false_eq_true, if_false]
        exact ih _ later
      · rw [slotLoop_past decodes deadline slots reports]

end Loops

theorem Client.slotBody_readsStored [BEq ι] (identifier : ι) (sigsel : List UInt32) :
    ReadsStored (Client.slotBody identifier sigsel) (Client.receiveBody identifier sigsel) := by
  intro received sound slots
  rcases sound.cases with failed | ⟨positive, msg, sender, stored⟩
  · simp only [slotBody, receiveBody, ite_result_failed failed]
  · simp only [slotBody, receiveBody, ite_result_positive positive, Received.storeIn, stored,
      matchesFilter, Bool.and_eq_true, ite_and]

theorem Server.GenericSimpleServer.slotBody_readsStored [BEq ι] (sigsel : List UInt32)
    (expected : Option ι) :
    ReadsStored (slotBody sigsel expected) (receiveBody sigsel expected) := by
  intro received sound slots
  rcases sound.cases with failed | ⟨positive, msg, sender, stored⟩
  · simp only [slotBody, receiveBody, ite_result_failed failed]
  · simp only [slotBody, receiveBody, ite_result_positive positive, Received.storeIn, stored,
      matchesFilter]
    rfl

/-! ### Callers of `receive` -/

theorem Server.slotTurn_stored {received : Received ι} (sound : received.Sound)
    (slots : Slots ι) :
    slotTurn received.result (received.storeIn slots) = taskTurn received := by
  rcases sound.cases with failed | ⟨positive, msg, sender, stored⟩
  · simp only [slotTurn, taskTurn, ite_result_failed failed]
  · simp only [slotTurn, taskTurn, ite_result_positive positive, Received.storeIn, stored]

/-- What a loop returns and answers comes whole from one of its datagrams. -/
structure NeverMixes (identifier? : α → Option ι) (wanted : RawMessage → ι → Prop)
    (give : RawMessage → ι → β) (passes : List (SlotPass α)) (run : LoopStatus β × List ι) :
    Prop where
  defined : run.1 ≠ .undefined
  returned : ∀ result, run.1 = .returned (some result) → ∃ pass ∈ passes, ∃ size msg sender,
    pass.kernel.Gave identifier? size msg sender ∧ wanted msg sender ∧ result = give msg sender
  answered : ∀ pong ∈ run.2, ∃ pass ∈ passes, ∃ size msg,
    pass.kernel.Gave identifier? size msg pong ∧ msg.reqId = ipcPingReq

def AnswersPings (body : Received ι → Verdict β ι) : Prop :=
  ∀ pass pong, pong? body pass = some pong → ∃ msg,
    pass.received.stored = some (msg, pong) ∧ msg.reqId = ipcPingReq

section Mixing

variable {identifier? : α → Option ι} {identifier : α → ι} {kind : α → Prop}
  {body : Received ι → Verdict β ι} {wanted : RawMessage → ι → Prop} {give : RawMessage → ι → β}

theorem gave_of_stored (decodes : Decodes identifier? identifier kind) {pass : SlotPass α}
    (reports : pass.kernel.Reports pass.fd kind) {msg : RawMessage} {sender : ι}
    (stored : (pass.pass identifier).received.stored = some (msg, sender)) :
    ∃ size, pass.kernel.Gave identifier? size msg sender := by
  rcases receiveInto_cases identifier? identifier pass.fd pass.kernel with
    ⟨bytes, address, _, opened, took, decoded, answered, -⟩ | ⟨code, -, -, answered, -⟩
  · rw [SlotPass.pass, answered] at stored
    cases stored
    exact ⟨bytes.length, bytes, address, took, rfl, decoded,
      decodes.inside address (reports opened bytes address took)⟩
  · rw [SlotPass.pass, answered] at stored
    cases stored

theorem gave_of_pong (decodes : Decodes identifier? identifier kind) {pass : SlotPass α}
    (reports : pass.kernel.Reports pass.fd kind) (pings : AnswersPings body) {pong : ι}
    (answered : pong? body (pass.pass identifier) = some pong) :
    ∃ size msg, pass.kernel.Gave identifier? size msg pong ∧ msg.reqId = ipcPingReq := by
  obtain ⟨msg, stored, ping⟩ := pings _ pong answered
  obtain ⟨size, gave⟩ := gave_of_stored decodes reports stored
  exact ⟨size, msg, gave, ping⟩

theorem receiveLoop_neverMixes (decodes : Decodes identifier? identifier kind)
    (filters : Filters body wanted give) (pings : AnswersPings body) (deadline : Deadline)
    {passes : List (SlotPass α)} (reports : ReportsOn identifier kind body deadline passes) :
    NeverMixes identifier? wanted give passes
      ((receiveLoop body deadline (passes.map (SlotPass.pass identifier))).status,
        (receiveLoop body deadline (passes.map (SlotPass.pass identifier))).pongs) := by
  induction passes with
  | nil => exact ⟨nofun, nofun, nofun⟩
  | cons pass rest ih =>
      have sound : (pass.pass identifier).received.Sound :=
        answered_sound identifier pass.fd 0 pass.kernel
      rw [List.map_cons]
      rcases continues_or_ends deadline (filters.defined sound) with
        continues | ⟨msg, ends⟩
      · have later := ih (reports.2 continues)
        rw [receiveLoop_cons continues]
        refine ⟨later.defined, fun result same => ?_, fun pong member => ?_⟩
        · obtain ⟨source, inRest, given⟩ := later.returned result same
          exact ⟨source, .tail _ inRest, given⟩
        · rcases List.mem_append.mp member with here | inLater
          · exact ⟨pass, .head _,
              gave_of_pong decodes reports.1 pings (Option.mem_toList.mp here)⟩
          · obtain ⟨source, inRest, given⟩ := later.answered pong inLater
            exact ⟨source, .tail _ inRest, given⟩
      · rw [receiveLoop_ends ends]
        refine ⟨nofun, fun result same => ?_, fun pong member => ?_⟩
        · cases same
          cases filters.ends sound ends with
          | @message msg sender positive holds wants =>
              obtain ⟨size, gave⟩ := gave_of_stored decodes reports.1 holds
              exact ⟨pass, .head _, size, msg, sender, gave, wants, rfl⟩
        · obtain ⟨only, inPass, answered⟩ := List.mem_filterMap.mp member
          rw [List.mem_singleton.mp inPass] at answered
          exact ⟨pass, .head _, gave_of_pong decodes reports.1 pings answered⟩

theorem slotLoop_neverMixes_iff (decodes : Decodes identifier? identifier kind)
    {slotBody : Int → Slots ι → Verdict β ι} (reads : ReadsStored slotBody body)
    (filters : Filters body wanted give) (pings : AnswersPings body) (deadline : Deadline)
    (slots : Slots ι) (passes : List (SlotPass α)) :
    NeverMixes identifier? wanted give passes
        (slotLoop identifier? slotBody deadline slots passes) ↔
      ReportsOn identifier kind body deadline passes := by
  constructor
  · intro whole
    by_contra past
    exact whole.defined (slotLoop_undefined decodes reads deadline slots past)
  · intro reports
    rw [slotLoop_eq decodes reads deadline slots reports]
    exact receiveLoop_neverMixes decodes filters pings deadline reports

end Mixing

theorem Server.GenericSimpleServer.receiveBody_answersPings [BEq ι] (sigsel : List UInt32)
    (expected : Option ι) : AnswersPings (receiveBody sigsel expected) := by
  intro pass pong answered
  rw [pong_receiveBody, pinger?] at answered
  split at answered
  · split at answered
    · rename_i msg sender stored
      split at answered
      · rename_i ping
        cases answered
        exact ⟨msg, stored, ping⟩
      · cases answered
    · cases answered
  · cases answered

theorem Client.receiveBody_answersPings [BEq ι] (identifier : ι) (sigsel : List UInt32) :
    AnswersPings (Client.receiveBody identifier sigsel) := by
  intro pass pong answered
  rw [Client.pong_receiveBody] at answered
  cases answered

/-- One turn of the worker, which begins with empty variables: it leaves, or
treats one datagram whole. -/
def TurnNeverMixes (identifier? : α → Option ι) (fd : Int) (kernel : Kernel α) : Prop :=
  ∃ ret slots turn, receiveInto identifier? fd .both kernel .empty = some (ret, slots) ∧
    Server.slotTurn ret slots = some turn ∧
    (turn = .leave ∨ ∃ size msg sender, kernel.Gave identifier? size msg sender ∧
      turn = if msg.reqId = ipcPingReq then .answer sender
        else .offer { message := msg, sender := some sender })

theorem turn_neverMixes_iff {identifier? : α → Option ι} {identifier : α → ι} {kind : α → Prop}
    (decodes : Decodes identifier? identifier kind) (fd : Int) (kernel : Kernel α) :
    TurnNeverMixes identifier? fd kernel ↔ kernel.Reports fd kind := by
  constructor
  · rintro ⟨ret, slots, turn, gives, -⟩
    by_contra past
    rw [receiveInto_past decodes past] at gives
    cases gives
  · intro reports
    have gives := receiveInto_eq_answered decodes reports 0 .empty
    have turns := Server.slotTurn_stored (answered_sound identifier fd 0 kernel) .empty
    rcases receiveInto_cases identifier? identifier fd kernel with
      ⟨bytes, address, msg, opened, took, decoded, answered, -⟩ |
        ⟨code, notPositive, -, answered, -⟩
    · have inside := decodes.inside address (reports opened bytes address took)
      refine ⟨_, _, if msg.reqId = ipcPingReq then .answer (identifier address)
        else .offer { message := msg, sender := some (identifier address) }, gives,
        turns.trans ?_, .inr ⟨bytes.length, msg, identifier address,
          ⟨bytes, address, took, rfl, decoded, inside⟩, rfl⟩⟩
      rw [answered, Server.taskTurn]
      simp only [ite_result_positive took.positive]
      split <;> rfl
    · refine ⟨_, _, .leave, gives, turns.trans ?_, .inl rfl⟩
      rw [answered, Server.taskTurn]
      exact ite_result_failed notPositive _ _

/-- When a caller dereferences no null pointer, reads inside the address structure, and
pairs no message with the sender of another datagram. -/
structure CallersSafeIff [BEq ι] (identifier? : α → Option ι) (identifier : α → ι)
    (kind : α → Prop) : Prop where
  task : ∀ fd kernel, TurnNeverMixes identifier? fd kernel ↔ kernel.Reports fd kind
  simpleServer : ∀ sigsel expected deadline slots passes,
    NeverMixes identifier? (Server.GenericSimpleServer.Wanted sigsel expected)
        Server.GenericSimpleServer.container passes
        (slotLoop identifier? (Server.GenericSimpleServer.slotBody sigsel expected) deadline slots
          passes) ↔
      ReportsOn identifier kind (Server.GenericSimpleServer.receiveBody sigsel expected) deadline
        passes
  client : ∀ server sigsel deadline slots passes,
    NeverMixes identifier? (Client.Wanted server sigsel) (fun msg _ => msg) passes
        (slotLoop identifier? (Client.slotBody server sigsel) deadline slots passes) ↔
      ReportsOn identifier kind (Client.receiveBody server sigsel) deadline passes

theorem callersSafeIff [BEq ι] {identifier? : α → Option ι} {identifier : α → ι}
    {kind : α → Prop} (decodes : Decodes identifier? identifier kind) :
    CallersSafeIff identifier? identifier kind where
  task := turn_neverMixes_iff decodes
  simpleServer sigsel expected := slotLoop_neverMixes_iff decodes
    (Server.GenericSimpleServer.slotBody_readsStored sigsel expected)
    (Server.GenericSimpleServer.receiveBody_filters sigsel expected)
    (Server.GenericSimpleServer.receiveBody_answersPings sigsel expected)
  client server sigsel := slotLoop_neverMixes_iff decodes
    (Client.slotBody_readsStored server sigsel) (Client.receiveBody_filters server sigsel)
    (Client.receiveBody_answersPings server sigsel)

structure CallersSafe [BEq ι] (identifier? : α → Option ι) : Prop where
  task : ∀ fd kernel, TurnNeverMixes identifier? fd kernel
  simpleServer : ∀ sigsel expected deadline slots passes,
    NeverMixes identifier? (Server.GenericSimpleServer.Wanted sigsel expected)
      Server.GenericSimpleServer.container passes
      (slotLoop identifier? (Server.GenericSimpleServer.slotBody sigsel expected) deadline slots
        passes)
  client : ∀ server sigsel deadline slots passes,
    NeverMixes identifier? (Client.Wanted server sigsel) (fun msg _ => msg) passes
      (slotLoop identifier? (Client.slotBody server sigsel) deadline slots passes)

theorem reportsOn_of_forall {identifier : α → ι} {kind : α → Prop} (all : ∀ address, kind address)
    (body : Received ι → Verdict β ι) (deadline : Deadline) (passes : List (SlotPass α)) :
    ReportsOn identifier kind body deadline passes := by
  induction passes with
  | nil => exact trivial
  | cons pass rest ih => exact ⟨fun _ _ address _ => all address, fun _ => ih⟩

theorem CallersSafeIff.of_forall [BEq ι] {identifier? : α → Option ι} {identifier : α → ι}
    {kind : α → Prop} (exact : CallersSafeIff identifier? identifier kind)
    (all : ∀ address, kind address) : CallersSafe identifier? where
  task fd kernel := (exact.task fd kernel).mpr fun _ _ address _ => all address
  simpleServer sigsel expected deadline slots passes :=
    (exact.simpleServer sigsel expected deadline slots passes).mpr
      (reportsOn_of_forall all _ deadline passes)
  client server sigsel deadline slots passes :=
    (exact.client server sigsel deadline slots passes).mpr
      (reportsOn_of_forall all _ deadline passes)

/-- A UDP socket stores all or nothing, and no caller meets a null pointer or a message
with another datagram's sender.  A Unix socket and its callers do so exactly when the
`sun_path` of every whole datagram has a NUL after its first byte; otherwise the sender
is read past the address structure. -/
theorem sockets_all_or_nothing_iff (fd : Int) (udp : Kernel SockaddrIn)
    (unix : Kernel SockaddrUn) :
    (AllOrNothing (fun address => some (UdpSocket.identifier address)) udp
        (UdpSocket.receiveInto fd .both udp) ∧
      CallersSafe fun address => some (UdpSocket.identifier address)) ∧
      (AllOrNothing AfUnixSocket.identifier? unix (AfUnixSocket.receiveInto fd .both unix) ↔
        unix.Reports fd AfUnixSocket.Terminated) ∧
      CallersSafeIff AfUnixSocket.identifier? AfUnixSocket.identifier AfUnixSocket.Terminated :=
  ⟨⟨(receiveInto_allOrNothing_iff UdpSocket.decodes fd udp).mpr fun _ _ _ _ => trivial,
    (callersSafeIff UdpSocket.decodes).of_forall fun _ => trivial⟩,
    receiveInto_allOrNothing_iff AfUnixSocket.decodes fd unix,
    callersSafeIff AfUnixSocket.decodes⟩

/-- A datagram from a socket that is bound to 107 bytes `a`. -/
def fullName : Kernel SockaddrUn where
  polled := .ready
  available := some 4
  read _ := .received [0, 0, 0, 7] { sunPath := 0 :: List.replicate 107 97 }

theorem full_name_read_past :
    AfUnixSocket.receiveInto 3 .both fullName .empty = none ∧
      ¬ AllOrNothing AfUnixSocket.identifier? fullName
        (AfUnixSocket.receiveInto 3 .both fullName) := by
  have past : AfUnixSocket.receiveInto 3 .both fullName .empty = none := by decide
  refine ⟨past, fun whole => ?_⟩
  have defined := whole.defined .empty
  rw [past] at defined
  cases defined

end LinxIpc
