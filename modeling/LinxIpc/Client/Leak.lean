import LinxIpc.Client.Connect

/-!
Responses to pings among the messages of the application.

A call with `LINX_ANY_SIG` takes whatever message it reads first, so it keeps
the ping protocol to itself only if that message cannot be a response that an
earlier `connect` has left over.
-/

namespace LinxIpc.Client

variable {ι : Type}

/-- The first message a call would read is no response to a ping: one that is
unread already, or whatever comes first when no ping is left to be answered. -/
def Clean (s : Link) : Prop :=
  match s.toClient with
  | packet :: _ => packet.message.reqId ≠ ipcPingRsp
  | [] => Fresh s

/-- What a call of `receive` or `sendReceive` with `LINX_ANY_SIG` sends before it
waits; a `sendReceive` that fails to send does not wait. -/
def Action.anySig? : Action → Option (Option RawMessage)
  | .receive _ _ [] => some none
  | .sendReceive msg true _ _ [] => some (some msg)
  | _ => none

def CallsClean (s : Link) (sending : Option RawMessage) : Prop :=
  Clean s ∧
    (s.toClient = [] → s.worker ≠ .stopped → ∀ msg ∈ sending, msg.reqId ≠ ipcPingReq)

namespace Link

theorem clean_of_unread {s next : Link} {added : List Packet} (clean : Clean s)
    (unread : s.toClient ≠ []) (grown : next.toClient = s.toClient ++ added) : Clean next := by
  unfold Clean at clean ⊢
  rw [grown]
  cases atClient : s.toClient with
  | nil => exact absurd atClient unread
  | cons packet rest =>
      rw [atClient] at clean
      exact clean

theorem clean_empty {s : Link} (empty : s.toClient = []) : Clean s ↔ Fresh s := by
  rw [Clean, empty]

/-! ### The steps of the server -/

variable [BEq ι]

theorem server_step {names : Names ι} {s next : Link} {action : Action} {events : List Event}
    (side : action.ofServer = true) (stepped : s.step names action = some (next, events)) :
    next.client = s.client ∧ next.calls = s.calls ∧ ∀ call msg, .returned call msg ∉ events := by
  cases server_cases side stepped with
  | served | passed | answered | responded | stopped => exact ⟨rfl, rfl, by simp⟩

theorem server_keeps_clean {names : Names ι} {s next : Link} {action : Action}
    {events : List Event} (side : action.ofServer = true)
    (stepped : s.step names action = some (next, events)) (clean : Clean s) : Clean next := by
  have did := server_cases side stepped
  by_cases empty : s.toClient = []
  · have fresh := (clean_empty empty).mp clean
    cases did with
    | served receiving atHead request =>
        have requests := fresh.requests (by rw [receiving]; exact Worker.noConfusion)
        rw [atHead, List.forall_mem_cons] at requests
        exact absurd request requests.1
    | @passed packet rest receiving atHead other =>
        have requests := fresh.requests (by rw [receiving]; exact Worker.noConfusion)
        rw [atHead, List.forall_mem_cons] at requests
        exact (@clean_empty { s with toServer := rest } empty).mpr
          ⟨fresh.responses, fresh.answering, fun _ => requests.2⟩
    | @answered call answering => exact (fresh.answering call answering).elim
    | responded running other =>
        simp only [Clean, empty, List.nil_append]
        exact other
    | stopped =>
        refine (@clean_empty { s with worker := .stopped } empty).mpr
          ⟨fresh.responses, ?_, fun running => absurd rfl running⟩
        intro call answering
        cases answering
  · cases did with
    | served | passed | stopped =>
        exact clean_of_unread clean empty (List.append_nil _).symm
    | answered | responded => exact clean_of_unread clean empty rfl

/-! ### The steps of the client -/

theorem taken_returned {names : Names ι} {s : Link} {packet : Packet} {later : Int}
    {client : Point} {events : List Event} {call : Nat} {msg : RawMessage}
    (took : s.taken names packet later = some (client, events))
    (said : .returned call (some msg) ∈ events) :
    (names.server == names.identifier) = true ∧ s.client ≠ .idle ∧ call = s.calls ∧
      msg = packet.message := by
  unfold taken at took
  cases atClient : s.client with
  | receiving deadline sigsel =>
      simp only [atClient, receiveBody_delivered] at took
      by_cases matched : matchesFilter sigsel (some names.identifier)
          { message := packet.message, sender := some names.server } = true
      · simp only [if_pos matched] at took
        cases took
        cases List.mem_singleton.mp said
        exact ⟨(Bool.and_eq_true_iff.mp matched).1, nofun, rfl, rfl⟩
      · simp only [if_neg matched] at took
        split at took <;> cases took <;> simp at said
  | awaiting deadline wait =>
      simp only [atClient, receiveBody_delivered] at took
      by_cases matched : matchesFilter [ipcPingRsp] (some names.identifier)
          { message := packet.message, sender := some names.server } = true
      · simp only [if_pos matched] at took
        cases took
        simp at said
      · simp only [if_neg matched] at took
        split at took <;> cases took <;> cases said
  | idle | pinging | checking => simp only [atClient, reduceCtorEq] at took

theorem step_returned {names : Names ι} {s next : Link} {action : Action} {events : List Event}
    {call : Nat} {msg : RawMessage} (stepped : s.step names action = some (next, events))
    (said : .returned call (some msg) ∈ events) :
    (names.server == names.identifier) = true ∧ s.client ≠ .idle ∧ call = s.calls ∧
      ∃ packet rest, s.toClient = packet :: rest ∧ msg = packet.message := by
  by_cases side : action.ofServer = true
  · exact absurd said ((server_step side stepped).2.2 call (some msg))
  cases action with
  | serve | answer | respond | stop => exact absurd rfl side
  | connect | send | receive =>
      simp only [step] at stepped
      split at stepped <;> cases stepped
      cases said
  | sendReceive | ping | giveUp | check =>
      simp only [step] at stepped
      split at stepped <;> (try split at stepped) <;> cases stepped <;> simp at said
  | take later =>
      simp only [step] at stepped
      cases atHead : s.toClient with
      | nil => simp only [atHead, reduceCtorEq] at stepped
      | cons packet rest =>
          simp only [atHead] at stepped
          split at stepped
          · cases stepped
          · rename_i client emitted took
            cases stepped
            obtain ⟨named, busy, current, same⟩ := taken_returned took said
            exact ⟨named, busy, current, packet, rest, rfl, same⟩

theorem idle_step {names : Names ι} {s next : Link} {action : Action} {events : List Event}
    (idle : s.client = .idle) (stepped : s.step names action = some (next, events)) :
    (next.client = .idle ∧ next.calls = s.calls) ∨ next.calls = s.calls + 1 := by
  by_cases side : action.ofServer = true
  · obtain ⟨client, calls, -⟩ := server_step side stepped
    exact .inl ⟨client.trans idle, calls⟩
  cases action with
  | serve | answer | respond | stop => exact absurd rfl side
  | connect | send | receive =>
      simp only [step, idle] at stepped
      cases stepped
      exact .inr rfl
  | sendReceive msg sent =>
      simp only [step, idle] at stepped
      split at stepped <;> cases stepped <;> exact .inr rfl
  | ping | giveUp | check =>
      simp only [step, idle, reduceCtorEq] at stepped
  | take later =>
      simp only [step, taken, idle] at stepped
      split at stepped <;> cases stepped

theorem matches_any {names : Names ι} (named : (names.server == names.identifier) = true)
    (msg : RawMessage) :
    matchesFilter [] (some names.identifier)
      { message := msg, sender := some names.server } = true := by
  simp only [matchesFilter, matchesFrom, named, Bool.true_and, matchesSignalSelector_iff,
    true_or]

theorem waiting_step {names : Names ι} (named : (names.server == names.identifier) = true)
    {s next : Link} {action : Action} {events : List Event} {deadline : Deadline}
    (waiting : s.client = .receiving deadline [])
    (stepped : s.step names action = some (next, events)) :
    next.client = .idle ∨ action.ofServer = true := by
  cases action with
  | serve | answer | respond | stop => exact .inr rfl
  | connect | send | receive | sendReceive | ping | check =>
      simp only [step, waiting, reduceCtorEq] at stepped
  | giveUp =>
      simp only [step, waiting] at stepped
      cases stepped
      exact .inl rfl
  | take later =>
      simp only [step, taken, waiting, receiveBody_delivered, matches_any named, if_true]
        at stepped
      split at stepped <;> cases stepped
      exact .inl rfl

/-! ### Calls that begin clean -/

theorem clean_begin {s : Link} {client : Point} {sending : Option RawMessage} :
    Clean (s.begin client sending) ↔ CallsClean s sending := by
  by_cases empty : s.toClient = []
  · rw [CallsClean, clean_empty empty, @clean_empty (s.begin client sending) empty]
    constructor
    · intro fresh
      refine ⟨⟨fresh.responses, fresh.answering, ?_⟩, ?_⟩
      · intro running packet member
        exact fresh.requests running packet (List.mem_append_left _ member)
      · intro _ running msg isSent request
        have sent : { call := s.calls + 1, message := msg } ∈ (s.begin client sending).toServer :=
          List.mem_append_right _ (List.mem_map.mpr ⟨msg, Option.mem_toList.mpr isSent, rfl⟩)
        exact fresh.requests running _ sent request
    · rintro ⟨fresh, other⟩
      refine ⟨fresh.responses, fresh.answering, ?_⟩
      intro running packet member request
      rcases List.mem_append.mp member with older | own
      · exact fresh.requests running packet older request
      · obtain ⟨msg, isSent, rfl⟩ := List.mem_map.mp own
        exact other empty running msg (Option.mem_toList.mp isSent) request
  · constructor
    · intro clean
      refine ⟨?_, fun read => absurd read empty⟩
      exact clean_of_unread (s := s.begin client sending) clean empty (List.append_nil _).symm
    · rintro ⟨clean, -⟩
      exact clean_of_unread clean empty (List.append_nil _).symm

structure Guarded (call : Nat) (s : Link) (events : List Event) : Prop where
  begun : call ≤ s.calls
  safe : s.calls = call →
    s.client = .idle ∨ ∃ deadline, s.client = .receiving deadline [] ∧ Clean s
  told : ∀ msg, .returned call (some msg) ∈ events → msg.reqId ≠ ipcPingRsp

theorem Guarded.step {names : Names ι} (named : (names.server == names.identifier) = true)
    {call : Nat} {s next : Link} {action : Action} {events emitted : List Event}
    (guarded : Guarded call s events) (stepped : s.step names action = some (next, emitted)) :
    Guarded call next (events ++ emitted) := by
  have onwards := (did_calls (step_cases stepped)).1
  constructor
  · exact Nat.le_trans guarded.begun onwards
  · intro same
    have current : s.calls = call := Nat.le_antisymm (same ▸ onwards) guarded.begun
    rcases guarded.safe current with idle | ⟨deadline, waiting, clean⟩
    · rcases idle_step idle stepped with ⟨still, -⟩ | another
      · exact .inl still
      · omega
    · rcases waiting_step named waiting stepped with ended | side
      · exact .inl ended
      · have stays := (server_step side stepped).1
        exact .inr ⟨deadline, stays.trans waiting, server_keeps_clean side stepped clean⟩
  · intro msg said
    rcases List.mem_append.mp said with before | now
    · exact guarded.told msg before
    · obtain ⟨-, busy, current, packet, rest, atHead, rfl⟩ := step_returned stepped now
      rcases guarded.safe current.symm with idle | ⟨deadline, waiting, clean⟩
      · exact absurd idle busy
      · unfold Clean at clean
        rw [atHead] at clean
        exact clean

theorem anySig_begins {names : Names ι} {s next : Link} {action : Action}
    {sending : Option RawMessage} {emitted : List Event}
    (anySig : action.anySig? = some sending)
    (stepped : s.step names action = some (next, emitted)) :
    ∃ deadline, next = s.begin (.receiving deadline []) sending ∧ emitted = [] := by
  cases action with
  | receive now timeoutMs sigsel =>
      cases sigsel <;> cases anySig
      simp only [step] at stepped
      split at stepped <;> cases stepped
      exact ⟨_, rfl, rfl⟩
  | sendReceive msg sent now timeoutMs sigsel =>
      cases sent <;> cases sigsel <;> cases anySig
      simp only [step, if_true] at stepped
      split at stepped <;> cases stepped
      exact ⟨_, rfl, rfl⟩
  | connect | send | ping | take | giveUp | check | serve | answer | respond | stop => cases anySig

theorem idle_begins {names : Names ι} {s : Link} {action : Action} {sending : Option RawMessage}
    (anySig : action.anySig? = some sending) (idle : s.client = .idle) :
    ∃ deadline, (machine names).step s action =
      some (s.begin (.receiving deadline []) sending, []) := by
  cases action with
  | receive now timeoutMs sigsel =>
      cases sigsel <;> cases anySig
      simp only [machine, step, idle]
      exact ⟨_, rfl⟩
  | sendReceive msg sent now timeoutMs sigsel =>
      cases sent <;> cases sigsel <;> cases anySig
      simp only [machine, step, idle, if_true]
      exact ⟨_, rfl⟩
  | connect | send | ping | take | giveUp | check | serve | answer | respond | stop => cases anySig

theorem clean_call_hides {names : Names ι} (named : (names.server == names.identifier) = true)
    {s last : Link} {action : Action} {sending : Option RawMessage} {after : List Action}
    {events : List Event} (anySig : action.anySig? = some sending) (clean : CallsClean s sending)
    (ran : (machine names).run s (action :: after) = some (last, events)) {msg : RawMessage}
    (said : .returned (s.calls + 1) (some msg) ∈ events) : msg.reqId ≠ ipcPingRsp := by
  obtain ⟨first, emitted, later, stepped, ranLater, rfl⟩ := (machine names).run_cons_inv ran
  obtain ⟨deadline, rfl, rfl⟩ := anySig_begins anySig stepped
  have start : Guarded (s.calls + 1) (s.begin (.receiving deadline []) sending) [] :=
    ⟨Nat.le_refl _, fun _ => .inr ⟨deadline, rfl, clean_begin.mpr clean⟩, nofun⟩
  have guarded : Guarded (s.calls + 1) last later := by
    refine (machine names).run_invariant
      (motive := fun _ events s' => Guarded (s.calls + 1) s' events) start ?_ ranLater
    intro _ _ _ _ _ _ _ guarded stepped
    exact guarded.step named stepped
  exact guarded.told msg said

/-! ### Calls that do not -/

/-- From here the call can return a response to a ping. -/
def Leaks (names : Names ι) (s : Link) (call : Nat) : Prop :=
  ∃ actions last events msg, (machine names).run s actions = some (last, events) ∧
    .returned call (some msg) ∈ events ∧ msg.reqId = ipcPingRsp

theorem Leaks.after {names : Names ι} {s middle : Link} {actions : List Action}
    {events : List Event} {call : Nat} (leaks : Leaks names middle call)
    (ran : (machine names).run s actions = some (middle, events)) : Leaks names s call := by
  obtain ⟨later, last, more, msg, ranLater, said, response⟩ := leaks
  exact ⟨actions ++ later, last, events ++ more, msg, (machine names).run_append ran ranLater,
    List.mem_append_right _ said, response⟩

theorem unread_leaks {names : Names ι} (named : (names.server == names.identifier) = true)
    {s : Link} {deadline : Deadline} {packet : Packet} {rest : List Packet}
    (waiting : s.client = .receiving deadline []) (atHead : s.toClient = packet :: rest)
    (response : packet.message.reqId = ipcPingRsp) : Leaks names s s.calls := by
  have stepped : (machine names).step s (.take 0) =
      some ({ s with client := .idle, toClient := rest },
        [.returned s.calls (some packet.message)]) := by
    simp only [machine, step, atHead, taken, waiting, receiveBody_delivered, matches_any named,
      if_true]
  exact ⟨[.take 0], _, _, packet.message, (machine names).run_single stepped,
    List.mem_singleton_self _, response⟩

theorem answering_leaks {names : Names ι} (named : (names.server == names.identifier) = true)
    {s : Link} {deadline : Deadline} {call : Nat} (waiting : s.client = .receiving deadline [])
    (empty : s.toClient = []) (answering : s.worker = .answering call) :
    Leaks names s s.calls := by
  have stepped : (machine names).step s .answer =
      some ({ s with
        worker := .receiving
        toClient := [{ call := call, message := { reqId := ipcPingRsp, payload := [] } }] },
        [.answered call]) := by
    simp only [machine, step, answering, empty, List.nil_append]
  have leaks := unread_leaks named (s := { s with
    worker := .receiving
    toClient := [{ call := call, message := { reqId := ipcPingRsp, payload := [] } }] })
    waiting rfl rfl
  exact leaks.after ((machine names).run_single stepped)

theorem waiting_leaks {names : Names ι} (named : (names.server == names.identifier) = true)
    {s : Link} {deadline : Deadline} (waiting : s.client = .receiving deadline [])
    (unclean : ¬ Clean s) : Leaks names s s.calls := by
  cases atClient : s.toClient with
  | cons packet rest =>
      unfold Clean at unclean
      rw [atClient] at unclean
      exact unread_leaks named waiting atClient (not_not.mp unclean)
  | nil =>
      rw [clean_empty atClient] at unclean
      rcases stale_cases unclean with ⟨packet, member, -⟩ | ⟨call, atWorker⟩ | ⟨atWorker, old⟩
      · rw [atClient] at member
        cases member
      · exact answering_leaks named waiting atClient atWorker
      · -- the worker first takes that ping
        obtain ⟨serving, rest, packet, ranServing, -⟩ :=
          @serves_request _ _ names _ s rfl atWorker old
        have leaks := answering_leaks named
          (s := { s with toServer := rest, worker := .answering packet.call })
          waiting atClient rfl
        exact leaks.after ranServing

/-! ### Runs -/

theorem run_returned {names : Names ι} {actions : List Action} {s : Link} {events : List Event}
    (ran : (machine names).run initial actions = some (s, events)) {call : Nat}
    {msg : RawMessage} (said : .returned call (some msg) ∈ events) :
    call ≤ s.calls ∧ (names.server == names.identifier) = true := by
  refine (machine names).run_invariant
    (motive := fun _ events s' => .returned call (some msg) ∈ events →
      call ≤ s'.calls ∧ (names.server == names.identifier) = true) nofun ?_ ran said
  intro _ events state action next emitted _ known stepped member
  have onwards : state.calls ≤ next.calls := (did_calls (step_cases stepped)).1
  rcases List.mem_append.mp member with before | now
  · obtain ⟨begun, named⟩ := known before
    exact ⟨Nat.le_trans begun onwards, named⟩
  · obtain ⟨named, -, rfl, -⟩ := step_returned stepped now
    exact ⟨onwards, named⟩

def AnySigCall (names : Names ι) (actions : List Action) (call : Nat) : Prop :=
  ∃ front action back s events, actions = front ++ action :: back ∧
    action.anySig?.isSome = true ∧ (machine names).run initial front = some (s, events) ∧
    call = s.calls + 1

def HidesPings (names : Names ι) (actions : List Action) (events : List Event) : Prop :=
  ∀ call msg, AnySigCall names actions call → .returned call (some msg) ∈ events →
    msg.reqId ≠ ipcPingRsp

def BeginsClean (s : Link) (action : Action) : Prop :=
  ∀ sending, action.anySig? = some sending → CallsClean s sending

theorem clean_run_hides {names : Names ι} {actions : List Action} {s : Link}
    {events : List Event}
    (ran : (machine names).run initial actions = some (s, events))
    (clean : (machine names).Along BeginsClean initial actions) :
    HidesPings names actions events := by
  rintro call msg ⟨front, action, back, middle, before, rfl, isAnySig, ranFront, rfl⟩ said
  obtain ⟨sending, anySig⟩ := Option.isSome_iff_exists.mp isAnySig
  have named := (run_returned ran said).2
  obtain ⟨_, _, after, ranFront', ranBack, rfl⟩ := (machine names).run_append_inv ran
  rw [ranFront] at ranFront'
  cases ranFront'
  rcases List.mem_append.mp said with earlier | now
  · -- the call had not begun
    have known := (run_returned ranFront earlier).1
    omega
  · exact clean_call_hides named anySig (clean.reached ranFront sending anySig) ranBack now

/-- In a run whose calls with `LINX_ANY_SIG` all begin clean, none of them returns a
response to a ping.  For each such call on its own server, at any point of any run,
this is exact: the call returns no response in any continuation if and only if it
begins clean. -/
theorem any_sig_hides_pings_iff {names : Names ι} {before : List Action} {s : Link}
    {earlier : List Event} (ran : (machine names).run initial before = some (s, earlier)) :
    ((machine names).Along BeginsClean initial before → HidesPings names before earlier) ∧
      ((names.server == names.identifier) = true →
        ∀ action sending, action.anySig? = some sending → s.client = .idle →
          ((∀ after last events,
              (machine names).run s (action :: after) = some (last, events) →
              ∀ msg, .returned (s.calls + 1) (some msg) ∈ events → msg.reqId ≠ ipcPingRsp) ↔
            CallsClean s sending)) := by
  refine ⟨clean_run_hides ran, ?_⟩
  intro named action sending anySig idle
  constructor
  · intro hides
    by_contra unclean
    obtain ⟨deadline, stepped⟩ := @idle_begins _ _ names _ _ _ anySig idle
    have waiting : (s.begin (.receiving deadline []) sending).client = .receiving deadline [] := rfl
    obtain ⟨after, last, events, msg, ranAfter, said, response⟩ :=
      waiting_leaks named waiting (fun clean => unclean (clean_begin.mp clean))
    exact hides after last _ ((machine names).run_cons_some stepped ranAfter) msg said response
  · intro clean after last events ranAfter msg said
    exact clean_call_hides named anySig clean ranAfter said

theorem any_sig_hides_pings_iff_response :
    ∃ (s : Link) (events : List Event),
      (machine (⟨1, 1, 2⟩ : Names Nat)).run initial
        [.connect 0 1000, .ping true 0, .serve, .answer, .take 50000000, .send ⟨7, []⟩ true,
          .receive 60000000 5000 [], .serve, .respond ⟨9, []⟩, .take 70000000] = some (s, events) ∧
      .returned 3 (some ⟨9, []⟩) ∈ events ∧
      HidesPings (⟨1, 1, 2⟩ : Names Nat)
        [.connect 0 1000, .ping true 0, .serve, .answer, .take 50000000, .send ⟨7, []⟩ true,
          .receive 60000000 5000 [], .serve, .respond ⟨9, []⟩, .take 70000000] events ∧
      ∀ after last later,
        (machine (⟨1, 1, 2⟩ : Names Nat)).run s
            (.sendReceive ⟨8, []⟩ true 80000000 5000 [] :: after) = some (last, later) →
        ∀ msg, .returned (s.calls + 1) (some msg) ∈ later → msg.reqId ≠ ipcPingRsp := by
  have ran : (machine (⟨1, 1, 2⟩ : Names Nat)).run initial
    [.connect 0 1000, .ping true 0, .serve, .answer, .take 50000000, .send ⟨7, []⟩ true,
      .receive 60000000 5000 [], .serve, .respond ⟨9, []⟩, .take 70000000] = some (_, _) := rfl
  refine ⟨_, _, ran, by decide, (any_sig_hides_pings_iff ran).1 ?_,
    ((any_sig_hides_pings_iff ran).2 rfl _ (some ⟨8, []⟩) rfl rfl).mpr ?_⟩
  · iterate 6 refine .cons nofun rfl ?_
    refine .cons ?_ rfl ?_
    · -- the request is still on its way, and no ping is
      rintro _ ⟨⟩
      refine ⟨⟨nofun, nofun, ?_⟩, fun _ _ => nofun⟩
      intro _ packet member
      cases List.mem_singleton.mp member
      decide
    iterate 3 refine .cons nofun rfl ?_
    trivial
  · refine ⟨⟨nofun, nofun, fun _ => nofun⟩, ?_⟩
    rintro _ _ _ ⟨⟩
    decide

/-- The first response comes when a second ping is already sent.  `connect` returns
true, the request goes out, and the call that waits for the reply returns the
response to the second ping. -/
theorem slow_response_leaks :
    ∃ (s : Link) (events : List Event),
      (machine (⟨1, 1, 2⟩ : Names Nat)).run initial
        [.connect 0 5000, .ping true 0, .giveUp, .check 100000000, .ping true 100000000,
          .serve, .answer, .serve, .answer, .take 100000001, .send ⟨7, []⟩ true,
          .receive 100000002 5000 [], .take 100000003] = some (s, events) ∧
      .connected 1 ∈ events ∧ .returned 3 (some ⟨ipcPingRsp, []⟩) ∈ events ∧
      ¬ HidesPings (⟨1, 1, 2⟩ : Names Nat)
        [.connect 0 5000, .ping true 0, .giveUp, .check 100000000, .ping true 100000000,
          .serve, .answer, .serve, .answer, .take 100000001, .send ⟨7, []⟩ true,
          .receive 100000002 5000 [], .take 100000003] events := by
  refine ⟨_, _, rfl, by decide, by decide, ?_⟩
  intro hides
  refine hides 3 ⟨ipcPingRsp, []⟩ ⟨[.connect 0 5000, .ping true 0, .giveUp, .check 100000000,
    .ping true 100000000, .serve, .answer, .serve, .answer, .take 100000001, .send ⟨7, []⟩ true],
    .receive 100000002 5000 [], [.take 100000003], _, _, rfl, rfl, rfl, rfl⟩ ?_ rfl
  decide

end Link

end LinxIpc.Client
