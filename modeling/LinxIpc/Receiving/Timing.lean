import LinxIpc.Receiving.Consumption

/-!
The receive loops and `connect` against a clock that only `socket->receive`
moves.

A wait of `t` milliseconds ends at most `t` milliseconds later, and a wait
without a limit ends at any time.
-/

namespace LinxIpc

variable {β ι : Type}

open Deadline

/-! ### Remaining times -/

theorem getRemainingTimeMs_nonneg (d now : Int) :
    0 ≤ ({ deadline := some d } : Deadline).getRemainingTimeMs now := by
  simp only [getRemainingTimeMs]
  split
  · exact Int.le_refl 0
  · rename_i early
    exact Int.tdiv_nonneg (by omega) (by decide)

theorem getRemainingTimeMs_antitone (d : Int) {now later : Int} (passed : now ≤ later) :
    ({ deadline := some d } : Deadline).getRemainingTimeMs later ≤
      ({ deadline := some d } : Deadline).getRemainingTimeMs now := by
  by_cases past : d ≤ later
  · have nothing : ({ deadline := some d } : Deadline).getRemainingTimeMs later = 0 := if_pos past
    rw [nothing]
    exact getRemainingTimeMs_nonneg d now
  · have early : ¬ d ≤ now := by omega
    simp only [getRemainingTimeMs, if_neg past, if_neg early]
    rw [Int.tdiv_eq_ediv_of_nonneg (by omega), Int.tdiv_eq_ediv_of_nonneg (by omega)]
    exact Int.ediv_le_ediv (by decide) (by omega)

theorem getRemainingTimeMs_ends (d now : Int) :
    now + ({ deadline := some d } : Deadline).getRemainingTimeMs now * nanosecondsPerMs ≤
      max now d := by
  simp only [getRemainingTimeMs]
  split
  · omega
  · rename_i early
    rw [Int.tdiv_eq_ediv_of_nonneg (by omega)]
    have whole := Int.ediv_mul_le (d - now) (show nanosecondsPerMs ≠ 0 by decide)
    omega

theorem getRemainingTimeMs_create {created timeoutMs now : Int}
    (finite : timeoutMs ≠ infiniteTimeout) (started : created ≤ now) :
    (Deadline.create created timeoutMs).getRemainingTimeMs now ≤ max 0 timeoutMs := by
  simp only [Deadline.create, if_pos finite, getRemainingTimeMs]
  split
  · omega
  · rename_i early
    rw [Int.tdiv_eq_ediv_of_nonneg (by omega)]
    have within := Int.ediv_le_ediv (c := nanosecondsPerMs) (by decide)
      (show created + timeoutMs * nanosecondsPerMs - now ≤ timeoutMs * nanosecondsPerMs by omega)
    rw [Int.mul_ediv_cancel _ (by decide)] at within
    omega

/-! ### Passes on a clock -/

/-- Only the socket's calls take time, and not more than they are given. -/
def Timed (deadline : Deadline) : Int → List (Pass ι) → Prop
  | _, [] => True
  | clock, pass :: rest =>
      pass.now = clock ∧ clock ≤ pass.later ∧
        (0 ≤ timeoutOf deadline pass →
          pass.later ≤ clock + timeoutOf deadline pass * nanosecondsPerMs) ∧
        Timed deadline pass.later rest

theorem Timed.front {deadline : Deadline} {front back : List (Pass ι)} {clock : Int}
    (timed : Timed deadline clock (front ++ back)) : Timed deadline clock front := by
  induction front generalizing clock with
  | nil => trivial
  | cons pass rest ih =>
      obtain ⟨now, later, within, others⟩ := timed
      exact ⟨now, later, within, ih others⟩

theorem Timed.started {deadline : Deadline} {passes : List (Pass ι)} {clock : Int}
    (timed : Timed deadline clock passes) : ∀ pass ∈ passes, clock ≤ pass.now := by
  induction passes generalizing clock with
  | nil => exact List.forall_mem_nil _
  | cons pass rest ih =>
      obtain ⟨rfl, later, -, others⟩ := timed
      refine List.forall_mem_cons.mpr ⟨Int.le_refl _, fun pass' member => ?_⟩
      exact Int.le_trans later (ih others pass' member)

theorem Timed.ended {d clock limit : Int} {passes : List (Pass ι)}
    (timed : Timed { deadline := some d } clock passes) (started : clock ≤ limit)
    (deadline : d ≤ limit) : ∀ pass ∈ passes, pass.later ≤ limit := by
  induction passes generalizing clock with
  | nil => exact List.forall_mem_nil _
  | cons pass rest ih =>
      obtain ⟨rfl, -, within, others⟩ := timed
      have ends := within (getRemainingTimeMs_nonneg d pass.now)
      have early : pass.later ≤ limit := by
        have last := getRemainingTimeMs_ends d pass.now
        simp only [timeoutOf] at ends
        omega
      exact List.forall_mem_cons.mpr ⟨early, ih others early⟩

theorem Timed.timeouts {d clock : Int} {passes : List (Pass ι)}
    (timed : Timed { deadline := some d } clock passes) :
    (passes.map (timeoutOf { deadline := some d })).Pairwise (fun earlier later =>
      later ≤ earlier) := by
  induction passes generalizing clock with
  | nil => exact .nil
  | cons pass rest ih =>
      obtain ⟨now, later, -, others⟩ := timed
      rw [List.map_cons, List.pairwise_cons, List.forall_mem_map]
      refine ⟨fun pass' member => ?_, ih others⟩
      have passed := others.started pass' member
      exact getRemainingTimeMs_antitone d (by omega)

theorem Timed.within {body : Received ι → Verdict β ι} {d clock : Int}
    {front : List (Pass ι)} {last : Pass ι}
    (timed : Timed { deadline := some d } clock (front ++ [last])) (early : clock ≤ d)
    (continues : ∀ pass ∈ front, Continues body { deadline := some d } pass) :
    ∀ pass ∈ front ++ [last], pass.now ≤ d := by
  induction front generalizing clock with
  | nil =>
      obtain ⟨rfl, -⟩ := timed
      intro pass member
      cases List.mem_singleton.mp member
      exact early
  | cons pass rest ih =>
      obtain ⟨rfl, -, -, others⟩ := timed
      rw [List.forall_mem_cons] at continues
      have notLate := isExpired_eq_false_iff.mp continues.1.2
      exact List.forall_mem_cons.mpr ⟨early, ih others notLate continues.2⟩

theorem Timed.within_tail {body : Received ι → Verdict β ι} {d clock : Int}
    {front : List (Pass ι)} {last : Pass ι}
    (timed : Timed { deadline := some d } clock (front ++ [last]))
    (continues : ∀ pass ∈ front, Continues body { deadline := some d } pass) :
    ∀ pass ∈ (front ++ [last]).tail, pass.now ≤ d := by
  cases front with
  | nil => exact List.forall_mem_nil _
  | cons pass rest =>
      obtain ⟨-, -, -, others⟩ := timed
      rw [List.forall_mem_cons] at continues
      have notLate := isExpired_eq_false_iff.mp continues.1.2
      exact others.within notLate continues.2

/-! ### The receive loops -/

def made (call : LoopRun β ι) (passes : List (Pass ι)) : List (Pass ι) :=
  passes.take call.timeouts.length

structure KeepsDeadline (created timeoutMs : Int) (call : LoopRun β ι) (passes : List (Pass ι)) :
    Prop where
  nonnegative : ∀ timeout ∈ call.timeouts, 0 ≤ timeout ∧ timeout ≠ infiniteTimeout
  bounded : ∀ timeout ∈ call.timeouts, timeout ≤ max 0 timeoutMs
  decreasing : call.timeouts.Pairwise (fun earlier later => later ≤ earlier)
  ends : ∀ pass ∈ made call passes,
    pass.later ≤ max created (created + timeoutMs * nanosecondsPerMs)
  starts : ∀ pass ∈ (made call passes).tail, pass.now ≤ created + timeoutMs * nanosecondsPerMs

theorem keepsDeadline_after {body : Received ι → Verdict β ι} {created timeoutMs : Int}
    (finite : timeoutMs ≠ infiniteTimeout) {passes consumed unread : List (Pass ι)}
    (split : passes = consumed ++ unread) {status : LoopStatus β}
    (timed : Timed (Deadline.create created timeoutMs) created passes)
    (starts : ∀ pass ∈ consumed.tail, pass.now ≤ created + timeoutMs * nanosecondsPerMs) :
    KeepsDeadline created timeoutMs
      (.after body (Deadline.create created timeoutMs) consumed status unread) passes := by
  subst split
  have inTime := timed.front
  rw [Deadline.create, if_pos finite] at inTime
  have whole : made (.after body (Deadline.create created timeoutMs) consumed status unread)
      (consumed ++ unread) = consumed := by
    simp only [made, LoopRun.after, List.length_map, List.take_left]
  refine ⟨?_, ?_, ?_, ?_, ?_⟩
  · simp only [LoopRun.after, List.forall_mem_map]
    intro pass _
    have positive := getRemainingTimeMs_nonneg (created + timeoutMs * nanosecondsPerMs) pass.now
    rw [Deadline.create, if_pos finite]
    refine ⟨positive, fun infinite => ?_⟩
    rw [timeoutOf] at infinite
    rw [infinite] at positive
    exact absurd positive (by decide)
  · simp only [LoopRun.after, List.forall_mem_map]
    intro pass member
    exact getRemainingTimeMs_create finite (inTime.started pass member)
  · simp only [LoopRun.after]
    rw [Deadline.create, if_pos finite]
    exact inTime.timeouts
  · rw [whole]
    exact inTime.ended (by omega) (by omega)
  · rw [whole]
    exact starts

theorem Filters.keepsDeadline {body : Received ι → Verdict β ι}
    {wanted : RawMessage → ι → Prop} {give : RawMessage → ι → β} (filters : Filters body wanted give)
    {created timeoutMs : Int} (finite : timeoutMs ≠ infiniteTimeout) {passes : List (Pass ι)}
    (sound : ∀ pass ∈ passes, pass.received.Sound)
    (timed : Timed (Deadline.create created timeoutMs) created passes) :
    KeepsDeadline created timeoutMs
      (receiveLoop body (Deadline.create created timeoutMs) passes) passes := by
  have consumes := receiveLoop_consumes (Deadline.create created timeoutMs)
    (fun pass member => filters.defined (sound pass member))
  generalize receiveLoop body (Deadline.create created timeoutMs) passes = call at consumes ⊢
  cases consumes with
  | waits continues =>
      refine keepsDeadline_after finite (List.append_nil passes).symm timed ?_
      rw [Deadline.create, if_pos finite] at timed continues
      rcases List.eq_nil_or_concat passes with rfl | ⟨front, last, same⟩
      · exact List.forall_mem_nil _
      · rw [List.concat_eq_append] at same
        subst same
        exact timed.within_tail fun pass member =>
          continues pass (List.mem_append_left _ member)
  | @returns front last msg unread continues ends =>
      have split : front ++ last :: unread = (front ++ [last]) ++ unread := by
        rw [List.append_assoc, List.singleton_append]
      refine keepsDeadline_after finite split timed ?_
      rw [Deadline.create, if_pos finite] at timed continues
      rw [split] at timed
      exact timed.front.within_tail continues

theorem receiveLoop_infinite {body : Received ι → Verdict β ι} (created : Int)
    {passes : List (Pass ι)} (defined : ∀ pass ∈ passes, body pass.received ≠ .undefined) :
    ∀ timeout ∈ (receiveLoop body (Deadline.create created infiniteTimeout) passes).timeouts,
      timeout = infiniteTimeout := by
  have consumes := receiveLoop_consumes (Deadline.create created infiniteTimeout) defined
  have infinite : ∀ consumed : List (Pass ι), ∀ timeout ∈
      consumed.map (timeoutOf (Deadline.create created infiniteTimeout)),
      timeout = infiniteTimeout := by
    intro consumed
    rw [List.forall_mem_map]
    intro pass _
    rfl
  generalize receiveLoop body (Deadline.create created infiniteTimeout) passes = call at consumes ⊢
  cases consumes with
  | waits => exact infinite _
  | returns => exact infinite _

/-! ### `connect` -/

namespace Client

def clockAfter (clock : Int) (passes : List (Pass ι)) : Int :=
  (passes.getLast?.map Pass.later).getD clock

theorem clockAfter_le {clock limit : Int} {passes : List (Pass ι)} (started : clock ≤ limit)
    (ends : ∀ pass ∈ passes, pass.later ≤ limit) : clockAfter clock passes ≤ limit := by
  cases last : passes.getLast? with
  | none => simpa only [clockAfter, last, Option.map_none, Option.getD_none] using started
  | some pass =>
      simpa only [clockAfter, last, Option.map_some, Option.getD_some] using
        ends pass (List.mem_of_getLast? last)

variable [BEq ι]

def Round.ended (identifier : ι) (round : Round ι) : Int :=
  if round.sent then clockAfter round.started (made (round.receive identifier) round.passes)
  else round.started

def TimedRounds (identifier : ι) : Int → List (Round ι) → Prop
  | _, [] => True
  | clock, round :: rest =>
      round.started = clock ∧
        (round.sent = true → round.created = round.started ∧
          Timed (Deadline.create round.created pingTimeout) round.created round.passes) ∧
        round.later = round.ended identifier ∧ TimedRounds identifier round.later rest

theorem TimedRounds.round {identifier : ι} {clock : Int} {rounds : List (Round ι)}
    (timed : TimedRounds identifier clock rounds) : ∀ round ∈ rounds,
      round.sent = true → round.created = round.started ∧
        Timed (Deadline.create round.created pingTimeout) round.created round.passes := by
  induction rounds generalizing clock with
  | nil => exact List.forall_mem_nil _
  | cons round rest ih =>
      obtain ⟨-, waits, -, others⟩ := timed
      exact List.forall_mem_cons.mpr ⟨waits, ih others⟩

theorem mem_of_mem_connectLoop {identifier : ι} {deadline : Deadline} {rounds : List (Round ι)} :
    ∀ round ∈ (connectLoop identifier deadline rounds).rounds, round ∈ rounds := by
  induction rounds with
  | nil => exact List.forall_mem_nil _
  | cons round rest ih =>
      have only : ∀ round' ∈ [round], round' ∈ round :: rest := by
        intro round' member
        rw [List.mem_singleton.mp member]
        exact List.mem_cons_self
      simp only [connectLoop]
      split
      · exact only
      · split
        · exact only
        · intro round' member
          rcases List.mem_cons.mp member with rfl | later
          · exact List.mem_cons_self
          · exact List.mem_cons_of_mem _ (ih round' later)

theorem connectLoop_starts {identifier : ι} {d clock : Int} {rounds : List (Round ι)}
    (timed : TimedRounds identifier clock rounds) (early : clock ≤ d) :
    ∀ round ∈ (connectLoop identifier { deadline := some d } rounds).rounds,
      round.started ≤ d := by
  induction rounds generalizing clock with
  | nil => exact List.forall_mem_nil _
  | cons round rest ih =>
      obtain ⟨rfl, -, -, others⟩ := timed
      have only : ∀ round' ∈ [round], round'.started ≤ d := by
        intro round' member
        rw [List.mem_singleton.mp member]
        exact early
      simp only [connectLoop]
      split
      · exact only
      · split
        · exact only
        · rename_i notLate
          rw [isExpired_iff, Int.not_lt] at notLate
          exact List.forall_mem_cons.mpr ⟨early, ih others notLate⟩

theorem connectLoop_starts_tail {identifier : ι} {d clock : Int} {rounds : List (Round ι)}
    (timed : TimedRounds identifier clock rounds) :
    (∀ round ∈ (connectLoop identifier { deadline := some d } rounds).rounds.head?,
        round.started = clock) ∧
      ∀ round ∈ (connectLoop identifier { deadline := some d } rounds).rounds.tail,
        round.started ≤ d := by
  cases rounds with
  | nil => exact ⟨nofun, List.forall_mem_nil _⟩
  | cons round rest =>
      obtain ⟨rfl, -, -, others⟩ := timed
      simp only [connectLoop]
      split
      · exact ⟨by simp, List.forall_mem_nil _⟩
      · split
        · exact ⟨by simp, List.forall_mem_nil _⟩
        · rename_i notLate
          rw [isExpired_iff, Int.not_lt] at notLate
          exact ⟨by simp, connectLoop_starts others notLate⟩

theorem Round.keepsDeadline {identifier : ι} {round : Round ι}
    (sound : ∀ pass ∈ round.passes, pass.received.Sound)
    (timed : Timed (Deadline.create round.created pingTimeout) round.created round.passes) :
    KeepsDeadline round.created pingTimeout (round.receive identifier) round.passes :=
  (receiveBody_filters identifier [ipcPingRsp]).keepsDeadline (by decide) sound timed

theorem Round.outcome_defined {identifier : ι} {round : Round ι}
    (sound : ∀ pass ∈ round.passes, pass.received.Sound) :
    round.outcome identifier ≠ some .undefined := by
  have defined := receiveLoop_defined (Deadline.create round.created pingTimeout)
    (fun pass member =>
      (receiveBody_filters identifier [ipcPingRsp]).defined (sound pass member))
  simp only [Round.outcome, Round.receive, Client.receive]
  split
  · split
    · simp only [ne_eq, Option.some.injEq, reduceCtorEq, not_false_eq_true]
    · rename_i same
      exact absurd same defined
    · simp only [ne_eq, Option.some.injEq, reduceCtorEq, not_false_eq_true]
    · simp only [ne_eq, reduceCtorEq, not_false_eq_true]
  · simp only [ne_eq, reduceCtorEq, not_false_eq_true]

theorem connectLoop_returns {identifier : ι} {d : Int} {rounds : List (Round ι)}
    (sound : ∀ round ∈ rounds, ∀ pass ∈ round.passes, pass.received.Sound)
    (complete : ∀ round ∈ rounds, round.outcome identifier ≠ some .waiting)
    (late : ∃ round ∈ rounds, d < round.later) :
    ∃ connected, (connectLoop identifier { deadline := some d } rounds).status =
      .returned connected := by
  induction rounds with
  | nil =>
      obtain ⟨round, member, -⟩ := late
      cases member
  | cons round rest ih =>
      rw [List.forall_mem_cons] at sound complete
      simp only [connectLoop]
      split
      · rename_i status ends
        cases status with
        | waiting => exact absurd ends complete.1
        | undefined => exact absurd ends (Round.outcome_defined sound.1)
        | returned connected => exact ⟨connected, rfl⟩
      · split
        · exact ⟨false, rfl⟩
        · rename_i notLate
          rw [isExpired_iff] at notLate
          obtain ⟨last, member, after⟩ := late
          rcases List.mem_cons.mp member with rfl | later
          · exact absurd after notLate
          · exact ih sound.2 complete.2 ⟨last, later, after⟩

/-- `connect` with a deadline is over 100 ms after it at the latest. -/
structure ConnectKeepsDeadline (identifier : ι) (created timeoutMs : Int)
    (rounds : List (Round ι)) (run : ConnectRun ι) : Prop where
  starts : ∀ round ∈ run.rounds.tail, round.started ≤ created + timeoutMs * nanosecondsPerMs
  calls : ∀ round ∈ run.rounds, round.sent = true →
    ∀ pass ∈ made (round.receive identifier) round.passes, pass.later ≤
      max created (created + timeoutMs * nanosecondsPerMs) + pingTimeout * nanosecondsPerMs
  ends : ∀ round ∈ run.rounds, round.ended identifier ≤
    max created (created + timeoutMs * nanosecondsPerMs) + pingTimeout * nanosecondsPerMs
  returns : (∀ round ∈ rounds, round.outcome identifier ≠ some .waiting) →
    (∃ round ∈ rounds, created + timeoutMs * nanosecondsPerMs < round.later) →
    ∃ connected, run.status = .returned connected

theorem connect_keepsDeadline {identifier : ι} {created timeoutMs : Int}
    (finite : timeoutMs ≠ infiniteTimeout) {rounds : List (Round ι)}
    (sound : ∀ round ∈ rounds, ∀ pass ∈ round.passes, pass.received.Sound)
    (timed : TimedRounds identifier created rounds) :
    ConnectKeepsDeadline identifier created timeoutMs rounds
      (connect identifier timeoutMs created rounds) := by
  simp only [connect, Deadline.create, if_pos finite]
  obtain ⟨first, others⟩ :=
    connectLoop_starts_tail (d := created + timeoutMs * nanosecondsPerMs) timed
  have early : ∀ round ∈ (connectLoop identifier
      { deadline := some (created + timeoutMs * nanosecondsPerMs) } rounds).rounds,
      round.started ≤ max created (created + timeoutMs * nanosecondsPerMs) := by
    intro round member
    cases atHead : (connectLoop identifier
        { deadline := some (created + timeoutMs * nanosecondsPerMs) } rounds).rounds with
    | nil =>
        rw [atHead] at member
        cases member
    | cons head rest =>
        rw [atHead] at member first others
        rcases List.mem_cons.mp member with rfl | later
        · have here := first _ rfl
          omega
        · have here := others round later
          omega
  have waits : ∀ round ∈ (connectLoop identifier
      { deadline := some (created + timeoutMs * nanosecondsPerMs) } rounds).rounds,
      round.sent = true → ∀ pass ∈ made (round.receive identifier) round.passes, pass.later ≤
        max created (created + timeoutMs * nanosecondsPerMs) + pingTimeout * nanosecondsPerMs := by
    intro round member sent pass wait
    have given := mem_of_mem_connectLoop round member
    obtain ⟨same, timedPasses⟩ := timed.round round given sent
    have ends := (Round.keepsDeadline (sound round given) timedPasses).ends pass wait
    have started := early round member
    have positive : 0 ≤ pingTimeout * nanosecondsPerMs := by decide
    omega
  refine ⟨others, waits, fun round member => ?_, fun complete late =>
    connectLoop_returns sound complete late⟩
  have started := early round member
  have positive : 0 ≤ pingTimeout * nanosecondsPerMs := by decide
  rw [Round.ended]
  split
  · rename_i sent
    exact clockAfter_le (by omega) (waits round member sent)
  · omega

end Client

/-- Traffic does not carry a receiving call, or `connect`, past its deadline. -/
theorem deadlines_kept [BEq ι] (created timeoutMs : Int) :
    (∀ passes : List (Pass ι), (∀ pass ∈ passes, pass.received.Sound) →
      Timed (Deadline.create created timeoutMs) created passes →
      (timeoutMs ≠ infiniteTimeout →
        (∀ sigsel expected, KeepsDeadline created timeoutMs
          (Server.GenericSimpleServer.receive timeoutMs sigsel expected created passes) passes) ∧
        ∀ identifier sigsel, KeepsDeadline created timeoutMs
          (Client.receive identifier timeoutMs sigsel created passes) passes) ∧
      (timeoutMs = infiniteTimeout →
        (∀ sigsel expected, ∀ timeout ∈
          (Server.GenericSimpleServer.receive timeoutMs sigsel expected created passes).timeouts,
          timeout = infiniteTimeout) ∧
        ∀ identifier sigsel, ∀ timeout ∈
          (Client.receive identifier timeoutMs sigsel created passes).timeouts,
          timeout = infiniteTimeout)) ∧
      (timeoutMs ≠ infiniteTimeout → ∀ (identifier : ι) (rounds : List (Client.Round ι)),
        (∀ round ∈ rounds, ∀ pass ∈ round.passes, pass.received.Sound) →
        Client.TimedRounds identifier created rounds →
        Client.ConnectKeepsDeadline identifier created timeoutMs rounds
          (Client.connect identifier timeoutMs created rounds)) := by
  refine ⟨fun passes sound timed => ⟨fun finite => ⟨?_, ?_⟩, ?_⟩, ?_⟩
  · intro sigsel expected
    exact (Server.GenericSimpleServer.receiveBody_filters sigsel expected).keepsDeadline finite
      sound timed
  · intro identifier sigsel
    exact (Client.receiveBody_filters identifier sigsel).keepsDeadline finite sound timed
  · rintro rfl
    refine ⟨fun sigsel expected => ?_, fun identifier sigsel => ?_⟩
    · exact receiveLoop_infinite created fun pass member =>
        (Server.GenericSimpleServer.receiveBody_filters sigsel expected).defined (sound pass member)
    · exact receiveLoop_infinite created fun pass member =>
        (Client.receiveBody_filters identifier sigsel).defined (sound pass member)
  · intro finite identifier rounds sound timed
    exact Client.connect_keepsDeadline finite sound timed

instance Timed.decide (deadline : Deadline) :
    (clock : Int) → (passes : List (Pass ι)) → Decidable (Timed deadline clock passes)
  | _, [] => inferInstanceAs (Decidable True)
  | clock, pass :: rest =>
      letI := Timed.decide deadline pass.later rest
      inferInstanceAs (Decidable (pass.now = clock ∧ clock ≤ pass.later ∧
        (0 ≤ timeoutOf deadline pass →
          pass.later ≤ clock + timeoutOf deadline pass * nanosecondsPerMs) ∧
        Timed deadline pass.later rest))

def unwantedPasses : List (Pass UnixInfo) :=
  [{ now := 0, later := 1500000,
     received := Client.delivered { value := ofAscii "peer" } { reqId := 7, payload := [] } },
   { now := 1500000, later := 2500000,
     received := Client.delivered { value := ofAscii "peer" } { reqId := 8, payload := [] } },
   { now := 2500000, later := 2500000, received := .error 0 }]

def unwantedRound : Client.Round UnixInfo :=
  { started := 0, sent := true, created := 0, passes := unwantedPasses, later := 2500000 }

theorem unwanted_deadlines_kept :
    KeepsDeadline 0 3
      (Client.receive { value := ofAscii "peer" } 3 [5] 0 unwantedPasses) unwantedPasses ∧
      (∀ timeout ∈ (Client.receive { value := ofAscii "peer" } infiniteTimeout [5] 0
        unwantedPasses).timeouts, timeout = infiniteTimeout) ∧
      Client.ConnectKeepsDeadline { value := ofAscii "peer" } 0 1 [unwantedRound]
        (Client.connect { value := ofAscii "peer" } 1 0 [unwantedRound]) :=
  ⟨(((deadlines_kept 0 3).1 unwantedPasses (by decide) (by decide)).1 (by decide)).2 _ _,
    (((deadlines_kept 0 infiniteTimeout).1 unwantedPasses (by decide) (by decide)).2 rfl).2 _ _,
    (deadlines_kept 0 1).2 (by decide) { value := ofAscii "peer" } [unwantedRound] (by decide)
      ⟨rfl, fun _ => ⟨rfl, by decide⟩, by decide, trivial⟩⟩

end LinxIpc
