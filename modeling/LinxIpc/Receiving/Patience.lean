import LinxIpc.Receiving.Timing

/-!
A receiving call, or `connect`, that has found nothing has waited.

The remaining time is rounded down to whole milliseconds, so the last wait of
`socket->receive` may end up to a millisecond before the deadline, and the call
with it.
-/

namespace LinxIpc

variable {β ι : Type}

open Deadline

/-- `poll` reports that nothing came only when its time is over, and the socket does
not fail. -/
def Patient (deadline : Deadline) (pass : Pass ι) : Prop :=
  0 ≤ pass.received.result ∧
    (pass.received.result = 0 → 0 ≤ timeoutOf deadline pass ∧
      pass.now + timeoutOf deadline pass * nanosecondsPerMs ≤ pass.later)

instance (deadline : Deadline) (pass : Pass ι) : Decidable (Patient deadline pass) :=
  inferInstanceAs (Decidable (0 ≤ pass.received.result ∧
    (pass.received.result = 0 → 0 ≤ timeoutOf deadline pass ∧
      pass.now + timeoutOf deadline pass * nanosecondsPerMs ≤ pass.later)))

theorem getRemainingTimeMs_lasts (d now : Int) :
    d - nanosecondsPerMs <
      now + ({ deadline := some d } : Deadline).getRemainingTimeMs now * nanosecondsPerMs := by
  have positive : 0 < nanosecondsPerMs := by decide
  simp only [getRemainingTimeMs]
  split
  · omega
  · rename_i early
    rw [Int.tdiv_eq_ediv_of_nonneg (by omega)]
    have rest := Int.lt_ediv_add_one_mul_self (d - now) positive
    rw [Int.add_mul, Int.one_mul] at rest
    omega

/-! ### The receive loops -/

def WaitsOut (created timeoutMs : Int) (call : LoopRun β ι) (passes : List (Pass ι)) : Prop :=
  call.status = .returned none → timeoutMs ≠ infiniteTimeout ∧
    ∃ front last, made call passes = front ++ [last] ∧
      created + (timeoutMs - 1) * nanosecondsPerMs < last.later ∧
      last.later ≤ max created (created + timeoutMs * nanosecondsPerMs)

theorem made_after (body : Received ι → Verdict β ι) (deadline : Deadline)
    (consumed unread : List (Pass ι)) (status : LoopStatus β) :
    made (.after body deadline consumed status unread) (consumed ++ unread) = consumed := by
  simp only [made, LoopRun.after, List.length_map, List.take_left]

theorem Filters.failed_of_finish {body : Received ι → Verdict β ι}
    {wanted : RawMessage → ι → Prop} {give : RawMessage → ι → β}
    (filters : Filters body wanted give) {received : Received ι} (sound : received.Sound)
    (finishes : body received = .finish none) : received.result ≤ 0 := by
  rcases filters.cases sound with ⟨failed, -⟩ | ⟨_, _, -, -, -, found⟩ | ⟨-, _, goes⟩
  · exact failed
  · rw [found] at finishes
    cases finishes
  · rw [goes] at finishes
    cases finishes

theorem Ends.lasts {body : Received ι → Verdict β ι} {wanted : RawMessage → ι → Prop}
    {give : RawMessage → ι → β} (filters : Filters body wanted give) {created timeoutMs : Int}
    {last : Pass ι} (sound : last.received.Sound)
    (patient : Patient (Deadline.create created timeoutMs) last)
    (ends : Ends body (Deadline.create created timeoutMs) last none) :
    timeoutMs ≠ infiniteTimeout ∧
      created + (timeoutMs - 1) * nanosecondsPerMs < last.later := by
  rw [Int.sub_mul, Int.one_mul]
  by_cases infinite : timeoutMs = infiniteTimeout
  · subst infinite
    cases ends with
    | expired goes late => cases late
    | finished finishes =>
        have failed := filters.failed_of_finish sound finishes
        have limited := (patient.2 (Int.le_antisymm failed patient.1)).1
        cases limited
  · refine ⟨infinite, ?_⟩
    rw [Deadline.create, if_pos infinite] at ends patient
    cases ends with
    | expired goes late =>
        have after := isExpired_iff.mp late
        have positive : 0 < nanosecondsPerMs := by decide
        omega
    | finished finishes =>
        have failed := filters.failed_of_finish sound finishes
        have waited := (patient.2 (Int.le_antisymm failed patient.1)).2
        have lasts := getRemainingTimeMs_lasts (created + timeoutMs * nanosecondsPerMs) last.now
        rw [timeoutOf] at waited
        omega

theorem Filters.waitsOut {body : Received ι → Verdict β ι} {wanted : RawMessage → ι → Prop}
    {give : RawMessage → ι → β} (filters : Filters body wanted give) {created timeoutMs : Int}
    {passes : List (Pass ι)} (sound : ∀ pass ∈ passes, pass.received.Sound)
    (timed : Timed (Deadline.create created timeoutMs) created passes)
    (patient : ∀ pass ∈ passes, Patient (Deadline.create created timeoutMs) pass) :
    WaitsOut created timeoutMs (receiveLoop body (Deadline.create created timeoutMs) passes)
      passes := by
  have keeps := fun finite : timeoutMs ≠ infiniteTimeout =>
    filters.keepsDeadline finite sound timed
  have consumes := receiveLoop_consumes (Deadline.create created timeoutMs)
    (fun pass member => filters.defined (sound pass member))
  generalize receiveLoop body (Deadline.create created timeoutMs) passes = call at consumes keeps ⊢
  intro returned
  cases consumes with
  | waits continues => cases returned
  | @returns front last msg unread continues ends =>
      cases returned
      have member : last ∈ front ++ last :: unread :=
        List.mem_append_right front List.mem_cons_self
      obtain ⟨finite, late⟩ := ends.lasts filters (sound last member) (patient last member)
      have consumed : made (.after body (Deadline.create created timeoutMs) (front ++ [last])
          (.returned none) unread) (front ++ last :: unread) = front ++ [last] := by
        have whole := made_after body (Deadline.create created timeoutMs) (front ++ [last]) unread
          (.returned none)
        rw [List.append_assoc] at whole
        exact whole
      refine ⟨finite, front, last, consumed, late, (keeps finite).ends last ?_⟩
      rw [consumed]
      exact List.mem_append_right front List.mem_cons_self

/-! ### `connect` -/

namespace Client

variable [BEq ι]

theorem Round.outcome_not_false (identifier : ι) (round : Round ι) :
    round.outcome identifier ≠ some (.returned false) := by
  unfold Round.outcome
  split
  · split <;> simp
  · simp

theorem connectLoop_false {identifier : ι} {deadline : Deadline} {rounds : List (Round ι)}
    (returned : (connectLoop identifier deadline rounds).status = .returned false) :
    ∃ front last, (connectLoop identifier deadline rounds).rounds = front ++ [last] ∧
      deadline.isExpired last.later = true := by
  induction rounds with
  | nil => cases returned
  | cons round rest ih =>
      simp only [connectLoop] at returned ⊢
      split at returned
      · rename_i status ended
        rw [show status = .returned false from returned] at ended
        exact absurd ended (round.outcome_not_false identifier)
      · split at returned
        · rename_i late
          exact ⟨[], round, by simp [late], late⟩
        · rename_i early
          obtain ⟨front, last, same, late⟩ := ih returned
          exact ⟨round :: front, last, by simp [early, same], late⟩

theorem TimedRounds.later {identifier : ι} {clock : Int} {rounds : List (Round ι)}
    (timed : TimedRounds identifier clock rounds) :
    ∀ round ∈ rounds, round.later = round.ended identifier := by
  induction rounds generalizing clock with
  | nil => exact List.forall_mem_nil _
  | cons round rest ih =>
      obtain ⟨-, -, ended, others⟩ := timed
      exact List.forall_mem_cons.mpr ⟨ended, ih others⟩

end Client

/-- A receiving call that returns nothing has spent its time to within a millisecond, and
`connect` that returns false all of its time and at most 100 ms more.  Without a time
limit neither happens. -/
theorem waits_not_cut_short [BEq ι] (created timeoutMs : Int) :
    (∀ passes : List (Pass ι), (∀ pass ∈ passes, pass.received.Sound) →
      Timed (Deadline.create created timeoutMs) created passes →
      (∀ pass ∈ passes, Patient (Deadline.create created timeoutMs) pass) →
      (∀ sigsel expected, WaitsOut created timeoutMs
        (Server.GenericSimpleServer.receive timeoutMs sigsel expected created passes) passes) ∧
      ∀ identifier sigsel, WaitsOut created timeoutMs
        (Client.receive identifier timeoutMs sigsel created passes) passes) ∧
      ∀ (identifier : ι) (rounds : List (Client.Round ι)),
        (∀ round ∈ rounds, ∀ pass ∈ round.passes, pass.received.Sound) →
        Client.TimedRounds identifier created rounds →
        (Client.connect identifier timeoutMs created rounds).status = .returned false →
        timeoutMs ≠ infiniteTimeout ∧
          ∃ front last, (Client.connect identifier timeoutMs created rounds).rounds =
              front ++ [last] ∧
            created + timeoutMs * nanosecondsPerMs < last.later ∧
            last.later ≤ max created (created + timeoutMs * nanosecondsPerMs) +
              Client.pingTimeout * nanosecondsPerMs := by
  refine ⟨fun passes sound timed patient => ⟨?_, ?_⟩, ?_⟩
  · intro sigsel expected
    exact (Server.GenericSimpleServer.receiveBody_filters sigsel expected).waitsOut sound timed
      patient
  · intro identifier sigsel
    exact (Client.receiveBody_filters identifier sigsel).waitsOut sound timed patient
  · intro identifier rounds sound timed returned
    obtain ⟨front, last, ends, late⟩ := Client.connectLoop_false returned
    by_cases infinite : timeoutMs = infiniteTimeout
    · subst infinite
      cases late
    · refine ⟨infinite, front, last, ends, ?_, ?_⟩
      · rw [Deadline.create, if_pos infinite, isExpired_iff] at late
        exact late
      · have keeps := Client.connect_keepsDeadline infinite sound timed
        have started : last ∈ (Client.connect identifier timeoutMs created rounds).rounds := by
          rw [show (Client.connect identifier timeoutMs created rounds).rounds = _ from ends]
          exact List.mem_append_right front List.mem_cons_self
        rw [timed.later last (Client.mem_of_mem_connectLoop last started)]
        exact keeps.ends last started

def earlyPasses : List (Pass UnixInfo) :=
  [{ now := 0, later := 1,
     received := Client.delivered { value := ofAscii "peer" } { reqId := 7, payload := [] } },
   { now := 1, later := 1, received := .error 0 }]

theorem waits_not_cut_short_early :
    WaitsOut 0 1 (Client.receive { value := ofAscii "peer" } 1 [5] 0 earlyPasses) earlyPasses ∧
      (Client.receive { value := ofAscii "peer" } 1 [5] 0 earlyPasses).status = .returned none ∧
      ∃ front last, (Client.connect { value := ofAscii "peer" } 1 0 [unwantedRound]).rounds =
          front ++ [last] ∧
        0 + 1 * nanosecondsPerMs < last.later ∧
        last.later ≤ max 0 (0 + 1 * nanosecondsPerMs) + Client.pingTimeout * nanosecondsPerMs :=
  ⟨((waits_not_cut_short 0 1).1 earlyPasses (by decide) (by decide) (by decide)).2 _ _,
    by decide,
    ((waits_not_cut_short 0 1).2 { value := ofAscii "peer" } [unwantedRound] (by decide)
      ⟨rfl, fun _ => ⟨rfl, by decide⟩, by decide, trivial⟩ (by decide)).2⟩

end LinxIpc
