import Mathlib.Logic.Function.Basic
import LinxIpc.Machine.Run
import LinxIpc.Socket.Receive

/-!
Any number of threads in `receive` on one open socket.

Each system call is one step.  `FIONREAD` gives the size of the datagram at the
head, `recvfrom` removes the head and keeps at most the requested bytes; between
the two another reader may have removed the datagram that was measured.  Arrived
datagrams are numbered, so that a run shows which one each call consumed.
-/

namespace LinxIpc.Socket

variable {τ α ι : Type}

inductive Reader (α ι : Type) where
  | idle
  | running (program : Receive α ι)

structure Readers (τ α ι : Type) where
  arrived : Nat
  pending : List (Nat × Datagram α)
  reader : τ → Reader α ι

inductive Action (τ α : Type) where
  | arrive (datagram : Datagram α)
  | call (thread : τ) (timeoutMs : Int)
  | poll (thread : τ) (result : PollResult)
  | fionread (thread : τ)
  | recvfrom (thread : τ)
  /-- `recvfrom` fails and removes nothing. -/
  | recvfromFails (thread : τ) (errno : Int)

inductive Event (τ α ι : Type) where
  | arrived (number : Nat) (datagram : Datagram α)
  | finished (thread : τ) (consumed : Option (Nat × Datagram α)) (received : Received ι)

namespace Readers

def initial : Readers τ α ι :=
  { arrived := 0, pending := [], reader := fun _ => .idle }

def PollAllowed (pending : List (Nat × Datagram α)) (timeoutMs : Int) : PollResult → Bool
  | .failed _ => true
  | .timedOut => pending.isEmpty && decide (0 ≤ timeoutMs)
  | .ready => !pending.isEmpty

/-- The size that `FIONREAD` reports: 0 when nothing is pending. -/
def headSize : List (Nat × Datagram α) → Nat
  | [] => 0
  | (_, datagram) :: _ => datagram.bytes.length

variable [DecidableEq τ]

def resume (s : Readers τ α ι) (thread : τ) (consumed : Option (Nat × Datagram α))
    (program : Receive α ι) : Readers τ α ι × List (Event τ α ι) :=
  match program with
  | .ret received =>
      ({ s with reader := Function.update s.reader thread .idle },
        [.finished thread consumed received])
  | program => ({ s with reader := Function.update s.reader thread (.running program) }, [])

def step (identifier : α → ι) (fd : Int) (s : Readers τ α ι) :
    Action τ α → Option (Readers τ α ι × List (Event τ α ι))
  | .arrive datagram =>
      some ({ s with arrived := s.arrived + 1, pending := s.pending ++ [(s.arrived, datagram)] },
        [.arrived s.arrived datagram])
  | .call thread timeoutMs =>
      match s.reader thread with
      | .idle => some (s.resume thread none (socketReceive identifier fd timeoutMs))
      | .running _ => none
  | .poll thread result =>
      match s.reader thread with
      | .running (.poll timeoutMs next) =>
          if PollAllowed s.pending timeoutMs result then some (s.resume thread none (next result))
          else none
      | _ => none
  | .fionread thread =>
      match s.reader thread with
      | .running (.fionread next) =>
          some (s.resume thread none (next (some (headSize s.pending))))
      | _ => none
  | .recvfrom thread =>
      match s.reader thread, s.pending with
      | .running (.recvfrom size next), (number, datagram) :: rest =>
          some ({ s with pending := rest }.resume thread (some (number, datagram))
            (next (.received (datagram.bytes.take size) datagram.address)))
      | _, _ => none
  | .recvfromFails thread errno =>
      match s.reader thread with
      | .running (.recvfrom _ next) => some (s.resume thread none (next (.failed errno)))
      | _ => none

def machine (identifier : α → ι) (fd : Int) :
    Machine (Readers τ α ι) (Action τ α) (Event τ α ι) where
  step := step identifier fd

/-! ### What a run consumes -/

def sent (events : List (Event τ α ι)) : List (Nat × Datagram α) :=
  events.filterMap fun
    | .arrived number datagram => some (number, datagram)
    | .finished .. => none

def consumed (events : List (Event τ α ι)) : List (Nat × Datagram α) :=
  events.filterMap fun
    | .arrived .. => none
    | .finished _ consumed _ => consumed

def contents? (identifier : α → ι) (datagram : Datagram α) : Option (RawMessage × ι) :=
  (RawMessage.deserialize datagram.bytes).map (fun msg => (msg, identifier datagram.address))

/-- A call that returns a length gives the one datagram that it consumed, whole;
a call that gives nothing says so by a result that is not positive, and by a
negative one if it consumed a datagram. -/
def Whole (identifier : α → ι) : Event τ α ι → Prop
  | .arrived .. => True
  | .finished _ none received => received.result ≤ 0 ∧ received.stored = none
  | .finished _ (some (_, datagram)) received =>
      (received.result < 0 ∧ received.stored = none) ∨
        (received.result = datagram.bytes.length ∧ 0 < received.result ∧
          received.stored = contents? identifier datagram ∧ received.stored ≠ none)

/-- When a thread reads, the datagram at the head is no longer than the one that
its `FIONREAD` measured. -/
def NotOvertaken (s : Readers τ α ι) : Action τ α → Prop
  | .recvfrom thread => ∀ size next number datagram rest,
      s.reader thread = .running (.recvfrom size next) →
      s.pending = (number, datagram) :: rest → 0 < size → datagram.bytes.length ≤ size
  | _ => True

inductive Standing (identifier : α → ι) : Reader α ι → Prop where
  | idle : Standing identifier .idle
  | polling (timeoutMs : Int) :
      Standing identifier (.running (.poll timeoutMs (afterPoll identifier)))
  | measuring : Standing identifier (.running (.fionread (afterFionread identifier)))
  | reading (size : Nat) (measured : size = 0 ∨ 4 ≤ size) :
      Standing identifier (.running (.recvfrom size (afterRecvfrom identifier size)))

structure Sound (identifier : α → ι) (s : Readers τ α ι) : Prop where
  standing : ∀ thread, Standing identifier (s.reader thread)
  sized : ∀ entry ∈ s.pending, 4 ≤ entry.2.bytes.length

inductive Continues (identifier : α → ι) : Receive α ι → Prop where
  | failed {code : Int} (nonpositive : code ≤ 0) : Continues identifier (.ret (.error code))
  | standing {program : Receive α ι} (standing : Standing identifier (.running program)) :
      Continues identifier program

omit [DecidableEq τ] in
theorem continues_socketReceive (identifier : α → ι) (fd timeoutMs : Int) :
    Continues identifier (socketReceive identifier fd timeoutMs) := by
  unfold socketReceive
  by_cases closed : fd < 0
  · rw [if_pos closed]
    exact .failed (by decide)
  · rw [if_neg closed]
    exact .standing (.polling timeoutMs)

theorem continues_afterPoll (identifier : α → ι) (result : PollResult) :
    Continues identifier (afterPoll identifier result) := by
  cases result with
  | failed errno =>
      refine .failed ?_
      split <;> decide
  | timedOut => exact .failed (Int.le_refl 0)
  | ready => exact .standing .measuring

theorem continues_failed (identifier : α → ι) (size : Nat) (errno : Int) :
    Continues identifier (afterRecvfrom identifier size (.failed errno)) := by
  refine .failed ?_
  split <;> decide

theorem continues_afterFionread (identifier : α → ι) {size : Nat}
    (measured : size = 0 ∨ 4 ≤ size) :
    Continues identifier (afterFionread identifier (some size)) :=
  .standing (.reading size measured)

theorem Sound.update {identifier : α → ι} {s : Readers τ α ι} (sound : Sound identifier s)
    (thread : τ) {reader : Reader α ι} (standing : Standing identifier reader) :
    Sound identifier { s with reader := Function.update s.reader thread reader } where
  standing := by
    intro other
    change Standing identifier (Function.update s.reader thread reader other)
    by_cases same : other = thread
    · subst same
      rw [Function.update_self]
      exact standing
    · rw [Function.update_of_ne same]
      exact sound.standing other
  sized := sound.sized

theorem Sound.resume {identifier : α → ι} {s : Readers τ α ι} (sound : Sound identifier s)
    (thread : τ) {program : Receive α ι} (continues : Continues identifier program) :
    Sound identifier (s.resume thread none program).1 ∧
      ∀ event ∈ (s.resume thread none program).2, Whole identifier event := by
  cases continues with
  | failed nonpositive =>
      refine ⟨sound.update thread .idle, ?_⟩
      intro event member
      obtain rfl := List.mem_singleton.mp member
      exact ⟨nonpositive, rfl⟩
  | standing standing =>
      cases standing with
      | polling timeoutMs => exact ⟨sound.update thread (.polling timeoutMs), nofun⟩
      | measuring => exact ⟨sound.update thread .measuring, nofun⟩
      | reading size measured => exact ⟨sound.update thread (.reading size measured), nofun⟩

theorem headSize_measured {pending : List (Nat × Datagram α)}
    (sized : ∀ entry ∈ pending, 4 ≤ entry.2.bytes.length) :
    headSize pending = 0 ∨ 4 ≤ headSize pending := by
  cases pending with
  | nil => exact .inl rfl
  | cons entry rest => exact .inr (sized entry List.mem_cons_self)

omit [DecidableEq τ] in
theorem afterRecvfrom_long (identifier : α → ι) {size : Nat} {bytes : List UInt8} {address : α}
    (measured : bytes.length = size) :
    afterRecvfrom identifier size (.received bytes address) =
      .ret (match contents? identifier ⟨bytes, address⟩ with
        | none => .error (-6)
        | some contents => { result := size, stored := some contents }) := by
  simp only [afterRecvfrom, measured, ne_eq, not_true_eq_false, if_false, contents?]
  cases RawMessage.deserialize bytes <;> rfl

omit [DecidableEq τ] in
theorem contents_isSome (identifier : α → ι) (datagram : Datagram α)
    (sized : 4 ≤ datagram.bytes.length) :
    ∃ contents, contents? identifier datagram = some contents := by
  obtain ⟨msg, decoded⟩ :=
    Option.isSome_iff_exists.mp ((RawMessage.deserialize_isSome_iff datagram.bytes).mpr sized)
  exact ⟨(msg, identifier datagram.address), by rw [contents?, decoded]; rfl⟩

omit [DecidableEq τ] in
/-- What a read of a measured size makes of a datagram: it is whole exactly if
the datagram is not longer, or if nothing had been measured. -/
theorem read_whole_iff (identifier : α → ι) (thread : τ) (number : Nat)
    {size : Nat} (measured : size = 0 ∨ 4 ≤ size) {datagram : Datagram α}
    (sized : 4 ≤ datagram.bytes.length) :
    ∃ received, afterRecvfrom identifier size
        (.received (datagram.bytes.take size) datagram.address) = .ret received ∧
      (Whole identifier (.finished thread (some (number, datagram)) received) ↔
        (0 < size → datagram.bytes.length ≤ size)) := by
  rcases Nat.lt_trichotomy datagram.bytes.length size with shorter | same | longer
  · -- the read returns less than was measured: -5
    rw [List.take_of_length_le (Nat.le_of_lt shorter)]
    have negative : (-5 : Int) < 0 := by decide
    refine ⟨.error (-5), ?_, iff_of_true (.inl ⟨negative, rfl⟩) (fun _ => Nat.le_of_lt shorter)⟩
    simp only [afterRecvfrom, if_pos (Nat.ne_of_lt shorter)]
  · rw [List.take_of_length_le (Nat.le_of_eq same), afterRecvfrom_long identifier same]
    obtain ⟨contents, found⟩ := contents_isSome identifier datagram sized
    rw [found]
    refine ⟨_, rfl, iff_of_true (.inr ⟨?_, ?_, found.symm, by rintro ⟨⟩⟩)
      (fun _ => Nat.le_of_eq same)⟩
    · rw [same]
    · change (0 : Int) < (size : Int)
      omega
  · have kept : (datagram.bytes.take size).length = size :=
      List.length_take_of_le (Nat.le_of_lt longer)
    rw [afterRecvfrom_long identifier kept]
    rcases measured with rfl | atLeast
    · -- nothing was measured, so nothing is read: -6
      have negative : (-6 : Int) < 0 := by decide
      exact ⟨.error (-6), rfl, iff_of_true (.inl ⟨negative, rfl⟩)
        (fun positive => absurd positive (Nat.lt_irrefl 0))⟩
    · obtain ⟨contents, found⟩ := contents_isSome identifier
        ⟨datagram.bytes.take size, datagram.address⟩ (by rw [kept]; exact atLeast)
      rw [found]
      refine ⟨_, rfl, iff_of_false ?_ ?_⟩
      · rintro (⟨negative, -⟩ | ⟨length, -⟩)
        · change (size : Int) < 0 at negative
          omega
        · change (size : Int) = (datagram.bytes.length : Int) at length
          omega
      · intro bounded
        have fits := bounded (by omega)
        omega

inductive Did (identifier : α → ι) (s : Readers τ α ι) :
    Action τ α → Readers τ α ι → List (Event τ α ι) → Prop where
  | arrived (datagram : Datagram α) :
      Did identifier s (.arrive datagram)
        { s with arrived := s.arrived + 1, pending := s.pending ++ [(s.arrived, datagram)] }
        [.arrived s.arrived datagram]
  | resumed {action : Action τ α} {thread : τ} {program : Receive α ι}
      (harmless : NotOvertaken s action) (continues : Continues identifier program) :
      Did identifier s action (s.resume thread none program).1 (s.resume thread none program).2
  | read {thread : τ} {size number : Nat} {datagram : Datagram α}
      {rest : List (Nat × Datagram α)} {received : Received ι}
      (atThread : s.reader thread = .running (.recvfrom size (afterRecvfrom identifier size)))
      (atHead : s.pending = (number, datagram) :: rest) (measured : size = 0 ∨ 4 ≤ size)
      (returned : afterRecvfrom identifier size
        (.received (datagram.bytes.take size) datagram.address) = .ret received) :
      Did identifier s (.recvfrom thread)
        { s with pending := rest, reader := Function.update s.reader thread .idle }
        [.finished thread (some (number, datagram)) received]

theorem step_cases {identifier : α → ι} {fd : Int} {s next : Readers τ α ι}
    {action : Action τ α} {emitted : List (Event τ α ι)} (sound : Sound identifier s)
    (stepped : step identifier fd s action = some (next, emitted)) :
    Did identifier s action next emitted := by
  have resumed : ∀ {thread program}, some (s.resume thread none program) = some (next, emitted) →
      NotOvertaken s action → Continues identifier program →
      Did identifier s action next emitted := by
    intro thread program same harmless continues
    have did : Did identifier s action (s.resume thread none program).1
        (s.resume thread none program).2 := .resumed harmless continues
    rw [Option.some.inj same] at did
    exact did
  cases action with
  | arrive datagram =>
      cases stepped
      exact .arrived datagram
  | call thread timeoutMs =>
      simp only [step] at stepped
      split at stepped
      · exact resumed stepped trivial (continues_socketReceive identifier fd timeoutMs)
      · cases stepped
  | poll thread result =>
      have standing := sound.standing thread
      simp only [step] at stepped
      split at stepped
      · rename_i timeoutMs follow atThread
        rw [atThread] at standing
        cases standing
        split at stepped
        · exact resumed stepped trivial (continues_afterPoll identifier result)
        · cases stepped
      · cases stepped
  | fionread thread =>
      have standing := sound.standing thread
      simp only [step] at stepped
      split at stepped
      · rename_i follow atThread
        rw [atThread] at standing
        cases standing
        exact resumed stepped trivial
          (continues_afterFionread identifier (headSize_measured sound.sized))
      · cases stepped
  | recvfromFails thread errno =>
      have standing := sound.standing thread
      simp only [step] at stepped
      split at stepped
      · rename_i size follow atThread
        rw [atThread] at standing
        cases standing
        exact resumed stepped trivial (continues_failed identifier size errno)
      · cases stepped
  | recvfrom thread =>
      have standing := sound.standing thread
      simp only [step] at stepped
      split at stepped
      · rename_i size follow number datagram rest atThread atHead
        rw [atThread] at standing
        cases standing with
        | reading _ measured =>
            have sized := sound.sized (number, datagram) (by rw [atHead]; exact List.mem_cons_self)
            obtain ⟨received, returned, -⟩ :=
              read_whole_iff identifier thread number measured sized
            rw [returned] at stepped
            cases stepped
            exact .read atThread atHead measured returned
      · cases stepped

def SizedAction : Action τ α → Prop
  | .arrive datagram => 4 ≤ datagram.bytes.length
  | _ => True

theorem did_whole_iff {identifier : α → ι} {s next : Readers τ α ι} {action : Action τ α}
    {emitted : List (Event τ α ι)} (sound : Sound identifier s) (allowed : SizedAction action)
    (did : Did identifier s action next emitted) :
    Sound identifier next ∧
      ((∀ event ∈ emitted, Whole identifier event) ↔ NotOvertaken s action) := by
  cases did with
  | arrived datagram =>
      refine ⟨⟨sound.standing, ?_⟩, iff_of_true ?_ trivial⟩
      · intro entry member
        rcases List.mem_append.mp member with before | now
        · exact sound.sized entry before
        · obtain rfl := List.mem_singleton.mp now
          exact allowed
      · rw [List.forall_mem_singleton]
        trivial
  | @resumed _ thread program harmless continues =>
      obtain ⟨soundNext, whole⟩ := sound.resume thread continues
      exact ⟨soundNext, iff_of_true whole harmless⟩
  | @read thread size number datagram rest received atThread atHead measured returned =>
      have sized := sound.sized
      rw [atHead] at sized
      have soundRest : Sound identifier { s with pending := rest } :=
        ⟨sound.standing, fun entry member => sized entry (List.mem_cons_of_mem _ member)⟩
      obtain ⟨received', returned', whole⟩ := read_whole_iff identifier thread number measured
        (sized (number, datagram) List.mem_cons_self)
      rw [returned] at returned'
      obtain rfl : received = received' := by injection returned'
      refine ⟨soundRest.update thread .idle, ?_⟩
      rw [List.forall_mem_singleton, whole]
      constructor
      · intro fits size' next' number' datagram' rest' atThread' atHead'
        rw [atThread] at atThread'
        rw [atHead] at atHead'
        cases atThread'
        cases atHead'
        exact fits
      · intro bounded
        exact bounded _ _ _ _ _ atThread atHead

/-- The consumed datagrams, in order, followed by the pending ones are the
arrived ones, and these are numbered by their arrival. -/
structure Accounted (s : Readers τ α ι) (events : List (Event τ α ι)) : Prop where
  kept : consumed events ++ s.pending = sent events
  numbered : (sent events).map Prod.fst = List.range s.arrived

theorem Accounted.did {identifier : α → ι} {s next : Readers τ α ι} {action : Action τ α}
    {events emitted : List (Event τ α ι)} (accounted : Accounted s events)
    (did : Did identifier s action next emitted) : Accounted next (events ++ emitted) := by
  have split : consumed (events ++ emitted) = consumed events ++ consumed emitted ∧
      sent (events ++ emitted) = sent events ++ sent emitted :=
    ⟨List.filterMap_append .., List.filterMap_append ..⟩
  constructor
  · rw [split.1, split.2, ← accounted.kept]
    cases did with
    | arrived datagram => simp [consumed, sent]
    | @resumed _ thread program harmless continues =>
        cases program <;> simp [resume, consumed, sent]
    | read atThread atHead measured returned => simp [consumed, sent, atHead]
  · rw [split.2, List.map_append, accounted.numbered]
    cases did with
    | arrived datagram => simp [sent, List.range_succ]
    | @resumed _ thread program harmless continues =>
        cases program <;> simp [resume, sent]
    | read atThread atHead measured returned => simp [sent]

/-- Readers of one open socket.  Every datagram is consumed at most once and in
order.  Every call gives back whole the one datagram it consumed, or reports a
negative result, exactly in the runs in which no read finds a longer datagram at
the head than its `FIONREAD` measured. -/
theorem receive_whole_iff_not_overtaken {identifier : α → ι} {fd : Int}
    {actions : List (Action τ α)} {s : Readers τ α ι} {events : List (Event τ α ι)}
    (sized : ∀ action ∈ actions, SizedAction action)
    (ran : (machine identifier fd).run initial actions = some (s, events)) :
    (consumed events ++ s.pending = sent events ∧
      (sent events).map Prod.fst = List.range s.arrived) ∧
    ((∀ event ∈ events, Whole identifier event) ↔
      (machine identifier fd).Along NotOvertaken initial actions) := by
  have soundInitially : Sound identifier (initial : Readers τ α ι) := ⟨fun _ => .idle, nofun⟩
  constructor
  · have held := (machine identifier fd).run_invariant_within
      (motive := fun _ events s => Sound identifier s ∧ Accounted s events)
      ⟨soundInitially, rfl, rfl⟩ ?_ sized ran
    · exact ⟨held.2.kept, held.2.numbered⟩
    · intro _ _ _ _ _ _ _ held allowed stepped
      have did := step_cases held.1 stepped
      exact ⟨(did_whole_iff held.1 allowed did).1, held.2.did did⟩
  · refine (machine identifier fd).good_iff_along ?_ soundInitially sized ran
    intro _ _ _ _ sound allowed stepped
    have did := step_cases sound stepped
    exact did_whole_iff sound allowed did

theorem receive_whole_iff_not_overtaken_two_readers :
    ∃ (s : Readers Bool SockaddrIn PortInfo) (events : List (Event Bool SockaddrIn PortInfo)),
      s.pending = [] ∧ consumed events ++ s.pending = sent events := by
  refine ⟨_, _, rfl, (@receive_whole_iff_not_overtaken Bool SockaddrIn PortInfo _
    UdpSocket.identifier 3
    [.arrive ⟨[0, 0, 0, 7], ⟨(127, 0, 0, 1), (0, 9)⟩⟩, .call true (-1), .call false 0,
      .poll true .ready, .fionread true, .recvfrom true, .poll false .timedOut,
      .arrive ⟨[0, 0, 0, 8, 1], ⟨(127, 0, 0, 1), (0, 9)⟩⟩, .call true (-1),
      .poll true .ready, .fionread true, .recvfrom true] _ _ ?_ rfl).1.1⟩
  simp [SizedAction]

/-- Both readers measure the short datagram; the one that comes second reads the
head of a longer one into its four bytes. -/
theorem concurrent_receive_tears :
    ∃ (s : Readers Bool SockaddrIn PortInfo) (events : List (Event Bool SockaddrIn PortInfo)),
      (machine UdpSocket.identifier 3).run initial
        [.arrive ⟨[0, 0, 0, 7], ⟨(127, 0, 0, 1), (0, 9)⟩⟩, .call true (-1), .call false (-1),
          .poll true .ready, .poll false .ready, .fionread true, .fionread false,
          .recvfrom true,
          .arrive ⟨[0, 0, 0, 8, 1, 2, 3, 4], ⟨(127, 0, 0, 1), (0, 9)⟩⟩,
          .recvfrom false] = some (s, events) ∧
      (sent events).map (fun entry => entry.2.bytes.length) = [4, 8] ∧
      events.getLast? = some (.finished false
        (some (1, ⟨[0, 0, 0, 8, 1, 2, 3, 4], ⟨(127, 0, 0, 1), (0, 9)⟩⟩))
        { result := 4,
          stored := some (⟨8, []⟩, UdpSocket.identifier ⟨(127, 0, 0, 1), (0, 9)⟩) }) ∧
      ¬ ∀ event ∈ events, Whole UdpSocket.identifier event := by
  refine ⟨_, _, rfl, rfl, rfl, ?_⟩
  intro whole
  rcases whole _ (List.mem_of_getLast? rfl) with ⟨negative, -⟩ | ⟨length, -⟩
  · exact absurd negative (by decide)
  · exact absurd length (by decide)

end Readers

end LinxIpc.Socket
