import LinxIpc.Server.Roles

/-!
What the worker makes of the datagrams that arrive.

It takes them in order and hands on the output each asks for, up to the first
malformed one: there the negative result of `receive` ends its loop, and what
arrives later stays in the socket.
-/

namespace LinxIpc.Server

variable {κ α ι : Type}

def arrivals (events : List (Event κ α ι)) : List (Datagram α) :=
  events.filterMap fun
    | .arrived datagram => some datagram
    | _ => none

def consumed (events : List (Event κ α ι)) : List (Datagram α) :=
  events.filterMap fun
    | .consumed datagram => some datagram
    | _ => none

def handedOn (events : List (Event κ α ι)) : List (Output ι) :=
  events.filterMap fun
    | .sent peer => some (.answered peer)
    | .queue (.invoked .worker (.add msg)) => some (.offered msg)
    | _ => none

/-- What the worker has consumed and not yet handed on. -/
def Worker.owes : Worker ι → List (Output ι)
  | .answering peer => [.answered peer]
  | _ => []

theorem logs_append (front back : List (Event κ α ι)) :
    arrivals (front ++ back) = arrivals front ++ arrivals back ∧
      consumed (front ++ back) = consumed front ++ consumed back ∧
      handedOn (front ++ back) = handedOn front ++ handedOn back :=
  ⟨List.filterMap_append .., List.filterMap_append .., List.filterMap_append ..⟩

namespace State

structure Flow (identifier : α → ι) (s : State κ α ι) (events : List (Event κ α ι)) : Prop where
  arrived : arrivals events = consumed events ++ s.inbox
  handed : s.opened = true →
    handedOn events ++ s.worker.owes = outputs identifier (consumed events)

variable [DecidableEq κ] [BEq ι]

theorem queue_logs {s queue : Queue.Threads (Role κ) ι} {action : Queue.Action (Role κ) ι}
    {events : List (Queue.Event (Role κ) ι)} (allowed : QueueAction action = true)
    (did : Queue.Threads.Did s action queue events) :
    arrivals (events.map (Event.queue (α := α))) = [] ∧
      consumed (events.map (Event.queue (α := α))) = [] ∧
      handedOn (events.map (Event.queue (α := α))) = [] := by
  have silent : ∀ event ∈ events, ∀ msg, event ≠ .invoked .worker (.add msg) := by
    rintro event member msg rfl
    rw [Queue.Threads.did_invoked did member] at allowed
    cases allowed
  refine ⟨?_, ?_, ?_⟩
  · rw [arrivals, List.filterMap_map]
    exact List.filterMap_eq_nil_iff.mpr (fun _ _ => rfl)
  · rw [consumed, List.filterMap_map]
    exact List.filterMap_eq_nil_iff.mpr (fun _ _ => rfl)
  · rw [handedOn, List.filterMap_map, List.filterMap_eq_nil_iff]
    intro event member
    have other := silent event member
    simp only [Function.comp_apply]
    split
    · rename_i same
      cases same
    · rename_i msg same
      cases same
      exact absurd rfl (other msg)
    · rfl

theorem Sound.workerAfter_owes {s : State κ α ι} {queue : Queue.Threads (Role κ) ι}
    {action : Queue.Action (Role κ) ι} {events : List (Queue.Event (Role κ) ι)} (sound : Sound s)
    (allowed : QueueAction action = true) (did : Queue.Threads.Did s.queue action queue events) :
    (workerAfter s.worker action).owes = s.worker.owes := by
  rcases role_moves allowed did .worker nofun with ⟨rfl, ⟨result, before⟩, -⟩ | ⟨inside, -⟩
  · by_cases adding : s.worker = .adding
    · rw [adding]
      rfl
    · rw [sound.workerIdle adding] at before
      cases before
  · rw [workerAfter_of_ne s.worker inside]

omit [DecidableEq κ] [BEq ι] in
theorem Flow.moved {identifier : α → ι} {s next : State κ α ι} {events emitted : List (Event κ α ι)}
    (flow : Flow identifier s events)
    (arrived : s.inbox ++ arrivals emitted = consumed emitted ++ next.inbox)
    (handed : next.opened = true → s.opened = true ∧ handedOn emitted ++ next.worker.owes =
      s.worker.owes ++ outputs identifier (consumed emitted)) :
    Flow identifier next (events ++ emitted) := by
  obtain ⟨arrivalsSplit, consumedSplit, handedSplit⟩ := logs_append events emitted
  constructor
  · rw [arrivalsSplit, consumedSplit, flow.arrived, List.append_assoc, List.append_assoc, arrived]
  · intro opened
    obtain ⟨before, balance⟩ := handed opened
    rw [handedSplit, consumedSplit, List.append_assoc, balance, ← List.append_assoc,
      flow.handed before, outputs, outputs, outputs, List.filterMap_append]

omit [DecidableEq κ] [BEq ι] in
theorem Flow.quiet {identifier : α → ι} {s next : State κ α ι} {events emitted : List (Event κ α ι)}
    (flow : Flow identifier s events) (opened : next.opened = true → s.opened = true)
    (sameInbox : next.inbox = s.inbox) (sameOwes : next.worker.owes = s.worker.owes)
    (noArrivals : arrivals emitted = []) (nothing : consumed emitted = [])
    (noOutputs : handedOn emitted = []) : Flow identifier next (events ++ emitted) := by
  refine flow.moved ?_ ?_
  · rw [noArrivals, nothing, sameInbox, List.append_nil, List.nil_append]
  · intro still
    rw [noOutputs, nothing, sameOwes]
    exact ⟨opened still, (List.append_nil _).symm⟩

theorem Flow.did {identifier : α → ι} {s next : State κ α ι} {action : Action κ α ι}
    {events emitted : List (Event κ α ι)} (flow : Flow identifier s events) (sound : Sound s)
    (did : Did identifier s action next emitted) : Flow identifier next (events ++ emitted) := by
  cases did with
  | arrived datagram opened =>
      exact flow.moved rfl (fun _ => ⟨opened, (List.append_nil _).symm⟩)
  | left receiving opened atHead malformed =>
      refine flow.moved ?_ (fun _ => ⟨opened, ?_⟩)
      · rw [atHead]
        exact List.append_nil _
      · rw [receiving]
        simp [handedOn, consumed, outputs, Worker.owes, malformed]
  | pinged receiving opened atHead asked =>
      refine flow.moved ?_ (fun _ => ⟨opened, ?_⟩)
      · rw [atHead]
        exact List.append_nil _
      · rw [receiving]
        simp [handedOn, consumed, outputs, Worker.owes, asked]
  | offered receiving opened atHead asked quiet =>
      refine flow.moved ?_ (fun _ => ⟨opened, ?_⟩)
      · rw [atHead]
        exact List.append_nil _
      · rw [receiving]
        simp [handedOn, consumed, outputs, Worker.owes, asked]
  | failed receiving =>
      refine flow.quiet id rfl ?_ rfl rfl rfl
      rw [receiving]
      rfl
  | @answered peer answering =>
      by_cases opened : s.opened = true
      · rw [if_pos opened]
        refine flow.moved (List.append_nil _) (fun _ => ⟨opened, ?_⟩)
        rw [answering]
        rfl
      · refine flow.moved ?_ (fun still => absurd still opened)
        rw [if_neg opened]
        exact List.append_nil _
  | @queue action queue queueEvents allowed stepped =>
      have did := Queue.Threads.step_cases stepped
      obtain ⟨noArrivals, nothing, noOutputs⟩ := queue_logs (α := α) allowed did
      exact flow.quiet id rfl (sound.workerAfter_owes allowed did) noArrivals nothing noOutputs
  | alreadyStarted | notStarted => exact flow.quiet id rfl rfl rfl rfl rfl
  | started idle joinable =>
      refine flow.quiet id rfl ?_ rfl rfl rfl
      rw [sound.absent.mp joinable]
      rfl
  | stopping idle joinable quiet =>
      refine flow.moved (List.append_nil _) ?_
      intro opened
      cases opened
  | joined joining ended =>
      refine flow.quiet id rfl ?_ rfl rfl rfl
      rw [ended]
      rfl

theorem run_flow {identifier : α → ι} {efd : LinxEventFd} {size : Int32}
    {actions : List (Action κ α ι)} {s : State κ α ι} {events : List (Event κ α ι)}
    (ran : (machine identifier).run (create efd size) actions = some (s, events)) :
    Flow identifier s events := by
  refine (machine identifier).run_invariant
    (motive := fun _ events s => Flow identifier s events) ⟨rfl, fun _ => rfl⟩ ?_ ran
  intro actions events s action next emitted ranSoFar flow stepped
  exact flow.did (sound_reachable ⟨actions, events, ranSoFar⟩) (step_cases stepped)

/-! ### Malformed datagrams -/

/-- A turn on a well-formed datagram goes on; a worker that has left its loop did
so at the malformed datagram that it consumed last. -/
structure Health (identifier : α → ι) (s : State κ α ι) (events : List (Event κ α ι)) :
    Prop where
  opened : s.opened = true
  going : s.worker ≠ .ended → ∀ datagram ∈ consumed events, WellFormed datagram
  gone : s.worker = .ended → ∃ front last, consumed events = front ++ [last] ∧
    (∀ datagram ∈ front, WellFormed datagram) ∧ ¬ WellFormed last

def Undisturbed : Action κ α ι → Prop
  | .stop | .receiveFails => False
  | _ => True

omit [DecidableEq κ] [BEq ι] in
theorem Health.quiet {identifier : α → ι} {s next : State κ α ι}
    {events emitted : List (Event κ α ι)} (health : Health identifier s events)
    (opened : next.opened = true) (nothing : consumed emitted = [])
    (ended : next.worker = .ended ↔ s.worker = .ended) :
    Health identifier next (events ++ emitted) := by
  obtain ⟨-, consumedSplit, -⟩ := logs_append events emitted
  refine ⟨opened, ?_, ?_⟩
  · rw [consumedSplit, nothing, List.append_nil, ne_eq, ended]
    exact health.going
  · rw [consumedSplit, nothing, List.append_nil, ended]
    exact health.gone

omit [DecidableEq κ] [BEq ι] in
theorem Health.took {identifier : α → ι} {s next : State κ α ι}
    {events emitted : List (Event κ α ι)} (health : Health identifier s events)
    (receiving : s.worker = .receiving) (opened : next.opened = true) {datagram : Datagram α}
    {output : Output ι} (asked : output? identifier datagram = some output)
    (took : consumed emitted = [datagram]) (going : next.worker ≠ .ended) :
    Health identifier next (events ++ emitted) := by
  obtain ⟨-, consumedSplit, -⟩ := logs_append events emitted
  refine ⟨opened, ?_, fun ended => absurd ended going⟩
  rw [consumedSplit, took, List.forall_mem_append, List.forall_mem_singleton,
    ← output_isSome_iff identifier, asked]
  exact fun _ => ⟨health.going (by rw [receiving]; exact nofun), rfl⟩

theorem Health.did {identifier : α → ι} {s next : State κ α ι} {action : Action κ α ι}
    {events emitted : List (Event κ α ι)} (health : Health identifier s events)
    (sound : Sound s) (undisturbed : Undisturbed action)
    (did : Did identifier s action next emitted) : Health identifier next (events ++ emitted) := by
  have idle : s.control = .idle := by
    by_contra busy
    have closed := (sound.busy busy).2
    rw [health.opened] at closed
    cases closed
  cases did with
  | arrived datagram opened => exact health.quiet opened rfl Iff.rfl
  | @left datagram rest receiving opened atHead malformed =>
      obtain ⟨-, consumedSplit, -⟩ := logs_append events [.consumed datagram, .terminated]
      refine ⟨opened, fun going => absurd rfl going, fun _ => ⟨consumed events, datagram,
        consumedSplit, health.going (by rw [receiving]; exact nofun), ?_⟩⟩
      rw [← output_isSome_iff identifier, malformed]
      exact nofun
  | pinged receiving opened atHead asked => exact health.took receiving opened asked rfl nofun
  | offered receiving opened atHead asked quiet =>
      exact health.took receiving opened asked rfl nofun
  | failed receiving => exact undisturbed.elim
  | answered answering =>
      refine health.quiet health.opened ?_ (iff_of_false nofun (by rw [answering]; exact nofun))
      cases s.opened <;> rfl
  | @queue action queue queueEvents allowed stepped =>
      have did := Queue.Threads.step_cases stepped
      obtain ⟨-, nothing, -⟩ := queue_logs (α := α) allowed did
      exact health.quiet health.opened nothing (sound.workerAfter_ended allowed did)
  | alreadyStarted idle joinable => exact health.quiet health.opened rfl Iff.rfl
  | started idle joinable =>
      refine health.quiet health.opened rfl (iff_of_false nofun ?_)
      rw [sound.absent.mp joinable]
      exact nofun
  | stopping | notStarted => exact undisturbed.elim
  | joined joining ended =>
      rw [idle] at joining
      cases joining

theorem run_health {identifier : α → ι} {efd : LinxEventFd} {size : Int32}
    {actions : List (Action κ α ι)} {s : State κ α ι} {events : List (Event κ α ι)}
    (undisturbed : ∀ action ∈ actions, Undisturbed action)
    (ran : (machine identifier).run (create efd size) actions = some (s, events)) :
    Health identifier s events := by
  refine (machine identifier).run_invariant_within
    (motive := fun _ events s => Health identifier s events)
    ⟨rfl, fun _ _ member => absurd member List.not_mem_nil, fun ended => by cases ended⟩ ?_
    undisturbed ran
  intro actions events s action next emitted ranSoFar health allowed stepped
  exact health.did (sound_reachable ⟨actions, events, ranSoFar⟩) allowed (step_cases stepped)

def NoneAfterMalformed (datagrams : List (Datagram α)) : Prop :=
  ∀ front bad back, datagrams = front ++ bad :: back → ¬ WellFormed bad →
    ∀ datagram ∈ back, ¬ WellFormed datagram

omit [DecidableEq κ] [BEq ι] in
theorem noneAfterMalformed_iff {front back : List (Datagram α)} {last : Datagram α}
    (wellFormed : ∀ datagram ∈ front, WellFormed datagram) (malformed : ¬ WellFormed last) :
    NoneAfterMalformed (front ++ last :: back) ↔ ∀ datagram ∈ back, ¬ WellFormed datagram := by
  constructor
  · intro none
    exact none front last back rfl malformed
  · intro none before bad after split bad' datagram member
    -- the bad datagram stands at the first malformed one or behind it
    rcases List.append_eq_append_iff.mp split with ⟨more, -, tail⟩ | ⟨more, rfl, tail⟩
    · have placed : datagram ∈ last :: back := by
        rw [tail]
        exact List.mem_append_right _ (List.mem_cons_of_mem _ member)
      rcases List.mem_cons.mp placed with rfl | later
      · exact malformed
      · exact none datagram later
    · cases more with
      | nil =>
          obtain ⟨rfl, rfl⟩ := List.cons.inj tail
          exact none datagram member
      | cons first rest =>
          obtain ⟨rfl, -⟩ := List.cons.inj tail
          exact absurd (wellFormed bad (List.mem_append_right _ List.mem_cons_self)) bad'

omit [DecidableEq κ] [BEq ι] in
theorem outputs_append (identifier : α → ι) (front back : List (Datagram α)) :
    outputs identifier (front ++ back) = outputs identifier front ++ outputs identifier back :=
  List.filterMap_append ..

omit [DecidableEq κ] [BEq ι] in
theorem outputs_nil_iff (identifier : α → ι) (datagrams : List (Datagram α)) :
    outputs identifier datagrams = [] ↔ ∀ datagram ∈ datagrams, ¬ WellFormed datagram := by
  rw [outputs, List.filterMap_eq_nil_iff]
  constructor
  · intro none datagram member
    rw [← output_isSome_iff identifier, none datagram member]
    exact nofun
  · intro malformed datagram member
    rw [← Option.not_isSome_iff_eq_none, output_isSome_iff]
    exact malformed datagram member

omit [DecidableEq κ] [BEq ι] in
theorem outputs_filter (identifier : α → ι) (datagrams : List (Datagram α)) :
    outputs identifier (datagrams.filter (fun datagram => decide (WellFormed datagram))) =
      outputs identifier datagrams := by
  rw [outputs, outputs, List.filterMap_filter]
  refine List.filterMap_congr ?_
  intro datagram _
  by_cases wellFormed : WellFormed datagram
  · simp only [wellFormed, decide_true, if_true]
  · have none : output? identifier datagram = none := by
      rw [← Option.not_isSome_iff_eq_none, output_isSome_iff]
      exact wellFormed
    simp only [wellFormed, decide_false, Bool.false_eq_true, if_false, none]

/-- The worker has nothing more to do: it waits on an empty socket, or it has
left its loop. -/
def Quiescent (s : State κ α ι) : Prop :=
  s.worker = .ended ∨ (s.worker = .receiving ∧ s.inbox = [])

/-- A started server and datagrams of any lengths.  Once the worker has nothing
more to do, it has handed on what the well-formed datagrams alone ask for exactly
if no well-formed one arrived after a malformed one; and it still receives
exactly if none was malformed. -/
theorem malformed_datagrams_ignored_iff {identifier : α → ι} {efd : LinxEventFd} {size : Int32}
    {actions : List (Action κ α ι)} {s : State κ α ι} {events : List (Event κ α ι)}
    (undisturbed : ∀ action ∈ actions, Undisturbed action)
    (ran : (machine identifier).run (create efd size) actions = some (s, events))
    (quiescent : Quiescent s) :
    (handedOn events = outputs identifier
        ((arrivals events).filter (fun datagram => decide (WellFormed datagram))) ↔
      NoneAfterMalformed (arrivals events)) ∧
    (s.worker = .receiving ↔ ∀ datagram ∈ arrivals events, WellFormed datagram) := by
  have flow := run_flow ran
  have health := run_health undisturbed ran
  have handed := flow.handed health.opened
  rw [outputs_filter, flow.arrived]
  rcases quiescent with ended | ⟨receiving, empty⟩
  · obtain ⟨front, last, took, wellFormed, malformed⟩ := health.gone ended
    have silent : outputs identifier [last] = [] := by
      rw [outputs_nil_iff, List.forall_mem_singleton]
      exact malformed
    have handedFront : handedOn events = outputs identifier front := by
      rw [ended, took, outputs_append, silent, List.append_nil] at handed
      exact (List.append_nil _).symm.trans handed
    constructor
    · have split : outputs identifier (front ++ [last] ++ s.inbox) =
          outputs identifier front ++ outputs identifier s.inbox := by
        rw [outputs_append, outputs_append, silent, List.append_nil]
      rw [handedFront, took, split, List.append_assoc, List.singleton_append,
        noneAfterMalformed_iff wellFormed malformed, ← outputs_nil_iff identifier]
      exact List.self_eq_append_right
    · rw [ended, took]
      refine iff_of_false nofun ?_
      intro all
      exact malformed (all last (by simp))
  · have wellFormed := health.going (by rw [receiving]; exact nofun)
    rw [receiving] at handed
    rw [empty, List.append_nil]
    refine ⟨iff_of_true ?_ ?_, iff_of_true receiving wellFormed⟩
    · simpa [Worker.owes] using handed
    · intro front bad back split malformed
      rw [split] at wellFormed
      exact absurd (wellFormed bad (by simp)) malformed

theorem malformed_datagrams_ignored_iff_malformed_last :
    ∃ (s : State Unit SockaddrIn PortInfo) (events : List (Event Unit SockaddrIn PortInfo)),
      s.worker = .ended ∧ (arrivals events).length = 3 ∧
      ((handedOn events = outputs UdpSocket.identifier
          ((arrivals events).filter (fun datagram => decide (WellFormed datagram))) ↔
        NoneAfterMalformed (arrivals events)) ∧
      (s.worker = .receiving ↔ ∀ datagram ∈ arrivals events, WellFormed datagram)) := by
  refine ⟨_, _, rfl, rfl, @malformed_datagrams_ignored_iff Unit SockaddrIn PortInfo _ _
    UdpSocket.identifier ⟨3, 0⟩ 1
    [.start, .arrive ⟨[0, 0, 0, 1], ⟨(127, 0, 0, 1), (0, 9)⟩⟩, .receive, .answer,
      .arrive ⟨[0, 0, 0, 7], ⟨(127, 0, 0, 1), (0, 9)⟩⟩, .receive, .queue (.lock .worker),
      .queue (.notify .worker), .queue (.ret .worker),
      .arrive ⟨[], ⟨(127, 0, 0, 1), (0, 9)⟩⟩, .receive] _ _ ?_ rfl (.inl rfl)⟩
  simp [Undisturbed]

/-- An empty datagram ends the worker, and the ping behind it is never answered. -/
theorem empty_datagram_ends_worker :
    ∃ (s : State Unit SockaddrIn PortInfo) (events : List (Event Unit SockaddrIn PortInfo)),
      (machine UdpSocket.identifier).run (create ⟨3, 0⟩ 1)
        [.start, .arrive ⟨[], ⟨(127, 0, 0, 1), (0, 9)⟩⟩,
          .arrive ⟨[0, 0, 0, 1], ⟨(127, 0, 0, 1), (0, 9)⟩⟩, .receive] = some (s, events) ∧
      Quiescent s ∧ s.worker = .ended ∧ handedOn events = [] ∧
      outputs UdpSocket.identifier
          ((arrivals events).filter (fun datagram => decide (WellFormed datagram))) =
        [.answered (UdpSocket.identifier ⟨(127, 0, 0, 1), (0, 9)⟩)] :=
  ⟨_, _, rfl, .inl rfl, rfl, rfl, rfl⟩

end State

end LinxIpc.Server
