import LinxIpc.Server.Agreement

/-!
A server that was never started, against the simple server.

`receive` waits on the queue, whether or not a worker fills it.  Without a worker
the queue stays empty, and what arrives stays in the socket.
-/

namespace LinxIpc.Server

variable {κ α ι : Type}

open Queue (returnedBy)
open Queue.Threads (Evaluates)

/-! ### Waiting on an empty queue -/

def Waits (args : Queue.Get ι) (pc : Queue.Pc ι) : Prop :=
  pc = .locking (.get args) ∨ pc = .asleep args ∨ pc = .woken args

theorem Waits.notified {args : Queue.Get ι} {pc : Queue.Pc ι} (waits : Waits args pc) :
    Waits args pc.notified := by
  rcases waits with rfl | rfl | rfl
  · exact .inl rfl
  · exact .inr (.inr rfl)
  · exact .inr (.inr rfl)

theorem Waits.unique {args others : Queue.Get ι} {pc : Queue.Pc ι} (waits : Waits args pc)
    (also : Waits others pc) : others = args := by
  rcases waits with rfl | rfl | rfl <;> rcases also with same | same | same <;> cases same <;> rfl

theorem Waits.evaluates {args others : Queue.Get ι} {pc : Queue.Pc ι} (waits : Waits args pc)
    (ready : Evaluates pc others) : others = args ∧ pc ≠ .expired others := by
  rcases ready with locking | woken | expired
  · refine ⟨waits.unique (.inl locking), ?_⟩
    rw [locking]
    exact nofun
  · refine ⟨waits.unique (.inr (.inr woken)), ?_⟩
    rw [woken]
    exact nofun
  · rcases waits with same | same | same <;> rw [expired] at same <;> cases same

theorem Waits.pending {args : Queue.Get ι} {pc : Queue.Pc ι} (waits : Waits args pc) :
    pc ≠ .idle ∧ (∀ result, pc ≠ .returning result) ∧ (∀ result, pc ≠ .notifying result) ∧
      ∀ call, pc = .locking call → call = .get args := by
  rcases waits with rfl | rfl | rfl
  · refine ⟨nofun, nofun, nofun, fun call same => ?_⟩
    injection same with same
    exact same.symm
  · exact ⟨nofun, nofun, nofun, nofun⟩
  · exact ⟨nofun, nofun, nofun, nofun⟩

variable [DecidableEq κ] [BEq ι]

theorem Waits.did {q next : Queue.Threads (Role κ) ι} {action : Queue.Action (Role κ) ι}
    {events : List (Queue.Event (Role κ) ι)} {role : Role κ} {args : Queue.Get ι}
    (waits : Waits args (q.pc role)) (infinite : args.timeoutMs = infiniteTimeout)
    (empty : q.shared.queue = []) (running : q.shared.stopped = false)
    (did : Queue.Threads.Did q action next events) : Waits args (next.pc role) := by
  obtain ⟨busy, notReturning, notNotifying, onlyGet⟩ := waits.pending
  by_cases own : role = action.thread
  · subst own
    cases did with
    | invoked ready => exact absurd ready busy
    | added ready computed => cases onlyGet _ ready
    | @got role others msg shared ready computed may =>
        obtain ⟨rfl, early⟩ := waits.evaluates ready
        exfalso
        rcases may with found | immediate | expired | stopped
        · have missing := (q.shared.findMessage_spec others.sigsel others.sender).1
          rw [computed, empty] at missing
          obtain rfl : msg = none := missing
          cases found
        · rw [infinite] at immediate
          cases immediate
        · exact early expired
        · rw [running] at stopped
          cases stopped
    | slept ready missing still =>
        obtain ⟨rfl, -⟩ := waits.evaluates ready
        exact .inr (.inl (Function.update_self ..))
    | cleared ready | stopped ready => cases onlyGet _ ready
    | notified ready => exact absurd ready (notNotifying _)
    | @woke role others ready =>
        obtain rfl : others = args := waits.unique (.inr (.inl ready))
        exact .inr (.inr (Function.update_self ..))
    | @timedOut role others ready limited =>
        obtain rfl : others = args := waits.unique (.inr ready)
        exact absurd infinite limited
    | returned ready => exact absurd ready (notReturning _)
  · rcases Queue.Threads.did_frame did own with same | notified
    · rw [same]
      exact waits
    · rw [notified]
      exact waits.notified

theorem Waits.returnedBy {q next : Queue.Threads (Role κ) ι} {action : Queue.Action (Role κ) ι}
    {events : List (Queue.Event (Role κ) ι)} {role : Role κ} {args : Queue.Get ι}
    (waits : Waits args (q.pc role)) (did : Queue.Threads.Did q action next events) :
    Queue.returnedBy role events = [] := by
  refine List.filterMap_eq_nil_iff.mpr ?_
  intro event member
  cases event with
  | returned other result =>
      by_cases same : other = role
      · subst same
        exact absurd (Queue.Threads.did_returned did member).2 (waits.pending.2.1 result)
      · exact if_neg same
  | invoked | removed | committed => rfl

namespace State

/-! ### Without a worker -/

/-- Never started: no worker, and a queue that is empty and runs. -/
structure Dormant (s : State κ α ι) : Prop where
  sound : Sound s
  joinable : s.joinable = false
  idle : s.control = .idle
  opened : s.opened = true
  running : s.queue.shared.stopped = false
  empty : s.queue.shared.queue = []

omit [DecidableEq κ] [BEq ι] in
theorem dormant_create (efd : LinxEventFd) (size : Int32) :
    Dormant (create (κ := κ) (α := α) (ι := ι) efd size) :=
  ⟨sound_create efd size, rfl, rfl, rfl, rfl, rfl⟩

omit [DecidableEq κ] [BEq ι] in
theorem Dormant.absent {s : State κ α ι} (dormant : Dormant s) : s.worker = .absent :=
  dormant.sound.absent.mp dormant.joinable

theorem Dormant.queue {s : State κ α ι} {action : Queue.Action (Role κ) ι}
    {queue : Queue.Threads (Role κ) ι} {events : List (Queue.Event (Role κ) ι)}
    (dormant : Dormant s) (allowed : QueueAction action = true)
    (did : Queue.Threads.Did s.queue action queue events) :
    queue.shared.queue = [] ∧ queue.shared.stopped = false ∧
      workerAfter s.worker action = .absent ∧ controlAfter s.control action = .idle := by
  have noWorker := dormant.absent
  refine ⟨?_, ?_, ?_, ?_⟩
  · cases did with
    | invoked | slept | notified | woke | timedOut | returned => exact dormant.empty
    | @added role msg result kept shared ready computed =>
        have calling := dormant.sound.calling ready
        cases role with
        | worker =>
            have adding : s.worker = .adding := calling
            rw [noWorker] at adding
            cases adding
        | control | consumer => cases calling
    | @got role args msg shared ready computed may =>
        have erased := (s.queue.shared.findMessage_spec args.sigsel args.sender).2
        rw [computed, dormant.empty] at erased
        exact erased
    | cleared | stopped => rfl
  · rcases Queue.Threads.did_stopped did with ⟨same, -⟩ | ⟨role, -, stops, -⟩
    · rw [same]
      exact dormant.running
    · have closed := dormant.sound.stop_closed stops
      rw [dormant.opened] at closed
      cases closed
  · have quiet := dormant.sound.workerIdle (by rw [noWorker]; exact nofun)
    rcases role_moves allowed did .worker nofun with ⟨-, ⟨result, returning⟩, -⟩ | ⟨inside, -⟩
    · rw [quiet] at returning
      cases returning
    · rw [workerAfter_of_ne s.worker inside]
      exact noWorker
  · have quiet := dormant.sound.controlIdle (by rw [dormant.idle]; exact nofun)
    rcases role_moves allowed did .control nofun with ⟨-, ⟨result, returning⟩, -⟩ | ⟨inside, -⟩
    · rw [quiet] at returning
      cases returning
    · rw [controlAfter_of_ne s.control inside]
      exact dormant.idle

def StillWaits (s : State κ α ι) (role : Role κ) (args : Queue.Get ι)
    (emitted : List (Event κ α ι)) : Prop :=
  Waits args (s.queue.pc role) ∧ returnedBy role (queueEvents emitted) = []

theorem Dormant.did {identifier : α → ι} {s next : State κ α ι} {action : Action κ α ι}
    {emitted : List (Event κ α ι)} (dormant : Dormant s) (unstarted : action ≠ .start)
    (did : Did identifier s action next emitted) :
    Dormant next ∧ next.inbox = s.inbox ++ arrivals emitted ∧ ponged emitted = [] ∧
      ∀ role args, args.timeoutMs = infiniteTimeout → Waits args (s.queue.pc role) →
        StillWaits next role args emitted := by
  have noWorker := dormant.absent
  have sound := dormant.sound.did did
  cases did with
  | arrived datagram opened =>
      exact ⟨{ dormant with sound := sound }, rfl, rfl, fun _ _ _ waits => ⟨waits, rfl⟩⟩
  | left receiving | pinged receiving | offered receiving | failed receiving =>
      rw [noWorker] at receiving
      cases receiving
  | answered answering =>
      rw [noWorker] at answering
      cases answering
  | @queue action queue events allowed stepped =>
      have moved := Queue.Threads.step_cases stepped
      obtain ⟨empty, running, absent, idle⟩ := dormant.queue allowed moved
      obtain ⟨nothing, -, -⟩ := queue_logs (α := α) allowed moved
      refine ⟨⟨sound, dormant.joinable, idle, dormant.opened, running, empty⟩, ?_, ?_, ?_⟩
      · rw [nothing, List.append_nil]
      · rw [ponged, List.filterMap_map]
        exact List.filterMap_eq_nil_iff.mpr (fun _ _ => rfl)
      · intro role args infinite waits
        refine ⟨waits.did infinite dormant.empty dormant.running moved, ?_⟩
        rw [queueEvents_map]
        exact waits.returnedBy moved
  | alreadyStarted | started => exact absurd rfl unstarted
  | stopping idle joinable quiet =>
      rw [dormant.joinable] at joinable
      cases joinable
  | notStarted idle joinable =>
      exact ⟨dormant, (List.append_nil _).symm, rfl, fun _ _ _ waits => ⟨waits, rfl⟩⟩
  | joined joining ended =>
      rw [dormant.idle] at joining
      cases joining

theorem run_dormant {identifier : α → ι} {start s : State κ α ι} {actions : List (Action κ α ι)}
    {events : List (Event κ α ι)} (dormant : Dormant start)
    (unstarted : ∀ action ∈ actions, action ≠ .start)
    (ran : (machine identifier).run start actions = some (s, events)) :
    Dormant s ∧ s.inbox = start.inbox ++ arrivals events ∧ ponged events = [] := by
  refine (machine identifier).run_invariant_within
    (motive := fun _ events s =>
      Dormant s ∧ s.inbox = start.inbox ++ arrivals events ∧ ponged events = [])
    ⟨dormant, (List.append_nil _).symm, rfl⟩ ?_ unstarted ran
  intro _ events s action next emitted _ held allowed stepped
  obtain ⟨sleeping, pending, silent⟩ := held
  obtain ⟨still, arrived, none, -⟩ := sleeping.did allowed (step_cases stepped)
  refine ⟨still, ?_, ?_⟩
  · rw [arrived, pending, (logs_append events emitted).1, List.append_assoc]
  · rw [ponged, List.filterMap_append]
    exact List.append_eq_nil_iff.mpr ⟨silent, none⟩

theorem run_waits {identifier : α → ι} {start s : State κ α ι} {actions : List (Action κ α ι)}
    {events : List (Event κ α ι)} (dormant : Dormant start)
    (unstarted : ∀ action ∈ actions, action ≠ .start)
    (ran : (machine identifier).run start actions = some (s, events)) {role : Role κ}
    {args : Queue.Get ι} (infinite : args.timeoutMs = infiniteTimeout)
    (waits : Waits args (start.queue.pc role)) : StillWaits s role args events := by
  suffices both : Dormant s ∧ StillWaits s role args events from both.2
  refine (machine identifier).run_invariant_within
    (motive := fun _ events s => Dormant s ∧ StillWaits s role args events)
    ⟨dormant, waits, rfl⟩ ?_ unstarted ran
  intro _ events s action next emitted _ held allowed stepped
  obtain ⟨sleeping, inside, silent⟩ := held
  obtain ⟨still, -, -, waiting⟩ := sleeping.did allowed (step_cases stepped)
  obtain ⟨later, none⟩ := waiting role args infinite inside
  refine ⟨still, later, ?_⟩
  rw [queueEvents, List.filterMap_append, returnedBy, List.filterMap_append]
  exact List.append_eq_nil_iff.mpr ⟨silent, none⟩

/-! ### Against the simple server -/

def Quiet : Action κ α ι → Prop
  | .start | .arrive _ => False
  | _ => True

theorem did_arrivals {identifier : α → ι} {s next : State κ α ι} {action : Action κ α ι}
    {emitted : List (Event κ α ι)} (quiet : Quiet action)
    (did : Did identifier s action next emitted) : arrivals emitted = [] := by
  cases did with
  | arrived | alreadyStarted | started => exact quiet.elim
  | queue allowed stepped => exact (queue_logs allowed (Queue.Threads.step_cases stepped)).1
  | answered answering => cases s.opened <;> rfl
  | left | pinged | offered | failed | stopping | notStarted | joined => rfl

theorem run_arrivals {identifier : α → ι} {start s : State κ α ι} {actions : List (Action κ α ι)}
    {events : List (Event κ α ι)} (quiet : ∀ action ∈ actions, Quiet action)
    (ran : (machine identifier).run start actions = some (s, events)) : arrivals events = [] := by
  refine (machine identifier).run_invariant_within
    (motive := fun _ events _ => arrivals events = []) rfl ?_ quiet ran
  intro _ events s action next emitted _ none allowed stepped
  rw [(logs_append events emitted).1, none, did_arrivals allowed (step_cases stepped)]
  rfl

def Receives (identifier : α → ι) (s : State κ α ι) (consumer : κ) (args : Queue.Get ι)
    (next : State κ α ι) (events : List (Event κ α ι)) : Prop :=
  ∃ actions : List (Action κ α ι), (∀ action ∈ actions, Quiet action) ∧
    (machine identifier).run s (.queue (.call (.consumer consumer) (.get args)) :: actions) =
      some (next, events)

theorem did_call {identifier : α → ι} {s next : State κ α ι} {role : Role κ}
    {call : Queue.Call ι} {emitted : List (Event κ α ι)}
    (did : Did identifier s (.queue (.call role call)) next emitted) :
    next.queue.pc role = .locking call ∧ emitted = [.queue (.invoked role call)] := by
  cases did with
  | queue allowed stepped =>
      cases Queue.Threads.step_cases stepped with
      | invoked ready => exact ⟨Function.update_self .., rfl⟩

omit [DecidableEq κ] [BEq ι] in
theorem Quiet.unstarted {action : Action κ α ι} (quiet : Quiet action) : action ≠ .start := by
  rintro rfl
  exact quiet

theorem Dormant.receives {identifier : α → ι} {s next : State κ α ι} {consumer : κ}
    {args : Queue.Get ι} {events : List (Event κ α ι)} (dormant : Dormant s)
    (infinite : args.timeoutMs = infiniteTimeout)
    (receives : Receives identifier s consumer args next events) :
    returnedBy (.consumer consumer) (queueEvents events) = [] ∧ ponged events = [] ∧
      next.inbox = s.inbox := by
  obtain ⟨actions, quiet, ran⟩ := receives
  have quietCall : ∀ action ∈
      .queue (.call (.consumer consumer) (.get args)) :: actions, Quiet action :=
    List.forall_mem_cons.mpr ⟨trivial, quiet⟩
  obtain ⟨-, pending, silent⟩ :=
    run_dormant dormant (fun action member => (quietCall action member).unstarted) ran
  rw [run_arrivals quietCall ran, List.append_nil] at pending
  refine ⟨?_, silent, pending⟩
  obtain ⟨called, first, later, stepped, followed, rfl⟩ := (machine identifier).run_cons_inv ran
  have did : Did identifier s (.queue (.call (.consumer consumer) (.get args))) called first :=
    step_cases stepped
  obtain ⟨sleeping, -, -⟩ := dormant.did (quietCall _ List.mem_cons_self).unstarted did
  obtain ⟨locking, rfl⟩ := did_call did
  have still := run_waits sleeping (fun action member => (quiet action member).unstarted)
    followed infinite (.inl locking)
  exact still.2

theorem exists_receives (identifier : α → ι) {s : State κ α ι} {consumer : κ}
    (args : Queue.Get ι) (idle : s.queue.pc (.consumer consumer) = .idle) :
    ∃ next events, Receives identifier s consumer args next events := by
  have stepped : (machine identifier).step s (.queue (.call (.consumer consumer) (.get args))) =
      some ({ s with
        queue := s.queue.setPc (.consumer consumer) (.locking (.get args)) },
        [.queue (.invoked (.consumer consumer) (.get args))]) := by
    simp only [machine, step, QueueAction, if_true, stepQueue, step_call idle]
    rfl
  exact ⟨_, _, [], List.forall_mem_nil _, (machine identifier).run_single stepped⟩

def returns : LoopStatus (LinxReceivedMessage ι) → List (Queue.Return ι)
  | .returned msg => [.get msg]
  | .waiting | .undefined => []

/-- Some course of `receive` returns and answers what this call of the simple server
did, and leaves the socket as wanted; and no course gives anything else. -/
def Agrees (identifier : α → ι) (s : State κ α ι) (consumer : κ) (args : Queue.Get ι)
    (call : LoopRun (LinxReceivedMessage ι) ι) (wanted : List (Datagram α) → Prop) : Prop :=
  (∃ next events, Receives identifier s consumer args next events ∧
      returnedBy (.consumer consumer) (queueEvents events) = returns call.status ∧
      ponged events = call.pongs ∧ wanted next.inbox) ∧
    ∀ next events, Receives identifier s consumer args next events →
      returnedBy (.consumer consumer) (queueEvents events) <+: returns call.status ∧
        ponged events <+: call.pongs

theorem Dormant.agrees_iff {identifier : α → ι} {s : State κ α ι} {consumer : κ}
    {args : Queue.Get ι} (dormant : Dormant s) (infinite : args.timeoutMs = infiniteTimeout)
    (idle : s.queue.pc (.consumer consumer) = .idle)
    (call : LoopRun (LinxReceivedMessage ι) ι) (wanted : List (Datagram α) → Prop) :
    Agrees identifier s consumer args call wanted ↔
      returns call.status = [] ∧ call.pongs = [] ∧ wanted s.inbox := by
  constructor
  · rintro ⟨⟨next, events, receives, returned, answered, left⟩, -⟩
    obtain ⟨nothing, silent, pending⟩ := dormant.receives infinite receives
    rw [nothing] at returned
    rw [silent] at answered
    rw [pending] at left
    exact ⟨returned.symm, answered.symm, left⟩
  · rintro ⟨nothing, silent, left⟩
    constructor
    · obtain ⟨next, events, receives⟩ := exists_receives identifier args idle
      obtain ⟨noReturn, noPong, pending⟩ := dormant.receives infinite receives
      rw [nothing, silent]
      refine ⟨next, events, receives, noReturn, noPong, ?_⟩
      rw [pending]
      exact left
    · intro next events receives
      obtain ⟨noReturn, noPong, -⟩ := dormant.receives infinite receives
      rw [noReturn, noPong]
      exact ⟨List.nil_prefix, List.nil_prefix⟩

omit [DecidableEq κ] in
theorem simple_silent_iff {identifier : α → ι} {datagrams : List (Datagram α)}
    (wellFormed : ∀ datagram ∈ datagrams, WellFormed datagram) (args : Queue.Get ι)
    {passes : List (Pass ι)} (reads : Reads identifier passes datagrams) (created : Int) :
    (returns (GenericSimpleServer.receive infiniteTimeout args.sigsel args.sender created
          passes).status = [] ∧
        (GenericSimpleServer.receive infiniteTimeout args.sigsel args.sender created
          passes).pongs = [] ↔
      (messages identifier datagrams).filter args.matches = [] ∧
        pings identifier datagrams = []) ∧
      ((messages identifier datagrams).filter args.matches = [] →
        (GenericSimpleServer.receive infiniteTimeout args.sigsel args.sender created
          passes).unread = []) := by
  cases wanted : (messages identifier datagrams).filter args.matches with
  | nil =>
      obtain ⟨waiting, pongs, nothing⟩ :=
        GenericSimpleServer.receive_infinite_waits wellFormed wanted reads created
      rw [waiting, pongs, nothing]
      exact ⟨⟨fun both => ⟨rfl, both.2⟩, fun both => ⟨rfl, both.2⟩⟩, fun _ => rfl⟩
  | cons first more =>
      obtain ⟨front, back, -, returned, -, -⟩ :=
        GenericSimpleServer.receive_infinite wellFormed wanted reads created
      rw [returned]
      exact ⟨iff_of_false (fun both => by cases both.1) (fun both => by cases both.1), nofun⟩

/-- A server that nobody has started, and any datagrams pending at its socket.  Its
`receive` without a time limit agrees with the one of the simple server only if
none is pending; as to what is returned and answered, only if none of them asks
for anything. -/
theorem unstarted_receive_agrees_iff {identifier : α → ι} {efd : LinxEventFd} {size : Int32}
    {actions : List (Action κ α ι)} {s : State κ α ι} {events : List (Event κ α ι)}
    (unstarted : ∀ action ∈ actions, action ≠ .start)
    (ran : (machine identifier).run (create efd size) actions = some (s, events))
    (wellFormed : ∀ datagram ∈ s.inbox, WellFormed datagram) {consumer : κ}
    (idle : s.queue.pc (.consumer consumer) = .idle) {args : Queue.Get ι}
    (infinite : args.timeoutMs = infiniteTimeout) {passes : List (Pass ι)}
    (reads : Reads identifier passes s.inbox) (created : Int) :
    (Agrees identifier s consumer args
        (GenericSimpleServer.receive infiniteTimeout args.sigsel args.sender created passes)
        (Reads identifier (GenericSimpleServer.receive infiniteTimeout args.sigsel args.sender
          created passes).unread) ↔ s.inbox = []) ∧
      (Agrees identifier s consumer args
        (GenericSimpleServer.receive infiniteTimeout args.sigsel args.sender created passes)
        (fun _ => True) ↔
        (messages identifier s.inbox).filter args.matches = [] ∧
          pings identifier s.inbox = []) := by
  obtain ⟨dormant, -, -⟩ := run_dormant (dormant_create efd size) unstarted ran
  obtain ⟨silent, readAll⟩ := simple_silent_iff wellFormed args reads created
  rw [dormant.agrees_iff infinite idle, dormant.agrees_iff infinite idle, ← and_assoc,
    ← and_assoc, silent, and_iff_left trivial]
  refine ⟨?_, Iff.rfl⟩
  constructor
  · rintro ⟨⟨unwanted, -⟩, left⟩
    rw [readAll unwanted] at left
    exact List.map_eq_nil_iff.mp left.symm
  · intro nothing
    have unwanted : (messages identifier s.inbox).filter args.matches = [] := by
      rw [nothing]
      rfl
    refine ⟨⟨unwanted, ?_⟩, ?_⟩
    · rw [nothing]
      rfl
    · rw [readAll unwanted, nothing]
      rfl

theorem unstarted_receive_agrees_empty :
    ∃ s : State Unit SockaddrIn PortInfo, s.inbox = [] ∧
      (Agrees UdpSocket.identifier s () ⟨infiniteTimeout, [7], none⟩
          (GenericSimpleServer.receive infiniteTimeout [7] none 0 [])
          (Reads UdpSocket.identifier []) ↔ s.inbox = []) := by
  refine ⟨_, rfl, (@unstarted_receive_agrees_iff Unit SockaddrIn PortInfo _ _
    UdpSocket.identifier ⟨3, 0⟩ 100 [.stop] _ _ (by simp) rfl (List.forall_mem_nil _) () rfl
    ⟨infiniteTimeout, [7], none⟩ rfl [] rfl 0).1⟩

/-- One message is pending: the simple server returns it, and a `receive` on the
server that was not started never returns. -/
theorem unstarted_receive_ignores_socket :
    ∃ (s : State Unit SockaddrIn PortInfo) (events : List (Event Unit SockaddrIn PortInfo)),
      (machine UdpSocket.identifier).run (create ⟨3, 0⟩ 100)
        [.arrive ⟨[0, 0, 0, 7], ⟨(127, 0, 0, 1), (0, 9)⟩⟩] = some (s, events) ∧
      (GenericSimpleServer.receive infiniteTimeout [7] none 0
          [⟨0, received UdpSocket.identifier ⟨[0, 0, 0, 7], ⟨(127, 0, 0, 1), (0, 9)⟩⟩, 0⟩]).status =
        .returned (some ⟨⟨7, []⟩, some (.create (ofAscii "127.0.0.1") 9)⟩) ∧
      (∀ next later, Receives UdpSocket.identifier s () ⟨infiniteTimeout, [7], none⟩ next later →
        returnedBy (.consumer ()) (queueEvents later) = [] ∧
          next.inbox = [⟨[0, 0, 0, 7], ⟨(127, 0, 0, 1), (0, 9)⟩⟩]) ∧
      ¬ Agrees UdpSocket.identifier s () ⟨infiniteTimeout, [7], none⟩
        (GenericSimpleServer.receive infiniteTimeout [7] none 0
          [⟨0, received UdpSocket.identifier ⟨[0, 0, 0, 7], ⟨(127, 0, 0, 1), (0, 9)⟩⟩, 0⟩])
        (fun _ => True) := by
  have ran : (machine UdpSocket.identifier).run (create (κ := Unit) ⟨3, 0⟩ 100)
    [.arrive ⟨[0, 0, 0, 7], ⟨(127, 0, 0, 1), (0, 9)⟩⟩] = some (_, _) := rfl
  obtain ⟨dormant, -, -⟩ := run_dormant (dormant_create ⟨3, 0⟩ 100) (by simp) ran
  refine ⟨_, _, ran, by decide, ?_, ?_⟩
  · intro next later receives
    obtain ⟨nothing, -, pending⟩ := dormant.receives rfl receives
    exact ⟨nothing, pending⟩
  · rw [dormant.agrees_iff rfl rfl]
    rintro ⟨nothing, -, -⟩
    cases nothing

end State

end LinxIpc.Server
