import LinxIpc.Server.Roles

/-!
What a `start` that returned true is worth.

`start` looks only at the worker thread: it returns true while that is joinable,
whether or not it still runs, and it reopens neither the socket that `stop`
closed nor the queue that it stopped.
-/

namespace LinxIpc.Server

variable {κ α ι : Type}

namespace State

structure Course (s : State κ α ι) (events : List (Event κ α ι)) : Prop where
  closed : s.opened = false ↔ .stopping ∈ events
  ended : s.worker = .ended → .terminated ∈ events
  terminated : .terminated ∈ events → s.worker = .ended ∨ s.opened = false

theorem course_create (efd : LinxEventFd) (size : Int32) :
    Course (create (κ := κ) (α := α) (ι := ι) efd size) [] :=
  ⟨⟨nofun, nofun⟩, nofun, nofun⟩

theorem Course.quiet {s next : State κ α ι} {events emitted : List (Event κ α ι)}
    (course : Course s events) (opened : next.opened = s.opened)
    (ended : next.worker = .ended ↔ s.worker = .ended)
    (silent : .stopping ∉ emitted ∧ .terminated ∉ emitted) : Course next (events ++ emitted) := by
  constructor
  · rw [opened, course.closed, List.mem_append, or_iff_left silent.1]
  · intro isEnded
    exact List.mem_append_left _ (course.ended (ended.mp isEnded))
  · rw [List.mem_append, or_iff_left silent.2, ended, opened]
    exact course.terminated

theorem Course.left {s next : State κ α ι} {events emitted : List (Event κ α ι)}
    (course : Course s events) (opened : next.opened = s.opened) (ended : next.worker = .ended)
    (told : .stopping ∉ emitted ∧ .terminated ∈ emitted) : Course next (events ++ emitted) := by
  constructor
  · rw [opened, course.closed, List.mem_append, or_iff_left told.1]
  · intro _
    exact List.mem_append_right _ told.2
  · intro _
    exact .inl ended

theorem queue_silent (events : List (Queue.Event (Role κ) ι)) :
    (Event.stopping : Event κ α ι) ∉ events.map .queue ∧
      (Event.terminated : Event κ α ι) ∉ events.map .queue := by
  constructor <;> intro member <;> obtain ⟨event, -, same⟩ := List.mem_map.mp member <;> cases same

variable [DecidableEq κ] [BEq ι]

/-- The worker loop runs on an open socket, so it takes the next well-formed
datagram and goes on; and a `receive` without a time limit waits on an empty
queue. -/
structure Serving (identifier : α → ι) (s : State κ α ι) : Prop where
  running : s.worker ≠ .absent ∧ s.worker ≠ .ended
  opened : s.opened = true
  takes : ∀ datagram rest, s.worker = .receiving → s.inbox = datagram :: rest →
    WellFormed datagram → ∃ next output emitted,
      step identifier s .receive = some (next, .consumed datagram :: emitted) ∧
      output? identifier datagram = some output ∧
      (next.worker = .adding ∨ ∃ peer, next.worker = .answering peer)
  waits : s.queue.shared.queue = [] → ∀ role args, args.timeoutMs = infiniteTimeout →
    s.queue.pc role = .locking (.get args) → ∃ next,
      s.queue.step (.lock role) = some (next, []) ∧ next.pc role = .asleep args

theorem Sound.takes {identifier : α → ι} {s : State κ α ι} (sound : Sound s)
    (opened : s.opened = true) {datagram : Datagram α} {rest : List (Datagram α)}
    (receiving : s.worker = .receiving) (atHead : s.inbox = datagram :: rest)
    (wellFormed : WellFormed datagram) :
    ∃ next output emitted,
      step identifier s .receive = some (next, .consumed datagram :: emitted) ∧
      output? identifier datagram = some output ∧
      (next.worker = .adding ∨ ∃ peer, next.worker = .answering peer) := by
  have quiet := sound.workerIdle (by rw [receiving]; exact nofun)
  obtain ⟨turn, output, taken, stays, -, asked⟩ := taskTurn_wellFormed identifier wellFormed
  cases turn with
  | leave => exact absurd rfl stays
  | answer peer =>
      refine ⟨{ s with inbox := rest, worker := .answering peer }, output, [], ?_, asked,
        .inr ⟨peer, rfl⟩⟩
      simp only [step, receiving, opened, atHead, runTurn, taken]
  | offer msg =>
      refine ⟨{ s with
        inbox := rest, worker := .adding
        queue := s.queue.setPc .worker (.locking (.add msg)) }, output,
        [.queue (.invoked .worker (.add msg))], ?_, asked, .inl rfl⟩
      simp only [step, receiving, opened, atHead, runTurn, taken, stepQueue, step_call quiet]
      rfl

theorem lock_waits {q : Queue.Threads (Role κ) ι} (running : q.shared.stopped = false)
    (empty : q.shared.queue = []) {role : Role κ} {args : Queue.Get ι}
    (infinite : args.timeoutMs = infiniteTimeout) (called : q.pc role = .locking (.get args)) :
    ∃ next, q.step (.lock role) = some (next, []) ∧ next.pc role = .asleep args := by
  have missing : q.shared.findMessage args.sigsel args.sender = (none, q.shared) := by
    apply LinxQueue.findMessage_absent
    rw [empty]
    rfl
  have limitless : args.timeoutMs ≠ immediateTimeout := by
    rw [infinite]
    decide
  refine ⟨q.leave q.shared role (.asleep args), ?_, Function.update_self ..⟩
  simp only [Queue.Threads.step, Queue.Threads.lockSection, called, if_neg limitless,
    Queue.Threads.lockWait, LinxQueue.waitPredicate, missing, running, Option.isSome_none,
    Bool.or_false, Bool.false_eq_true, if_false]
  rfl

theorem Course.did {identifier : α → ι} {s next : State κ α ι} {action : Action κ α ι}
    {events emitted : List (Event κ α ι)} (course : Course s events) (sound : Sound s)
    (did : Did identifier s action next emitted) : Course next (events ++ emitted) := by
  cases did with
  | arrived | alreadyStarted | notStarted => exact course.quiet rfl Iff.rfl (by simp)
  | left receiving opened atHead malformed => exact course.left rfl rfl (by simp)
  | failed receiving => exact course.left rfl rfl (by simp)
  | pinged receiving | offered receiving =>
      exact course.quiet rfl (iff_of_false nofun (by rw [receiving]; exact nofun)) (by simp)
  | answered answering =>
      refine course.quiet rfl (iff_of_false nofun (by rw [answering]; exact nofun)) ?_
      cases s.opened <;> simp
  | queue allowed stepped =>
      refine course.quiet rfl ?_ (queue_silent _)
      exact sound.workerAfter_ended allowed (Queue.Threads.step_cases stepped)
  | started idle joinable =>
      refine course.quiet rfl (iff_of_false nofun ?_) (by simp)
      rw [sound.absent.mp joinable]
      exact nofun
  | stopping idle joinable quiet =>
      exact ⟨iff_of_true rfl (by simp), fun ended => List.mem_append_left _ (course.ended ended),
        fun _ => .inr rfl⟩
  | joined joining ended =>
      have closed := (sound.busy (by rw [joining]; exact nofun)).2
      refine ⟨?_, nofun, fun _ => .inr closed⟩
      simpa using course.closed

theorem run_course {identifier : α → ι} {efd : LinxEventFd} {size : Int32}
    {actions : List (Action κ α ι)} {s : State κ α ι} {events : List (Event κ α ι)}
    (ran : (machine identifier).run (create efd size) actions = some (s, events)) :
    Course s events := by
  refine (machine identifier).run_invariant
    (motive := fun _ events s => Course s events) (course_create efd size) ?_ ran
  intro actions events s action next emitted ranSoFar course stepped
  exact course.did (sound_reachable ⟨actions, events, ranSoFar⟩) (step_cases stepped)

/-! ### After `start` -/

theorem run_joinable {identifier : α → ι} {s last : State κ α ι} {after : List (Action κ α ι)}
    {events : List (Event κ α ι)} (sound : Sound s)
    (started : s.control = .idle ∧ s.joinable = true) (noStop : ∀ action ∈ after, action ≠ .stop)
    (ran : (machine identifier).run s after = some (last, events)) : last.joinable = true := by
  suffices all : Sound last ∧ last.control = .idle ∧ last.joinable = true from all.2.2
  refine (machine identifier).run_invariant_within
    (motive := fun _ _ s => Sound s ∧ s.control = .idle ∧ s.joinable = true)
    ⟨sound, started⟩ ?_ noStop ran
  intro _ _ s action next emitted _ held running stepped
  obtain ⟨sound, idle, joinable⟩ := held
  have did := step_cases stepped
  refine ⟨sound.did did, ?_⟩
  cases did with
  | stopping | notStarted => exact absurd rfl running
  | joined joining ended =>
      rw [idle] at joining
      cases joining
  | started => exact ⟨idle, rfl⟩
  | @queue action queue events allowed moved =>
      refine ⟨?_, joinable⟩
      have quiet := sound.controlIdle (by rw [idle]; exact nofun)
      rcases role_moves allowed (Queue.Threads.step_cases moved) .control nofun with
        ⟨-, ⟨result, returning⟩, -⟩ | ⟨inside, -⟩
      · rw [quiet] at returning
        cases returning
      · exact (controlAfter_of_ne s.control inside).trans idle
  | arrived | left | pinged | offered | failed | answered | alreadyStarted => exact ⟨idle, joinable⟩

/-- Whenever `start` has returned true and `stop` was not called since, the server
serves exactly if no worker has terminated and no worker was ever stopped. -/
theorem started_serves_iff {identifier : α → ι} {efd : LinxEventFd} {size : Int32}
    {before after : List (Action κ α ι)} {s : State κ α ι} {events : List (Event κ α ι)}
    (ran : (machine identifier).run (create efd size) (before ++ .start :: after) =
      some (s, events))
    (noStop : ∀ action ∈ after, action ≠ .stop) :
    Serving identifier s ↔ .terminated ∉ events ∧ .stopping ∉ events := by
  have course := run_course ran
  have sound : Sound s := sound_reachable ⟨_, _, ran⟩
  constructor
  · intro serving
    have open' : s.opened ≠ false := by
      rw [serving.opened]
      exact nofun
    refine ⟨?_, fun stopping => open' (course.closed.mpr stopping)⟩
    intro terminated
    rcases course.terminated terminated with ended | closed
    · exact serving.running.2 ended
    · exact open' closed
  · rintro ⟨notTerminated, notStopping⟩
    have opened : s.opened = true := by
      rw [← Bool.not_eq_false]
      exact fun closed => notStopping (course.closed.mp closed)
    have joinable : s.joinable = true := by
      obtain ⟨start, earlier, rest, ranBefore, ranRest, rfl⟩ :=
        (machine identifier).run_append_inv ran
      obtain ⟨first, emitted, later, stepped, ranAfter, rfl⟩ :=
        (machine identifier).run_cons_inv ranRest
      have did : Did identifier start .start first emitted := step_cases stepped
      have firstSound := (sound_reachable ⟨_, _, ranBefore⟩).did did
      refine run_joinable firstSound ?_ noStop ranAfter
      cases did with
      | alreadyStarted idle joinable => exact ⟨idle, joinable⟩
      | started idle joinable => exact ⟨idle, rfl⟩
    have running : s.queue.shared.stopped = false := by
      rw [← Bool.not_eq_true]
      intro stopped
      rw [sound.closed stopped] at opened
      cases opened
    refine ⟨⟨?_, fun ended => notTerminated (course.ended ended)⟩, opened, ?_, ?_⟩
    · intro absent
      rw [sound.absent.mpr absent] at joinable
      cases joinable
    · intro datagram rest receiving atHead wellFormed
      exact sound.takes opened receiving atHead wellFormed
    · intro empty role args infinite called
      exact lock_waits running empty infinite called

theorem started_serves_after_idle_stop :
    ∃ s : State Unit SockaddrIn PortInfo, s.worker = .adding ∧
      Serving UdpSocket.identifier s := by
  have ran : (machine UdpSocket.identifier).run (create (κ := Unit) ⟨3, 0⟩ 4)
    ([.stop] ++ .start :: [.arrive ⟨[0, 0, 0, 7], ⟨(127, 0, 0, 1), (0, 9)⟩⟩, .receive]) =
      some (_, _) := rfl
  exact ⟨_, rfl, (started_serves_iff ran (by simp)).mpr (by simp)⟩

/-- Stopped and started again: `start` returns true, the socket stays closed, and
a `receive` without a time limit returns null. -/
theorem restart_does_not_serve :
    ∃ (s : State Unit SockaddrIn PortInfo) (events : List (Event Unit SockaddrIn PortInfo)),
      (machine UdpSocket.identifier).run (create ⟨3, 0⟩ 4)
        [.start, .stop, .queue (.lock .control), .queue (.ret .control), .receiveFails, .join,
          .start, .queue (.call (.consumer ()) (.get ⟨infiniteTimeout, [], none⟩)),
          .queue (.lock (.consumer ()))] = some (s, events) ∧
      s.opened = false ∧ s.queue.shared.queue = [] ∧
      s.queue.pc (.consumer ()) = .returning (.get none) ∧
      ¬ Serving UdpSocket.identifier s := by
  refine ⟨_, _, rfl, rfl, rfl, rfl, ?_⟩
  intro serving
  cases serving.opened

end State

end LinxIpc.Server
