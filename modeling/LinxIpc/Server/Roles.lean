import LinxIpc.Server.GenericServer

/-!
Who does what on the queue of a server: the worker only adds, the control thread
only stops, consumers only get.  With this goes what `start` and `stop` keep of
the worker, the socket and the queue.
-/

namespace LinxIpc.Server

variable {κ α ι : Type}

open Queue (Pc Return)
open Queue.Threads (Goes Step)

/-! ### Program points by call -/

inductive Adds : Pc ι → Prop where
  | locking (msg : LinxReceivedMessage ι) : Adds (.locking (.add msg))
  | notifying (result : Option Int) (kept : Option (LinxReceivedMessage ι)) :
      Adds (.notifying (.add result kept))
  | returning (result : Option Int) (kept : Option (LinxReceivedMessage ι)) :
      Adds (.returning (.add result kept))

inductive Gets : Pc ι → Prop where
  | idle : Gets .idle
  | locking (args : Queue.Get ι) : Gets (.locking (.get args))
  | asleep (args : Queue.Get ι) : Gets (.asleep args)
  | woken (args : Queue.Get ι) : Gets (.woken args)
  | expired (args : Queue.Get ι) : Gets (.expired args)
  | returning (msg : Option (LinxReceivedMessage ι)) : Gets (.returning (.get msg))

theorem goes_idle {pc : Pc ι} (goes : Goes .idle pc) : pc = .idle := by
  cases goes with
  | stays => rfl
  | got ready | slept ready => rcases ready with same | same | same <;> cases same
  | timedOut ready limited => rcases ready with same | same <;> cases same

theorem goes_locking {pc : Pc ι} {call : Queue.Call ι} (goes : Goes pc (.locking call)) :
    pc = .locking call := by
  generalize atLock : Pc.locking call = after at goes
  cases goes with
  | stays => rfl
  | @added msg result kept => cases result <;> cases atLock
  | notified | got | slept | woken | timedOut | cleared | stopped => cases atLock

theorem goes_returning {pc : Pc ι} {result : Return ι} (goes : Goes (.returning result) pc) :
    pc = .returning result := by
  cases goes with
  | stays => rfl
  | got ready | slept ready => rcases ready with same | same | same <;> cases same
  | timedOut ready limited => rcases ready with same | same <;> cases same

theorem goes_stop {pc : Pc ι} (goes : Goes (.locking .stop) pc) :
    pc = .locking .stop ∨ pc = .returning .done := by
  cases goes with
  | stays => exact .inl rfl
  | stopped => exact .inr rfl
  | got ready | slept ready => rcases ready with same | same | same <;> cases same
  | timedOut ready limited => rcases ready with same | same <;> cases same

theorem Adds.goes {before after : Pc ι} (adds : Adds before) (goes : Goes before after) :
    Adds after := by
  cases goes with
  | stays => exact adds
  | @added msg result kept =>
      cases result with
      | none => exact .returning none kept
      | some code => exact .notifying (some code) kept
  | notified result =>
      cases adds
      exact .returning _ _
  | got ready | slept ready => rcases ready with rfl | rfl | rfl <;> cases adds
  | timedOut ready limited => rcases ready with rfl | rfl <;> cases adds
  | woken | cleared | stopped => cases adds

theorem Gets.goes {before after : Pc ι} (gets : Gets before) (goes : Goes before after) :
    Gets after := by
  cases goes with
  | stays => exact gets
  | added | notified | cleared | stopped => cases gets
  | got ready => exact .returning _
  | slept ready => exact .asleep _
  | woken args => exact .woken args
  | timedOut ready limited => exact .expired _

namespace State

theorem workerAfter_of_ne (worker : Worker ι) {action : Queue.Action (Role κ) ι}
    (inside : action ≠ .ret .worker) : workerAfter worker action = worker := by
  unfold workerAfter
  split
  · exact absurd rfl inside
  · rfl

theorem controlAfter_of_ne (control : Control) {action : Queue.Action (Role κ) ι}
    (inside : action ≠ .ret .control) : controlAfter control action = control := by
  unfold controlAfter
  split
  · exact absurd rfl inside
  · rfl

structure Sound (s : State κ α ι) : Prop where
  workerIdle : s.worker ≠ .adding → s.queue.pc .worker = .idle
  workerAdds : s.worker = .adding → Adds (s.queue.pc .worker)
  controlIdle : s.control ≠ .stoppingQueue → s.queue.pc .control = .idle
  controlStops : s.control = .stoppingQueue →
    s.queue.pc .control = .locking .stop ∨
      (s.queue.pc .control = .returning .done ∧ s.queue.shared.stopped = true)
  consumerGets : ∀ name, Gets (s.queue.pc (.consumer name))
  absent : s.joinable = false ↔ s.worker = .absent
  busy : s.control ≠ .idle → s.joinable = true ∧ s.opened = false
  joining : s.control = .joining → s.queue.shared.stopped = true
  closed : s.queue.shared.stopped = true → s.opened = false

theorem sound_create (efd : LinxEventFd) (size : Int32) :
    Sound (create (κ := κ) (α := α) (ι := ι) efd size) :=
  ⟨fun _ => rfl, nofun, fun _ => rfl, nofun, fun _ => .idle, ⟨fun _ => rfl, fun _ => rfl⟩,
    fun busy => absurd rfl busy, nofun, nofun⟩

/-- The calls a role makes on the queue. -/
def Calling (s : State κ α ι) : Role κ → Queue.Call ι → Prop
  | .worker, .add _ => s.worker = .adding
  | .control, .stop => s.control = .stoppingQueue
  | .consumer _, .get _ => True
  | _, _ => False

theorem Sound.calling {s : State κ α ι} (sound : Sound s) {role : Role κ} {call : Queue.Call ι}
    (called : s.queue.pc role = .locking call) : Calling s role call := by
  cases role with
  | worker =>
      by_cases adding : s.worker = .adding
      · have adds := sound.workerAdds adding
        rw [called] at adds
        cases adds
        exact adding
      · rw [sound.workerIdle adding] at called
        cases called
  | control =>
      by_cases stopping : s.control = .stoppingQueue
      · rcases sound.controlStops stopping with locking | ⟨returning, -⟩
        · rw [locking] at called
          cases called
          exact stopping
        · rw [returning] at called
          cases called
      · rw [sound.controlIdle stopping] at called
        cases called
  | consumer name =>
      have gets := sound.consumerGets name
      rw [called] at gets
      cases gets
      trivial

/-- Only `GenericServer::stop` calls `queue->stop`, and it has closed the socket before. -/
theorem Sound.stop_closed {s : State κ α ι} (sound : Sound s) {role : Role κ}
    (stops : s.queue.pc role = .locking .stop) : s.opened = false := by
  have calling := sound.calling stops
  cases role with
  | control =>
      have stopping : s.control = .stoppingQueue := calling
      exact (sound.busy (by rw [stopping]; exact nofun)).2
  | worker | consumer => cases calling

theorem Sound.control_returns {s : State κ α ι} (sound : Sound s) {result : Return ι}
    (returning : s.queue.pc .control = .returning result) :
    s.control = .stoppingQueue ∧ s.queue.shared.stopped = true := by
  by_cases stopping : s.control = .stoppingQueue
  · rcases sound.controlStops stopping with locking | ⟨-, stopped⟩
    · rw [locking] at returning
      cases returning
    · exact ⟨stopping, stopped⟩
  · rw [sound.controlIdle stopping] at returning
    cases returning

/-! ### The server's own steps -/

theorem Sound.setWorker {s : State κ α ι} (sound : Sound s) (after : Worker ι) {before : Worker ι}
    (here : s.worker = before) (outside : before ≠ .adding) (present : before ≠ .absent)
    (stays : after ≠ .adding) (remains : after ≠ .absent) :
    Sound { s with worker := after } :=
  { sound with
    workerIdle := fun _ => sound.workerIdle (by rw [here]; exact outside)
    workerAdds := fun adding => absurd adding stays
    absent := by
      refine iff_of_false ?_ remains
      intro joinable
      rw [sound.absent.mp joinable] at here
      exact present here.symm }

variable [DecidableEq κ] [BEq ι]

omit [BEq ι] in
theorem Sound.callAdd {s : State κ α ι} (sound : Sound s) (receiving : s.worker = .receiving)
    (msg : LinxReceivedMessage ι) :
    Sound { s with
      worker := .adding
      queue := s.queue.setPc .worker (.locking (.add msg)) } := by
  have others : ∀ role, role ≠ .worker →
      (s.queue.setPc .worker (.locking (.add msg))).pc role = s.queue.pc role :=
    fun role different => Function.update_of_ne different _ _
  exact { sound with
    workerIdle := fun elsewhere => absurd rfl elsewhere
    workerAdds := by
      intro _
      change Adds (Function.update s.queue.pc .worker (.locking (.add msg)) .worker)
      rw [Function.update_self]
      exact .locking msg
    controlIdle := fun elsewhere => (others .control nofun).trans (sound.controlIdle elsewhere)
    controlStops := by
      intro stopping
      change (s.queue.setPc .worker (.locking (.add msg))).pc .control = _ ∨ _
      rw [others .control nofun]
      exact sound.controlStops stopping
    consumerGets := by
      intro name
      change Gets ((s.queue.setPc .worker (.locking (.add msg))).pc (.consumer name))
      rw [others (.consumer name) nofun]
      exact sound.consumerGets name
    absent := by
      refine iff_of_false ?_ nofun
      intro joinable
      rw [sound.absent.mp joinable] at receiving
      cases receiving }

omit [BEq ι] in
theorem Sound.callStop {s : State κ α ι} (sound : Sound s) (joinable : s.joinable = true) :
    Sound { s with
      opened := false
      control := .stoppingQueue
      queue := s.queue.setPc .control (.locking .stop) } := by
  have others : ∀ role, role ≠ .control →
      (s.queue.setPc .control (.locking .stop)).pc role = s.queue.pc role :=
    fun role different => Function.update_of_ne different _ _
  exact {
    workerIdle := fun elsewhere => (others .worker nofun).trans (sound.workerIdle elsewhere)
    workerAdds := by
      intro adding
      change Adds ((s.queue.setPc .control (.locking .stop)).pc .worker)
      rw [others .worker nofun]
      exact sound.workerAdds adding
    controlIdle := fun elsewhere => absurd rfl elsewhere
    controlStops := by
      intro _
      left
      change Function.update s.queue.pc .control (.locking .stop) .control = _
      rw [Function.update_self]
    consumerGets := by
      intro name
      change Gets ((s.queue.setPc .control (.locking .stop)).pc (.consumer name))
      rw [others (.consumer name) nofun]
      exact sound.consumerGets name
    absent := sound.absent
    busy := fun _ => ⟨joinable, rfl⟩
    joining := nofun
    closed := fun _ => rfl }

/-! ### The steps of the queue -/

theorem role_moves {s queue : Queue.Threads (Role κ) ι} {action : Queue.Action (Role κ) ι}
    {events : List (Queue.Event (Role κ) ι)} (allowed : QueueAction action = true)
    (did : Queue.Threads.Did s action queue events) (role : Role κ)
    (own : ∀ name, role ≠ .consumer name) :
    (action = .ret role ∧ (∃ result, s.pc role = .returning result) ∧ queue.pc role = .idle) ∨
      (action ≠ .ret role ∧ Goes (s.pc role) (queue.pc role)) := by
  have step := Queue.Threads.did_thread did role
  cases step with
  | called before after =>
      cases role with
      | consumer name => exact absurd rfl (own name)
      | worker | control => cases allowed
  | returned before after => exact .inl ⟨rfl, ⟨_, before⟩, after⟩
  | went inside goes => exact .inr ⟨inside, goes⟩

theorem consumer_moves {s queue : Queue.Threads (Role κ) ι} {action : Queue.Action (Role κ) ι}
    {events : List (Queue.Event (Role κ) ι)} (allowed : QueueAction action = true)
    (did : Queue.Threads.Did s action queue events) {name : κ}
    (gets : Gets (s.pc (.consumer name))) : Gets (queue.pc (.consumer name)) := by
  have step := Queue.Threads.did_thread did (.consumer name)
  cases step with
  | @called call before after =>
      rw [after]
      cases call with
      | get args => exact .locking args
      | add | clear | stop => cases allowed
  | returned before after =>
      rw [after]
      exact .idle
  | went inside goes => exact gets.goes goes

theorem Sound.queue_worker {s : State κ α ι} {action : Queue.Action (Role κ) ι}
    {queue : Queue.Threads (Role κ) ι} {events : List (Queue.Event (Role κ) ι)}
    (sound : Sound s) (allowed : QueueAction action = true)
    (did : Queue.Threads.Did s.queue action queue events) :
    (workerAfter s.worker action ≠ .adding → queue.pc .worker = .idle) ∧
      (workerAfter s.worker action = .adding → Adds (queue.pc .worker)) ∧
      (s.joinable = false ↔ workerAfter s.worker action = .absent) := by
  rcases role_moves allowed did .worker nofun with ⟨rfl, ⟨result, before⟩, after⟩ | ⟨inside, goes⟩
  · refine ⟨fun _ => after, nofun, ?_⟩
    refine iff_of_false ?_ nofun
    intro joinable
    rw [sound.workerIdle (by rw [sound.absent.mp joinable]; exact nofun)] at before
    cases before
  · rw [workerAfter_of_ne s.worker inside]
    refine ⟨?_, fun adding => (sound.workerAdds adding).goes goes, sound.absent⟩
    intro elsewhere
    rw [sound.workerIdle elsewhere] at goes
    exact goes_idle goes

theorem Sound.queue_stops {s : State κ α ι} {action : Queue.Action (Role κ) ι}
    {queue : Queue.Threads (Role κ) ι} {events : List (Queue.Event (Role κ) ι)}
    (sound : Sound s) (did : Queue.Threads.Did s.queue action queue events)
    (goes : Goes (s.queue.pc .control) (queue.pc .control))
    (stopping : s.control = .stoppingQueue) :
    queue.pc .control = .locking .stop ∨
      (queue.pc .control = .returning .done ∧ queue.shared.stopped = true) := by
  rcases sound.controlStops stopping with locking | ⟨returning, stopped⟩
  · rcases Queue.Threads.did_stopped did with ⟨-, waits⟩ | ⟨role, -, -, now⟩
    · exact .inl (waits _ locking)
    · rw [locking] at goes
      rcases goes_stop goes with same | returning
      · exact .inl same
      · exact .inr ⟨returning, congrArg LinxQueue.stopped now⟩
  · rw [returning] at goes
    exact .inr ⟨goes_returning goes, Queue.Threads.did_stays_stopped did stopped⟩

theorem Sound.queue_control {s : State κ α ι} {action : Queue.Action (Role κ) ι}
    {queue : Queue.Threads (Role κ) ι} {events : List (Queue.Event (Role κ) ι)}
    (sound : Sound s) (allowed : QueueAction action = true)
    (did : Queue.Threads.Did s.queue action queue events) :
    (controlAfter s.control action ≠ .stoppingQueue → queue.pc .control = .idle) ∧
      (controlAfter s.control action = .stoppingQueue →
        queue.pc .control = .locking .stop ∨
          (queue.pc .control = .returning .done ∧ queue.shared.stopped = true)) ∧
      (controlAfter s.control action ≠ .idle → s.control ≠ .idle) ∧
      (controlAfter s.control action = .joining → queue.shared.stopped = true) := by
  rcases role_moves allowed did .control nofun with ⟨rfl, ⟨result, before⟩, after⟩ | ⟨inside, goes⟩
  · obtain ⟨stopping, stopped⟩ := sound.control_returns before
    refine ⟨fun _ => after, nofun, ?_, fun _ => Queue.Threads.did_stays_stopped did stopped⟩
    rw [stopping]
    exact fun _ => nofun
  · rw [controlAfter_of_ne s.control inside]
    refine ⟨?_, sound.queue_stops did goes, id, ?_⟩
    · intro elsewhere
      rw [sound.controlIdle elsewhere] at goes
      exact goes_idle goes
    · intro joining
      exact Queue.Threads.did_stays_stopped did (sound.joining joining)

theorem Sound.queue {s : State κ α ι} {action : Queue.Action (Role κ) ι}
    {queue : Queue.Threads (Role κ) ι} {events : List (Queue.Event (Role κ) ι)}
    (sound : Sound s) (allowed : QueueAction action = true)
    (did : Queue.Threads.Did s.queue action queue events) :
    Sound { s with
      queue := queue
      worker := workerAfter s.worker action
      control := controlAfter s.control action } := by
  obtain ⟨workerIdle, workerAdds, absent⟩ := sound.queue_worker allowed did
  obtain ⟨controlIdle, controlStops, wasBusy, joining⟩ := sound.queue_control allowed did
  exact {
    workerIdle := workerIdle
    workerAdds := workerAdds
    controlIdle := controlIdle
    controlStops := controlStops
    consumerGets := fun name => consumer_moves allowed did (sound.consumerGets name)
    absent := absent
    busy := fun busy => sound.busy (wasBusy busy)
    joining := joining
    closed := by
      intro stopped
      rcases Queue.Threads.did_stopped did with ⟨same, -⟩ | ⟨role, -, stops, -⟩
      · exact sound.closed (same ▸ stopped)
      · exact sound.stop_closed stops }

theorem Sound.did {identifier : α → ι} {s next : State κ α ι} {action : Action κ α ι}
    {events : List (Event κ α ι)} (sound : Sound s)
    (did : Did identifier s action next events) : Sound next := by
  cases did with
  | arrived datagram opened => exact { sound with }
  | left receiving opened atHead malformed =>
      exact { sound.setWorker .ended receiving nofun nofun nofun nofun with }
  | @pinged datagram rest peer receiving opened atHead asked =>
      exact { sound.setWorker (.answering peer) receiving nofun nofun nofun nofun with }
  | @offered datagram rest msg receiving opened atHead asked quiet =>
      exact { sound.callAdd receiving msg with }
  | failed receiving => exact sound.setWorker .ended receiving nofun nofun nofun nofun
  | answered answering => exact sound.setWorker .receiving answering nofun nofun nofun nofun
  | queue allowed stepped => exact sound.queue allowed (Queue.Threads.step_cases stepped)
  | alreadyStarted idle joinable => exact sound
  | started idle joinable =>
      have absent := sound.absent.mp joinable
      exact { sound with
        workerIdle := fun _ => sound.workerIdle (by rw [absent]; exact nofun)
        workerAdds := nofun
        absent := iff_of_false nofun nofun
        busy := fun busy => absurd idle busy }
  | stopping idle joinable quiet => exact sound.callStop joinable
  | notStarted idle joinable => exact sound
  | joined joining ended =>
      exact { sound with
        workerIdle := fun _ => sound.workerIdle (by rw [ended]; exact nofun)
        workerAdds := nofun
        controlIdle := fun _ => sound.controlIdle (by rw [joining]; exact nofun)
        controlStops := nofun
        absent := iff_of_true rfl rfl
        busy := fun busy => absurd rfl busy
        joining := nofun }

theorem Sound.workerAfter_ended {s : State κ α ι} {queue : Queue.Threads (Role κ) ι}
    {action : Queue.Action (Role κ) ι} {events : List (Queue.Event (Role κ) ι)} (sound : Sound s)
    (allowed : QueueAction action = true) (did : Queue.Threads.Did s.queue action queue events) :
    workerAfter s.worker action = .ended ↔ s.worker = .ended := by
  rcases role_moves allowed did .worker nofun with ⟨rfl, ⟨result, before⟩, -⟩ | ⟨inside, -⟩
  · refine iff_of_false nofun ?_
    intro ended
    rw [sound.workerIdle (by rw [ended]; exact nofun)] at before
    cases before
  · rw [workerAfter_of_ne s.worker inside]

theorem sound_reachable {identifier : α → ι} {efd : LinxEventFd} {size : Int32}
    {s : State κ α ι} (reached : (machine identifier).Reachable (create efd size) s) : Sound s :=
  reached.invariant (sound_create efd size)
    (fun _ _ _ _ sound stepped => sound.did (step_cases stepped))

end State

end LinxIpc.Server
