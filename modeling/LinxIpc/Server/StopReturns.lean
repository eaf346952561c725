import LinxIpc.Queue.Progress
import LinxIpc.Server.Roles

/-!
`GenericServer::stop` returns.

From the moment it has closed the socket, the worker and the control thread have
few steps left, and the consumers can neither add to them nor hold them up.
-/

namespace LinxIpc.Server

variable {κ α ι : Type}

open Queue (Pc Return)
open Queue.Threads (Prompt stage)

def Action.ofStop : Action κ α ι → Bool
  | .receive | .receiveFails | .answer | .start | .stop | .join => true
  | .arrive _ => false
  | .queue action =>
      match action.thread with
      | .worker | .control => true
      | .consumer _ => false

def Worker.ahead : Worker ι → Nat
  | .absent | .ended => 0
  | .receiving | .adding => 1
  | .answering _ => 2

def Control.ahead : Control → Nat
  | .idle => 0
  | .stoppingQueue | .joining => 1

theorem Adds.prompt {stopped : Bool} {pc : Pc ι} (adds : Adds pc) : Prompt stopped pc := by
  cases adds <;> trivial

namespace State

/-- The steps that the two threads have before `stop` returns. -/
def ahead (s : State κ α ι) : Nat :=
  s.worker.ahead + s.control.ahead + (stage (s.queue.pc .worker) + stage (s.queue.pc .control))

theorem worker_own (name : κ) : (Role.worker : Role κ) ≠ .consumer name := by simp

theorem control_own (name : κ) : (Role.control : Role κ) ≠ .consumer name := by simp

theorem Sound.own {s : State κ α ι} (sound : Sound s) {role : Role κ}
    (own : ∀ name, role ≠ .consumer name) :
    s.queue.pc role = .idle ∨ Prompt s.queue.shared.stopped (s.queue.pc role) := by
  cases role with
  | worker =>
      by_cases adding : s.worker = .adding
      · exact .inr (sound.workerAdds adding).prompt
      · exact .inl (sound.workerIdle adding)
  | control =>
      by_cases stopping : s.control = .stoppingQueue
      · rcases sound.controlStops stopping with locking | ⟨returning, -⟩
        · exact .inr (by rw [locking]; trivial)
        · exact .inr (by rw [returning]; trivial)
      · exact .inl (sound.controlIdle stopping)
  | consumer name => exact absurd rfl (own name)

theorem stage_le (pc : Pc ι) : stage pc ≤ 3 := by
  cases pc <;> simp only [stage] <;> omega

theorem Sound.worker_ahead_le {s : State κ α ι} (sound : Sound s) :
    s.worker.ahead + stage (s.queue.pc .worker) ≤ 4 := by
  by_cases adding : s.worker = .adding
  · have three := stage_le (s.queue.pc .worker)
    simp only [adding, Worker.ahead]
    omega
  · rw [sound.workerIdle adding]
    cases s.worker <;> simp only [Worker.ahead, stage] <;> omega

theorem Sound.ahead_le {s : State κ α ι} (sound : Sound s) : s.ahead ≤ 8 := by
  have worker := sound.worker_ahead_le
  have control : s.control.ahead + stage (s.queue.pc .control) ≤ 4 := by
    have three := stage_le (s.queue.pc .control)
    cases s.control <;> simp only [Control.ahead] <;> omega
  unfold ahead
  omega

theorem ahead_queue (s : State κ α ι) (queue : Queue.Threads (Role κ) ι) {worker : Worker ι}
    {control : Control} (sameWorker : worker.ahead = s.worker.ahead)
    (sameControl : control.ahead = s.control.ahead) :
    ({ s with queue := queue, worker := worker, control := control } : State κ α ι).ahead =
      s.worker.ahead + s.control.ahead + (stage (queue.pc .worker) + stage (queue.pc .control)) := by
  unfold ahead
  rw [sameWorker, sameControl]

variable [DecidableEq κ] [BEq ι]

theorem Sound.queue_others {s : State κ α ι} (sound : Sound s)
    {action : Queue.Action (Role κ) ι} {queue : Queue.Threads (Role κ) ι}
    {events : List (Queue.Event (Role κ) ι)} (did : Queue.Threads.Did s.queue action queue events)
    {role : Role κ} (own : ∀ name, role ≠ .consumer name) (other : role ≠ action.thread) :
    queue.pc role = s.queue.pc role := by
  rcases sound.own own with idle | prompt
  · rcases Queue.Threads.did_frame did other with same | notified
    · exact same
    · rw [notified, idle]
      rfl
  · exact Queue.Threads.other_prompt prompt other did

theorem Sound.queue_own {s : State κ α ι} (sound : Sound s) {action : Queue.Action (Role κ) ι}
    {queue : Queue.Threads (Role κ) ι} {events : List (Queue.Event (Role κ) ι)}
    (allowed : QueueAction action = true) (stepped : s.queue.step action = some (queue, events))
    (own : ∀ name, action.thread ≠ .consumer name) :
    1 + stage (queue.pc action.thread) ≤ stage (s.queue.pc action.thread) := by
  have did := Queue.Threads.step_cases stepped
  rcases sound.own own with idle | prompt
  · -- the two make no calls there
    exfalso
    obtain ⟨call, called⟩ := Queue.Threads.step_idle idle stepped
    rw [called] at allowed
    cases thread : action.thread with
    | consumer name => exact own name thread
    | worker | control =>
        rw [thread] at allowed
        cases allowed
  · by_cases returns : action = .ret action.thread
    · rw [returns] at did
      cases did with
      | @returned thread result ready =>
          rw [ready, Queue.Threads.setPc_pc, Function.update_self]
          exact Nat.le_refl _
    · exact (Queue.Threads.own_prompt prompt returns stepped).2

theorem Sound.queue_ahead {s : State κ α ι} (sound : Sound s)
    {action : Queue.Action (Role κ) ι} {queue : Queue.Threads (Role κ) ι}
    {events : List (Queue.Event (Role κ) ι)} (allowed : QueueAction action = true)
    (did : Queue.Threads.Did s.queue action queue events) :
    (workerAfter s.worker action).ahead = s.worker.ahead ∧
      (controlAfter s.control action).ahead = s.control.ahead := by
  constructor
  · rcases role_moves allowed did .worker worker_own with ⟨rfl, ⟨result, before⟩, -⟩ | ⟨inside, -⟩
    · have adding : s.worker = .adding := by
        by_contra elsewhere
        rw [sound.workerIdle elsewhere] at before
        cases before
      rw [adding]
      rfl
    · rw [workerAfter_of_ne s.worker inside]
  · rcases role_moves allowed did .control control_own with ⟨rfl, ⟨result, before⟩, -⟩ | ⟨inside, -⟩
    · rw [(sound.control_returns before).1]
      rfl
    · rw [controlAfter_of_ne s.control inside]

/-! ### From the closed socket to the return -/

omit [DecidableEq κ] [BEq ι] in
theorem queue_ofStop {action : Queue.Action (Role κ) ι} :
    (Action.queue action : Action κ α ι).ofStop = true ↔
      ∀ name, action.thread ≠ .consumer name := by
  cases thread : action.thread with
  | consumer name =>
      simp only [Action.ofStop, thread]
      exact iff_of_false Bool.false_ne_true (fun own => own name rfl)
  | worker | control =>
      simp only [Action.ofStop, thread]
      exact iff_of_true trivial (by simp)

theorem Sound.queue_lowers {s : State κ α ι} (sound : Sound s)
    {action : Queue.Action (Role κ) ι} {queue : Queue.Threads (Role κ) ι}
    {events : List (Queue.Event (Role κ) ι)} (allowed : QueueAction action = true)
    (stepped : s.queue.step action = some (queue, events)) :
    (Action.queue action : Action κ α ι).ofStop.toNat +
        ({ s with
          queue := queue
          worker := workerAfter s.worker action
          control := controlAfter s.control action } : State κ α ι).ahead ≤ s.ahead := by
  have did := Queue.Threads.step_cases stepped
  obtain ⟨sameWorker, sameControl⟩ := sound.queue_ahead allowed did
  have others : ∀ role, (∀ name, role ≠ .consumer name) → role ≠ action.thread →
      queue.pc role = s.queue.pc role := fun _ own other => sound.queue_others did own other
  rw [ahead_queue s queue sameWorker sameControl]
  unfold ahead
  cases thread : action.thread with
  | consumer name =>
      have foreign : (Action.queue action : Action κ α ι).ofStop = false := by
        simp only [Action.ofStop, thread]
      rw [foreign, others .worker worker_own (by simp [thread]),
        others .control control_own (by simp [thread]), Bool.toNat_false, Nat.zero_add]
  | worker =>
      have own := sound.queue_own allowed stepped (by simp [thread])
      rw [others .control control_own (by simp [thread])]
      rw [thread] at own
      have one := Bool.toNat_le (Action.queue action : Action κ α ι).ofStop
      omega
  | control =>
      have own := sound.queue_own allowed stepped (by simp [thread])
      rw [others .worker worker_own (by simp [thread])]
      rw [thread] at own
      have one := Bool.toNat_le (Action.queue action : Action κ α ι).ofStop
      omega

theorem Sound.stopping_did {identifier : α → ι} {s next : State κ α ι} {action : Action κ α ι}
    {events : List (Event κ α ι)} (sound : Sound s) (busy : s.control ≠ .idle)
    (unfinished : action ≠ .join) (did : Did identifier s action next events) :
    next.control ≠ .idle ∧ action.ofStop.toNat + next.ahead ≤ s.ahead := by
  have closed := (sound.busy busy).2
  cases did with
  | arrived datagram opened | left receiving opened | pinged receiving opened
  | offered receiving opened =>
      rw [closed] at opened
      cases opened
  | alreadyStarted idle | started idle | stopping idle | notStarted idle => exact absurd idle busy
  | joined joining ended => exact absurd rfl unfinished
  | failed receiving =>
      refine ⟨busy, ?_⟩
      simp only [ahead, receiving, Worker.ahead, Action.ofStop, Bool.toNat_true]
      omega
  | answered answering =>
      refine ⟨busy, ?_⟩
      simp only [ahead, answering, Worker.ahead, Action.ofStop, Bool.toNat_true]
      omega
  | @queue action queue events allowed stepped =>
      refine ⟨?_, sound.queue_lowers allowed stepped⟩
      intro idle
      by_cases returns : action = .ret .control
      · rw [returns] at idle
        cases idle
      · exact busy ((controlAfter_of_ne s.control returns).symm.trans idle)

theorem stopping_ranked (identifier : α → ι) :
    (machine (κ := κ) identifier).Ranked (fun s => Sound s ∧ s.control ≠ .idle)
      (fun action => action ≠ .join) Action.ofStop ahead where
  kept _ _ _ _ holds unfinished stepped :=
    have did := step_cases stepped
    ⟨holds.1.did did, (holds.1.stopping_did holds.2 unfinished did).1⟩
  lowered _ _ _ _ holds unfinished stepped :=
    (holds.1.stopping_did holds.2 unfinished (step_cases stepped)).2

theorem Sound.queue_enabled {s : State κ α ι} (sound : Sound s) (identifier : α → ι)
    {role : Role κ} (own : ∀ name, role ≠ .consumer name) (inside : s.queue.pc role ≠ .idle) :
    ∃ action : Queue.Action (Role κ) ι, action.Inner ∧ action.thread = role ∧
      step identifier s (.queue action) ≠ none := by
  have prompt := (sound.own own).resolve_left inside
  obtain ⟨action, inner, thread, enabled⟩ := Queue.Threads.inner_enabled rfl inside (by
    intro args asleep
    rw [asleep] at prompt
    exact prompt)
  have allowed : QueueAction action = true := by
    cases action with
    | call | spurious => exact inner.elim
    | lock | notify | timeout | ret => rfl
  refine ⟨action, inner, thread, ?_⟩
  obtain ⟨⟨queue, events⟩, moved⟩ := Option.ne_none_iff_exists'.mp enabled
  simp only [step, allowed, if_true, stepQueue, moved]
  exact Option.some_ne_none _

theorem Sound.stop_enabled {identifier : α → ι} {s : State κ α ι} (sound : Sound s)
    (busy : s.control ≠ .idle) :
    ∃ action, action.ofStop = true ∧ step identifier s action ≠ none := by
  have inQueue : ∀ role, (∀ name, role ≠ .consumer name) →
      s.queue.pc role ≠ .idle → ∃ action, action.ofStop = true ∧
        step identifier s action ≠ none := by
    intro role own inside
    obtain ⟨action, -, thread, enabled⟩ := sound.queue_enabled identifier own inside
    exact ⟨.queue action, queue_ofStop.mpr (by rw [thread]; exact own), enabled⟩
  cases atControl : s.control with
  | idle => exact absurd atControl busy
  | stoppingQueue =>
      refine inQueue .control control_own ?_
      rcases sound.controlStops atControl with locking | ⟨returning, -⟩
      · simp only [locking, ne_eq, reduceCtorEq, not_false_eq_true]
      · simp only [returning, ne_eq, reduceCtorEq, not_false_eq_true]
  | joining =>
      cases atWorker : s.worker with
      | absent =>
          have joinable := (sound.busy busy).1
          rw [sound.absent.mpr atWorker] at joinable
          cases joinable
      | receiving =>
          refine ⟨.receiveFails, rfl, ?_⟩
          simp only [step, atWorker]
          exact Option.some_ne_none _
      | answering peer =>
          refine ⟨.answer, rfl, ?_⟩
          simp only [step, atWorker]
          exact Option.some_ne_none _
      | adding =>
          refine inQueue .worker worker_own ?_
          intro idle
          have adds := sound.workerAdds atWorker
          rw [idle] at adds
          cases adds
      | ended =>
          refine ⟨.join, rfl, ?_⟩
          simp only [step, atControl, atWorker]
          exact Option.some_ne_none _

/-- A `stop` that has closed the socket returns after at most eight steps of the
worker and its own, whatever the consumers do, and the next of them can always be
taken. -/
theorem stop_returns {identifier : α → ι} {efd : LinxEventFd} {size : Int32}
    {s last : State κ α ι} (reached : (machine identifier).Reachable (create efd size) s)
    (stopping : s.control ≠ .idle) {actions : List (Action κ α ι)} {events : List (Event κ α ι)}
    (unfinished : ∀ action ∈ actions, action ≠ .join)
    (ran : (machine identifier).run s actions = some (last, events)) :
    actions.countP Action.ofStop ≤ 7 ∧ last.control ≠ .idle ∧
      ∃ action, action.ofStop = true ∧ (machine identifier).step last action ≠ none := by
  have sound := sound_reachable reached
  obtain ⟨⟨soundLast, busy⟩, bound⟩ :=
    (stopping_ranked identifier).run ⟨sound, stopping⟩ unfinished ran
  have most := sound.ahead_le
  have remains : 1 ≤ last.ahead := by
    have control : 1 ≤ last.control.ahead := by
      cases atControl : last.control with
      | idle => exact absurd atControl busy
      | stoppingQueue | joining => exact Nat.le_refl _
    unfold ahead
    omega
  exact ⟨by omega, busy, soundLast.stop_enabled busy⟩

def stoppingWhileAdding : State Unit SockaddrIn PortInfo where
  inbox := []
  opened := false
  queue := ((Queue.Threads.initial ⟨3, 0⟩ 4).setPc .worker
    (.locking (.add ⟨⟨7, []⟩, some (.create (ofAscii "127.0.0.1") 9)⟩))).setPc .control
      (.locking .stop)
  worker := .adding
  joinable := true
  control := .stoppingQueue

theorem stop_returns_while_adding :
    ∃ last, last.control ≠ .idle ∧
      (machine UdpSocket.identifier).run stoppingWhileAdding [.queue (.lock .control)] =
        some (last, [.queue (.committed .control .stop .done)]) ∧
      ∃ action, action.ofStop = true ∧ (machine UdpSocket.identifier).step last action ≠ none := by
  have reached : (machine UdpSocket.identifier).run (create ⟨3, 0⟩ 4)
    [.start, .arrive ⟨[0, 0, 0, 7], ⟨(127, 0, 0, 1), (0, 9)⟩⟩, .receive, .stop] =
      some (stoppingWhileAdding, _) := rfl
  have ran : (machine UdpSocket.identifier).run stoppingWhileAdding [.queue (.lock .control)] =
    some (_, [.queue (.committed .control .stop .done)]) := rfl
  have returns := stop_returns ⟨_, _, reached⟩ (by intro idle; cases idle) (by
    rw [List.forall_mem_singleton]
    intro same
    cases same) ran
  exact ⟨_, returns.2.1, ran, returns.2.2⟩

end State

end LinxIpc.Server
