import LinxIpc.Server.Datagrams
import LinxIpc.Server.Lifecycle
import LinxIpc.Server.StopReturns

/-!
The worker keeps up with the datagrams that arrive.

Each datagram costs it so many steps, of which the next can always be taken; it
waits only for a socket in which nothing is pending.
-/

namespace LinxIpc.Server

variable {κ α ι : Type}

open Queue.Threads (stage)

def Action.ofWorker : Action κ α ι → Bool
  | .receive | .answer => true
  | .queue action =>
      match action.thread with
      | .worker => true
      | .control | .consumer _ => false
  | .arrive _ | .receiveFails | .start | .stop | .join => false

def Action.isArrival : Action κ α ι → Bool
  | .arrive _ => true
  | _ => false

/-- Nobody stops the server, its socket does not fail, and what arrives is well
formed. -/
def Action.Benign : Action κ α ι → Prop
  | .arrive datagram => WellFormed datagram
  | .stop | .receiveFails => False
  | _ => True

namespace State

structure Running (s : State κ α ι) : Prop where
  inLoop : s.worker ≠ .absent ∧ s.worker ≠ .ended
  opened : s.opened = true
  wellFormed : ∀ datagram ∈ s.inbox, WellFormed datagram

def workAhead (s : State κ α ι) : Nat :=
  s.inbox.length * 4 + s.worker.ahead + stage (s.queue.pc .worker)

theorem workerAfter_inLoop {worker : Worker ι} (inLoop : worker ≠ .absent ∧ worker ≠ .ended)
    (action : Queue.Action (Role κ) ι) :
    workerAfter worker action ≠ .absent ∧ workerAfter worker action ≠ .ended := by
  unfold workerAfter
  split
  · simp
  · exact inLoop

variable [DecidableEq κ] [BEq ι]

theorem Sound.queue_workAhead {s : State κ α ι} (sound : Sound s)
    {action : Queue.Action (Role κ) ι} {queue : Queue.Threads (Role κ) ι}
    {events : List (Queue.Event (Role κ) ι)} (allowed : QueueAction action = true)
    (stepped : s.queue.step action = some (queue, events)) :
    (Action.queue action : Action κ α ι).ofWorker.toNat + stage (queue.pc .worker) ≤
      stage (s.queue.pc .worker) := by
  have did := Queue.Threads.step_cases stepped
  by_cases own : action.thread = .worker
  · have lower := sound.queue_own allowed stepped (by rw [own]; exact worker_own)
    rw [own] at lower
    have one := Bool.toNat_le (Action.queue action : Action κ α ι).ofWorker
    omega
  · have foreign : (Action.queue action : Action κ α ι).ofWorker = false := by
      cases thread : action.thread with
      | worker => exact absurd thread own
      | control | consumer name => simp only [Action.ofWorker, thread]
    rw [foreign, sound.queue_others did worker_own (Ne.symm own), Bool.toNat_false, Nat.zero_add]

theorem Running.did {identifier : α → ι} {s next : State κ α ι} {action : Action κ α ι}
    {events : List (Event κ α ι)} (running : Running s) (sound : Sound s)
    (benign : action.Benign) (did : Did identifier s action next events) :
    Running next ∧
      action.ofWorker.toNat + next.workAhead ≤ s.workAhead + action.isArrival.toNat * 4 := by
  obtain ⟨inLoop, opened, wellFormed⟩ := running
  cases did with
  | arrived datagram =>
      refine ⟨⟨inLoop, opened, ?_⟩, ?_⟩
      · rw [List.forall_mem_append, List.forall_mem_singleton]
        exact ⟨wellFormed, benign⟩
      · simp only [workAhead, List.length_append, List.length_singleton, Action.ofWorker,
          Action.isArrival, Bool.toNat_false, Bool.toNat_true]
        omega
  | @left datagram rest receiving _ atHead malformed =>
      rw [atHead, List.forall_mem_cons] at wellFormed
      have output := (output_isSome_iff identifier datagram).mpr wellFormed.1
      rw [malformed] at output
      cases output
  | pinged receiving _ atHead asked =>
      rw [atHead, List.forall_mem_cons] at wellFormed
      refine ⟨⟨by simp, opened, wellFormed.2⟩, ?_⟩
      simp only [workAhead, atHead, receiving, List.length_cons, Worker.ahead, Action.ofWorker,
        Bool.toNat_true]
      omega
  | offered receiving _ atHead asked quiet =>
      rw [atHead, List.forall_mem_cons] at wellFormed
      refine ⟨⟨by simp, opened, wellFormed.2⟩, ?_⟩
      simp only [workAhead, atHead, receiving, quiet, List.length_cons, Worker.ahead,
        Action.ofWorker, Bool.toNat_true, Queue.Threads.setPc_pc, Function.update_self, stage]
      omega
  | failed | stopping | notStarted => exact benign.elim
  | answered answering =>
      refine ⟨⟨by simp, opened, wellFormed⟩, ?_⟩
      simp only [workAhead, answering, Worker.ahead, Action.ofWorker, Bool.toNat_true]
      omega
  | @queue action queue events allowed stepped =>
      have sameWorker := (sound.queue_ahead allowed (Queue.Threads.step_cases stepped)).1
      have lower := sound.queue_workAhead allowed stepped
      refine ⟨⟨workerAfter_inLoop inLoop action, opened, wellFormed⟩, ?_⟩
      simp only [workAhead, sameWorker]
      omega
  | alreadyStarted =>
      refine ⟨⟨inLoop, opened, wellFormed⟩, ?_⟩
      simp only [Action.ofWorker, Bool.toNat_false]
      omega
  | started idle joinable => exact absurd (sound.absent.mp joinable) inLoop.1
  | joined joining ended => exact absurd ended inLoop.2

theorem running_fed (identifier : α → ι) :
    (machine (κ := κ) identifier).Fed (fun s => Sound s ∧ Running s) Action.Benign
      Action.ofWorker (fun action => action.isArrival.toNat * 4) workAhead where
  kept _ _ _ _ holds benign stepped :=
    have did := step_cases stepped
    ⟨holds.1.did did, (holds.2.did holds.1 benign did).1⟩
  lowered _ _ _ _ holds benign stepped :=
    (holds.2.did holds.1 benign (step_cases stepped)).2

theorem Running.enabled {s : State κ α ι} (running : Running s) (sound : Sound s)
    (identifier : α → ι) :
    (s.worker = .receiving ∧ s.inbox = []) ∨
      ∃ action, action.ofWorker = true ∧ step identifier s action ≠ none := by
  cases atWorker : s.worker with
  | absent => exact absurd atWorker running.inLoop.1
  | ended => exact absurd atWorker running.inLoop.2
  | receiving =>
      cases atHead : s.inbox with
      | nil => exact .inl ⟨rfl, rfl⟩
      | cons datagram rest =>
          have wellFormed := running.wellFormed datagram (by rw [atHead]; exact List.mem_cons_self)
          obtain ⟨next, _, _, stepped, -⟩ :=
            sound.takes running.opened atWorker atHead wellFormed
          exact .inr ⟨.receive, rfl, by rw [stepped]; exact Option.some_ne_none _⟩
  | answering peer =>
      refine .inr ⟨.answer, rfl, ?_⟩
      simp only [step, atWorker]
      exact Option.some_ne_none _
  | adding =>
      have inside : s.queue.pc .worker ≠ .idle := by
        intro idle
        have adds := sound.workerAdds atWorker
        rw [idle] at adds
        cases adds
      obtain ⟨action, -, thread, enabled⟩ := sound.queue_enabled identifier worker_own inside
      exact .inr ⟨.queue action, by simp only [Action.ofWorker, thread], enabled⟩

/-- On a server that nobody stops, the worker takes four steps at most for each
well-formed datagram, can always take the next of them whatever the consumers do, and
waits only when it has consumed and handed on everything that arrived. -/
theorem worker_keeps_up {identifier : α → ι} {efd : LinxEventFd} {size : Int32}
    {s last : State κ α ι} {early : List (Action κ α ι)} {before : List (Event κ α ι)}
    (reached : (machine identifier).run (create efd size) early = some (s, before))
    (running : Running s) {actions : List (Action κ α ι)} {events : List (Event κ α ι)}
    (benign : ∀ action ∈ actions, action.Benign)
    (ran : (machine identifier).run s actions = some (last, events)) :
    actions.countP Action.ofWorker ≤
        (s.inbox.length + actions.countP Action.isArrival) * 4 + 3 ∧
      ((∃ action, action.ofWorker = true ∧ (machine identifier).step last action ≠ none) ∨
        (last.inbox = [] ∧ consumed (before ++ events) = arrivals (before ++ events) ∧
          handedOn (before ++ events) = outputs identifier (arrivals (before ++ events)))) := by
  have sound := sound_reachable ⟨early, before, reached⟩
  obtain ⟨⟨soundLast, runningLast⟩, bound⟩ :=
    (running_fed identifier).run ⟨sound, running⟩ benign ran
  rw [Machine.sum_portions] at bound
  have most := sound.worker_ahead_le
  have least : 1 ≤ last.worker.ahead := by
    cases atWorker : last.worker with
    | absent => exact absurd atWorker runningLast.inLoop.1
    | ended => exact absurd atWorker runningLast.inLoop.2
    | receiving | adding => exact Nat.le_refl 1
    | answering peer => exact Nat.le_succ 1
  unfold workAhead at bound
  refine ⟨by omega, ?_⟩
  rcases runningLast.enabled soundLast identifier with ⟨receiving, empty⟩ | enabled
  · have flow := run_flow ((machine identifier).run_append reached ran)
    have arrived := flow.arrived
    have handed := flow.handed runningLast.opened
    rw [empty, List.append_nil] at arrived
    rw [receiving, ← arrived] at handed
    exact .inr ⟨empty, arrived.symm, (List.append_nil _).symm.trans handed⟩
  · exact .inl enabled

def oneWaiting : State Unit SockaddrIn PortInfo where
  inbox := [⟨[0, 0, 0, 7], ⟨(127, 0, 0, 1), (0, 9)⟩⟩]
  opened := true
  queue := .initial ⟨3, 0⟩ 4
  worker := .receiving
  joinable := true
  control := .idle

theorem worker_keeps_up_one_waiting :
    ∃ last : State Unit SockaddrIn PortInfo, last.worker = .adding ∧
      ((∃ action, action.ofWorker = true ∧
          (machine UdpSocket.identifier).step last action ≠ none) ∨
        last.inbox = []) := by
  have reached : (machine UdpSocket.identifier).run (create ⟨3, 0⟩ 4)
    [.start, .arrive ⟨[0, 0, 0, 7], ⟨(127, 0, 0, 1), (0, 9)⟩⟩] = some (oneWaiting, _) := rfl
  have ran : (machine UdpSocket.identifier).run oneWaiting [.receive] = some (_, _) := rfl
  have running : Running oneWaiting := ⟨by simp [oneWaiting], rfl, by decide⟩
  have benign : ∀ action ∈ [(.receive : Action Unit SockaddrIn PortInfo)], action.Benign :=
    List.forall_mem_singleton.mpr trivial
  obtain ⟨-, next⟩ := worker_keeps_up reached running benign ran
  exact ⟨_, rfl, next.imp_right fun waits => waits.1⟩

end State

end LinxIpc.Server
