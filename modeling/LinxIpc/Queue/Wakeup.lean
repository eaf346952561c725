import LinxIpc.Queue.Threads

/-!
No wakeup is lost.  A sleeper that could go on, because its message is there or
the queue was stopped, is always covered by an `add` that has released the mutex
and still has to call `notify_all`.  `stop` notifies under the lock, so it needs
no such cover: once the queue is stopped nobody sleeps at all.
-/

namespace LinxIpc.Queue.Threads

variable {τ ι : Type}

def NotifyPending (s : Threads τ ι) : Prop :=
  ∃ thread result kept, s.pc thread = .notifying (.add result kept)

/-- What the wait predicate of the sleeper would find, were it evaluated now. -/
def CouldReturn [BEq ι] (s : Threads τ ι) (args : Get ι) : Prop :=
  s.shared.stopped = true ∨ ∃ msg ∈ s.shared.queue, args.matches msg = true

structure WakeupInvariant [BEq ι] (s : Threads τ ι) : Prop where
  covered : ∀ thread args, s.pc thread = .asleep args → CouldReturn s args → NotifyPending s
  awakeAfterStop : s.shared.stopped = true → ∀ thread args, s.pc thread ≠ .asleep args

theorem notified_ne_asleep (pc : Pc ι) (args : Get ι) : pc.notified ≠ .asleep args := by
  cases pc <;> simp [Pc.notified]

private theorem Evaluates.not_notifying {pc : Pc ι} {args : Get ι}
    (ready : Evaluates pc args) (result : Return ι) : pc ≠ .notifying result := by
  rcases ready with rfl | rfl | rfl <;> exact nofun

section

variable [BEq ι]

private theorem CouldReturn.mono {s next : Threads τ ι} {args : Get ι}
    (could : CouldReturn next args) (sameStopped : next.shared.stopped = s.shared.stopped)
    (fewer : ∀ msg ∈ next.shared.queue, msg ∈ s.shared.queue) : CouldReturn s args := by
  rcases could with stopped | ⟨msg, member, matched⟩
  · exact .inl (sameStopped ▸ stopped)
  · exact .inr ⟨msg, fewer msg member, matched⟩

private theorem mem_of_mem_findMessage {q : LinxQueue ι} {sigsel : List UInt32}
    {sender : Option ι} {msg : LinxReceivedMessage ι}
    (member : msg ∈ (q.findMessage sigsel sender).2.queue) : msg ∈ q.queue := by
  rw [(q.findMessage_spec sigsel sender).2] at member
  exact List.mem_of_mem_eraseP member

end

variable [DecidableEq τ]

private theorem NotifyPending.update {s next : Threads τ ι} {thread : τ} {pc : Pc ι}
    (pending : NotifyPending s) (moved : next.pc = Function.update s.pc thread pc)
    (busy : ∀ result, s.pc thread ≠ .notifying result) : NotifyPending next := by
  obtain ⟨adder, result, kept, atAdder⟩ := pending
  have other : adder ≠ thread := by
    intro same
    exact busy _ (same ▸ atAdder)
  refine ⟨adder, result, kept, ?_⟩
  rw [moved, Function.update_of_ne other]
  exact atAdder

variable [BEq ι]

private theorem WakeupInvariant.update {s next : Threads τ ι} {thread : τ} {pc : Pc ι}
    (holds : WakeupInvariant s) (moved : next.pc = Function.update s.pc thread pc)
    (busy : ∀ result, s.pc thread ≠ .notifying result)
    (awake : ∀ args, pc ≠ .asleep args)
    (sameStopped : next.shared.stopped = s.shared.stopped)
    (fewer : ∀ msg ∈ next.shared.queue, msg ∈ s.shared.queue) : WakeupInvariant next := by
  have slept : ∀ sleeper args, next.pc sleeper = .asleep args →
      s.pc sleeper = .asleep args := by
    intro sleeper args asleep
    rw [moved] at asleep
    by_cases same : sleeper = thread
    · subst same
      rw [Function.update_self] at asleep
      exact absurd asleep (awake args)
    · rw [Function.update_of_ne same] at asleep
      exact asleep
  constructor
  · intro sleeper args asleep could
    have before := holds.covered sleeper args (slept sleeper args asleep)
      (could.mono sameStopped fewer)
    exact before.update moved busy
  · intro stopped sleeper args asleep
    exact holds.awakeAfterStop (sameStopped ▸ stopped) sleeper args (slept sleeper args asleep)

theorem wakeup_added {s : Threads τ ι} {thread : τ} {msg : LinxReceivedMessage ι}
    {result : Option Int} {kept : Option (LinxReceivedMessage ι)} {shared : LinxQueue ι}
    (holds : WakeupInvariant s) (ready : s.pc thread = .locking (.add msg))
    (computed : s.shared.add msg = (result, kept, shared)) :
    WakeupInvariant (s.leave shared thread (afterAdd result kept)) := by
  cases result with
  | none =>
      -- the exception: nothing was stored and nobody will be notified
      have same : shared = s.shared := by
        unfold LinxQueue.add at computed
        split at computed <;> simp_all
      subst same
      exact holds.update rfl (by rw [ready]; exact nofun) nofun rfl (fun _ member => member)
  | some code =>
      -- stored or rejected, this thread still has its `notify_all` to do
      have pending : NotifyPending
          (s.leave shared thread (afterAdd (some code) kept)) :=
        ⟨thread, some code, kept, Function.update_self ..⟩
      have sameStopped : shared.stopped = s.shared.stopped := by
        unfold LinxQueue.add at computed
        split at computed <;> cases computed <;> rfl
      constructor
      · intro _ _ _ _
        exact pending
      · intro stopped sleeper args asleep
        rw [leave_pc] at asleep
        by_cases same : sleeper = thread
        · subst same
          rw [Function.update_self] at asleep
          cases asleep
        · rw [Function.update_of_ne same] at asleep
          exact holds.awakeAfterStop (sameStopped ▸ stopped) sleeper args asleep

theorem wakeup_slept {s : Threads τ ι} {thread : τ} {args : Get ι}
    (holds : WakeupInvariant s) (ready : Evaluates (s.pc thread) args)
    (missing : (s.shared.findMessage args.sigsel args.sender).1 = none)
    (running : s.shared.stopped = false) :
    WakeupInvariant (s.setPc thread (.asleep args)) := by
  constructor
  · intro sleeper others asleep could
    rw [setPc_pc] at asleep
    by_cases same : sleeper = thread
    · subst same
      rw [Function.update_self] at asleep
      obtain rfl : args = others := by injection asleep
      exfalso
      rcases could with stopped | ⟨msg, member, matched⟩
      · rw [setPc_shared, running] at stopped
        cases stopped
      · rw [(s.shared.findMessage_spec _ _).1, List.find?_eq_none] at missing
        exact missing msg member matched
    · rw [Function.update_of_ne same] at asleep
      exact (holds.covered sleeper others asleep could).update rfl ready.not_notifying
  · intro stopped
    rw [setPc_shared, running] at stopped
    cases stopped

theorem wakeup_did {s next : Threads τ ι} {action : Action τ ι} {events : List (Event τ ι)}
    (holds : WakeupInvariant s) (did : Did s action next events) : WakeupInvariant next := by
  cases did with
  | invoked ready =>
      exact holds.update rfl (by rw [ready]; exact nofun) nofun rfl (fun _ member => member)
  | added ready computed => exact wakeup_added holds ready computed
  | @got thread args msg shared ready computed may =>
      obtain ⟨sameStopped, -, -⟩ := s.shared.findMessage_fields args.sigsel args.sender
      have fewer := @mem_of_mem_findMessage ι _ s.shared args.sigsel args.sender
      rw [computed] at sameStopped fewer
      exact holds.update rfl ready.not_notifying nofun sameStopped (fun _ => fewer)
  | slept ready missing running => exact wakeup_slept holds ready missing running
  | cleared ready =>
      exact holds.update rfl (by rw [ready]; exact nofun) nofun rfl nofun
  | stopped | notified =>
      -- `notify_all` leaves nobody asleep, whatever the queue holds
      constructor
      · intro sleeper args asleep
        exact absurd asleep (notified_ne_asleep _ args)
      · intro _ sleeper args
        exact notified_ne_asleep _ args
  | woke ready =>
      exact holds.update rfl (by rw [ready]; exact nofun) nofun rfl (fun _ member => member)
  | timedOut ready limited =>
      refine holds.update rfl ?_ nofun rfl (fun _ member => member)
      intro result
      rcases ready with ready | ready <;> rw [ready] <;> exact nofun
  | returned ready =>
      exact holds.update rfl (by rw [ready]; exact nofun) nofun rfl (fun _ member => member)

theorem wakeup_reachable {efd : LinxEventFd} {size : Int32} {s : Threads τ ι}
    (reached : machine.Reachable (initial efd size) s) : WakeupInvariant s := by
  refine reached.invariant ?_ (fun _ _ _ _ holds stepped => wakeup_did holds (step_cases stepped))
  constructor
  · intro sleeper args asleep
    cases asleep
  · intro _ sleeper args asleep
    cases asleep

theorem no_lost_wakeup {efd : LinxEventFd} {size : Int32} {s : Threads τ ι}
    (reached : machine.Reachable (initial efd size) s) :
    (∀ thread args, s.pc thread = .asleep args →
      (s.shared.stopped = true ∨ ∃ msg ∈ s.shared.queue, args.matches msg = true) →
      NotifyPending s) ∧
    (¬ NotifyPending s → ∀ thread args, s.pc thread = .asleep args →
      ∀ msg ∈ s.shared.queue, args.matches msg = false) ∧
    (s.shared.stopped = true → ∀ thread args, s.pc thread ≠ .asleep args) := by
  have holds := wakeup_reachable reached
  refine ⟨holds.covered, ?_, holds.awakeAfterStop⟩
  intro quiet thread args asleep msg member
  cases matched : args.matches msg with
  | false => rfl
  | true => exact absurd (holds.covered thread args asleep (.inr ⟨msg, member, matched⟩)) quiet

theorem no_lost_wakeup_before_notify :
    ∃ s : Threads Bool Nat,
      s.pc true = .asleep ⟨infiniteTimeout, [7], none⟩ ∧
      s.shared.queue = [⟨⟨7, []⟩, some 1⟩] ∧ NotifyPending s := by
  refine ⟨_, rfl, rfl, (@no_lost_wakeup _ _ _ _ ⟨3, 0⟩ 1 _
    ⟨[.call true (.get ⟨infiniteTimeout, [7], none⟩), .lock true,
      .call false (.add ⟨⟨7, []⟩, some 1⟩), .lock false], _, rfl⟩).1 true _ rfl (.inr ?_)⟩
  exact ⟨⟨⟨7, []⟩, some 1⟩, List.mem_singleton_self _, rfl⟩

end LinxIpc.Queue.Threads
