import LinxIpc.Machine.Lockstep
import LinxIpc.Server.GenericServer

/-!
What the event descriptor of a server is for.

`writeEvent`, `readEvent` and `clearEvents` are called for those who poll only:
two servers that differ in their descriptors give the same results, also when
`eventfd` failed for one of them.
-/

namespace LinxIpc

/-! ### Queues -/

structure LinxQueue.Alike {ι : Type} (left right : LinxQueue ι) : Prop where
  stopped : left.stopped = right.stopped
  maxSize : left.maxSize = right.maxSize
  queue : left.queue = right.queue

namespace LinxQueue

variable {ι : Type} {left right : LinxQueue ι}

theorem Alike.symm (alike : Alike left right) : Alike right left :=
  ⟨alike.stopped.symm, alike.maxSize.symm, alike.queue.symm⟩

theorem Alike.stop (alike : Alike left right) : Alike left.stop right.stop :=
  ⟨rfl, alike.maxSize, rfl⟩

theorem Alike.clear (alike : Alike left right) : Alike left.clear right.clear :=
  ⟨alike.stopped, alike.maxSize, rfl⟩

theorem Alike.add (alike : Alike left right) (msg : LinxReceivedMessage ι) :
    (left.add msg).1 = (right.add msg).1 ∧ (left.add msg).2.1 = (right.add msg).2.1 ∧
      Alike (left.add msg).2.2 (right.add msg).2.2 := by
  have same : left.addOutcome = right.addOutcome := by
    simp only [addOutcome, alike.maxSize, alike.queue]
  simp only [LinxQueue.add, same]
  cases right.addOutcome with
  | stored => exact ⟨rfl, rfl, alike.stopped, alike.maxSize, by rw [alike.queue]⟩
  | full | badAlloc => exact ⟨rfl, rfl, alike⟩

theorem Alike.findMessage [BEq ι] (alike : Alike left right) (sigsel : List UInt32)
    (sender : Option ι) :
    (left.findMessage sigsel sender).1 = (right.findMessage sigsel sender).1 ∧
      Alike (left.findMessage sigsel sender).2 (right.findMessage sigsel sender).2 := by
  simp only [LinxQueue.findMessage, alike.queue]
  cases right.queue.findIdx? (matchesFilter sigsel sender) with
  | none => exact ⟨rfl, alike⟩
  | some it => exact ⟨rfl, alike.stopped, alike.maxSize, rfl⟩

theorem Alike.waitPredicate [BEq ι] (alike : Alike left right) (sigsel : List UInt32)
    (sender : Option ι) :
    (left.waitPredicate sigsel sender).1 = (right.waitPredicate sigsel sender).1 ∧
      (left.waitPredicate sigsel sender).2.1 = (right.waitPredicate sigsel sender).2.1 ∧
      Alike (left.waitPredicate sigsel sender).2.2 (right.waitPredicate sigsel sender).2.2 := by
  obtain ⟨msg, found⟩ := alike.findMessage sigsel sender
  simp only [LinxQueue.waitPredicate, msg, found.stopped]
  exact ⟨trivial, trivial, found⟩

end LinxQueue

namespace Queue.Threads

variable {τ ι : Type}

structure Alike (left right : Threads τ ι) : Prop where
  shared : left.shared.Alike right.shared
  pc : left.pc = right.pc

theorem Alike.symm {left right : Threads τ ι} (alike : Alike left right) : Alike right left :=
  ⟨alike.shared.symm, alike.pc.symm⟩

variable [DecidableEq τ] {left right : Threads τ ι}

theorem Alike.leave (alike : Alike left right) {shared other : LinxQueue ι}
    (sharedAlike : shared.Alike other) (thread : τ) (pc : Pc ι) :
    Alike (left.leave shared thread pc) (right.leave other thread pc) :=
  ⟨sharedAlike, congrArg (fun points : τ → Pc ι => Function.update points thread pc) alike.pc⟩

theorem Alike.setPc (alike : Alike left right) (thread : τ) (pc : Pc ι) :
    Alike (left.setPc thread pc) (right.setPc thread pc) :=
  alike.leave alike.shared thread pc

omit [DecidableEq τ] in
theorem Alike.notifyAll (alike : Alike left right) : Alike left.notifyAll right.notifyAll := by
  refine ⟨alike.shared, funext fun thread => ?_⟩
  rw [notifyAll_pc, notifyAll_pc, alike.pc]

theorem Alike.lockAdd (alike : Alike left right) (thread : τ) (msg : LinxReceivedMessage ι) :
    (left.lockAdd thread msg).2 = (right.lockAdd thread msg).2 ∧
      Alike (left.lockAdd thread msg).1 (right.lockAdd thread msg).1 := by
  obtain ⟨result, kept, sharedAlike⟩ := alike.shared.add msg
  simp only [Threads.lockAdd, result, kept]
  exact ⟨trivial, alike.leave sharedAlike _ _⟩

variable [BEq ι]

theorem Alike.lockFind (alike : Alike left right) (thread : τ) (args : Get ι) :
    (left.lockFind thread args).2 = (right.lockFind thread args).2 ∧
      Alike (left.lockFind thread args).1 (right.lockFind thread args).1 := by
  obtain ⟨msg, sharedAlike⟩ := alike.shared.findMessage args.sigsel args.sender
  simp only [Threads.lockFind, msg]
  exact ⟨trivial, alike.leave sharedAlike _ _⟩

theorem Alike.lockWait (alike : Alike left right) (thread : τ) (args : Get ι) :
    (left.lockWait thread args).2 = (right.lockWait thread args).2 ∧
      Alike (left.lockWait thread args).1 (right.lockWait thread args).1 := by
  obtain ⟨holds, msg, sharedAlike⟩ := alike.shared.waitPredicate args.sigsel args.sender
  cases verdict : (right.shared.waitPredicate args.sigsel args.sender).1 with
  | true =>
      rw [verdict] at holds
      simp only [Threads.lockWait, holds, verdict, msg, if_true]
      exact ⟨trivial, alike.leave sharedAlike _ _⟩
  | false =>
      rw [verdict] at holds
      simp only [Threads.lockWait, holds, verdict, msg, Bool.false_eq_true, if_false]
      exact ⟨trivial, alike.leave sharedAlike _ _⟩

theorem Alike.step {next : Threads τ ι} {action : Action τ ι} {events : List (Event τ ι)}
    (alike : Alike left right) (stepped : left.step action = some (next, events)) :
    ∃ other, right.step action = some (other, events) ∧ Alike next other := by
  have answers : ∀ {mine theirs : Threads τ ι} {told heard : List (Event τ ι)}, told = heard →
      Alike mine theirs → some (mine, told) = some (next, events) →
      ∃ other, some (theirs, heard) = some (other, events) ∧ Alike next other := by
    intro mine theirs told heard same both stepped
    cases same
    cases stepped
    exact ⟨theirs, rfl, both⟩
  cases action with
  | call thread call =>
      simp only [Threads.step, ← alike.pc] at stepped ⊢
      split at stepped
      · exact answers rfl (alike.setPc _ _) stepped
      · cases stepped
  | lock thread =>
      simp only [Threads.step, lockSection, ← alike.pc] at stepped ⊢
      split at stepped
      · obtain ⟨same, both⟩ := alike.lockAdd thread ‹_›
        exact answers same both stepped
      · split at stepped
        · rename_i immediate
          obtain ⟨same, both⟩ := alike.lockFind thread ‹_›
          rw [if_pos immediate]
          exact answers same both stepped
        · rename_i waits
          obtain ⟨same, both⟩ := alike.lockWait thread ‹_›
          rw [if_neg waits]
          exact answers same both stepped
      · exact answers rfl (alike.leave alike.shared.clear _ _) stepped
      · exact answers rfl (alike.leave alike.shared.stop _ _).notifyAll stepped
      · obtain ⟨same, both⟩ := alike.lockWait thread ‹_›
        exact answers same both stepped
      · obtain ⟨same, both⟩ := alike.lockFind thread ‹_›
        exact answers same both stepped
      · cases stepped
  | notify thread =>
      simp only [Threads.step, ← alike.pc] at stepped ⊢
      split at stepped
      · exact answers rfl (alike.setPc _ _).notifyAll stepped
      · cases stepped
  | spurious thread | ret thread =>
      simp only [Threads.step, ← alike.pc] at stepped ⊢
      split at stepped
      · exact answers rfl (alike.setPc _ _) stepped
      · cases stepped
  | timeout thread =>
      simp only [Threads.step, ← alike.pc] at stepped ⊢
      split at stepped
      · split at stepped
        · cases stepped
        · rename_i limited
          rw [if_neg limited]
          exact answers rfl (alike.setPc _ _) stepped
      · split at stepped
        · cases stepped
        · rename_i limited
          rw [if_neg limited]
          exact answers rfl (alike.setPc _ _) stepped
      · cases stepped

end Queue.Threads

/-! ### Servers -/

namespace Server.State

variable {κ α ι : Type}

inductive Alike (left : State κ α ι) : State κ α ι → Prop where
  | intro {queue : Queue.Threads (Role κ) ι} (alike : left.queue.Alike queue) :
      Alike left { left with queue := queue }

theorem Alike.symm {left right : State κ α ι} (alike : Alike left right) : Alike right left := by
  cases alike with
  | @intro queue alike =>
      have back := @Alike.intro _ _ _ { left with queue := queue } left.queue alike.symm
      exact back

variable [DecidableEq κ] [BEq ι] {left right : State κ α ι}

theorem Alike.stepQueue (alike : Alike left right) {action : Queue.Action (Role κ) ι}
    {next : State κ α ι} {events : List (Queue.Event (Role κ) ι)}
    (stepped : left.stepQueue action = some (next, events)) :
    ∃ queue other, next = { left with queue := queue } ∧
      right.stepQueue action = some ({ left with queue := other }, events) ∧
      queue.Alike other := by
  cases alike with
  | intro alike =>
      simp only [State.stepQueue] at stepped ⊢
      split at stepped
      · cases stepped
      · rename_i queue emitted moved
        obtain ⟨other, answered, both⟩ := alike.step moved
        cases stepped
        simp only [answered]
        exact ⟨queue, other, rfl, rfl, both⟩

theorem Alike.runTurn (alike : Alike left right) {received : Received ι} {next : State κ α ι}
    {events : List (Event κ α ι)} (turned : left.runTurn received = some (next, events)) :
    ∃ other, right.runTurn received = some (other, events) ∧ Alike next other := by
  have asked := @Alike.stepQueue _ _ _ _ _ _ _ alike
  cases alike with
  | intro alike =>
      simp only [State.runTurn] at turned ⊢
      split at turned
      · cases turned
      · cases turned
        exact ⟨_, rfl, .intro alike⟩
      · cases turned
        exact ⟨_, rfl, .intro alike⟩
      · split at turned
        · cases turned
        · rename_i called emitted moved
          obtain ⟨queue, other, rfl, answered, both⟩ := asked moved
          cases turned
          simp only [answered]
          exact ⟨_, rfl, .intro both⟩

theorem Alike.step (identifier : α → ι) (alike : Alike left right) {action : Action κ α ι}
    {next : State κ α ι} {events : List (Event κ α ι)}
    (stepped : State.step identifier left action = some (next, events)) :
    ∃ other, State.step identifier right action = some (other, events) ∧ Alike next other := by
  have asked := @Alike.stepQueue _ _ _ _ _ _ _ alike
  cases alike with
  | @intro queue alike =>
    cases action with
    | arrive datagram =>
        simp only [State.step] at stepped ⊢
        split at stepped
        · rename_i opened
          cases stepped
          rw [if_pos opened]
          exact ⟨_, rfl, .intro alike⟩
        · cases stepped
    | receive =>
        simp only [State.step] at stepped ⊢
        split at stepped
        · rename_i datagram later receiving opened atHead
          have shorter : Alike { left with inbox := later }
            { left with inbox := later, queue := queue } := .intro alike
          split at stepped
          · cases stepped
          · rename_i turned
            obtain ⟨other, answered, both⟩ := shorter.runTurn turned
            cases stepped
            simp only [answered]
            exact ⟨other, rfl, both⟩
        · cases stepped
    | receiveFails | answer =>
        simp only [State.step] at stepped ⊢
        split at stepped
        · cases stepped
          exact ⟨_, rfl, .intro alike⟩
        · cases stepped
    | queue action =>
        simp only [State.step] at stepped ⊢
        split at stepped
        · rename_i allowed
          split at stepped
          · cases stepped
          · rename_i moved
            obtain ⟨after, other, rfl, answered, both⟩ := asked moved
            cases stepped
            simp only [if_pos allowed, answered]
            exact ⟨_, rfl, .intro both⟩
        · cases stepped
    | start =>
        simp only [State.step] at stepped ⊢
        split at stepped
        · split at stepped
          · rename_i already
            cases stepped
            simp only [if_pos already]
            exact ⟨_, rfl, .intro alike⟩
          · rename_i fresh
            cases stepped
            simp only [if_neg fresh]
            exact ⟨_, rfl, .intro alike⟩
        · cases stepped
    | stop =>
        simp only [State.step] at stepped ⊢
        split at stepped
        · split at stepped
          · rename_i running
            split at stepped
            · cases stepped
            · rename_i moved
              obtain ⟨after, other, rfl, answered, both⟩ := asked moved
              cases stepped
              simp only [if_pos running, answered]
              exact ⟨_, rfl, .intro both⟩
          · rename_i absent
            cases stepped
            simp only [if_neg absent]
            exact ⟨_, rfl, .intro alike⟩
        · cases stepped
    | join =>
        simp only [State.step] at stepped ⊢
        split at stepped
        · cases stepped
          exact ⟨_, rfl, .intro alike⟩
        · cases stepped

theorem descriptor_lockstep (identifier : α → ι) :
    (machine (κ := κ) identifier).Lockstep (machine identifier) Alike where
  forth _ _ _ _ _ alike stepped := alike.step identifier stepped
  back _ _ _ _ _ alike stepped := by
    obtain ⟨next, answered, both⟩ := alike.symm.step identifier stepped
    exact ⟨next, answered, both.symm⟩

theorem did_unreadable {s next : Queue.Threads (Role κ) ι} {action : Queue.Action (Role κ) ι}
    {events : List (Queue.Event (Role κ) ι)} (did : Queue.Threads.Did s action next events)
    (failed : s.shared.efd.efd < 0) : next.shared.efd.efd < 0 := by
  have cleared : ∀ event : LinxEventFd, event.efd < 0 → event.clearEvents.efd < 0 := by
    intro event negative
    rw [LinxEventFd.clearEvents, if_pos negative]
    exact negative
  cases did with
  | invoked | slept | notified | woke | timedOut | returned => exact failed
  | @added thread msg result kept shared ready computed =>
      unfold LinxQueue.add at computed
      split at computed
      · cases computed
        exact (LinxEventFd.writeEvent_efd _).symm ▸ failed
      · cases computed
        exact failed
      · cases computed
        exact failed
  | @got thread args msg shared ready computed may =>
      have fields := (s.shared.findMessage_fields args.sigsel args.sender).2.2
      rw [computed] at fields
      exact fields.symm ▸ failed
  | cleared | stopped => exact cleared _ failed

/-- Two servers with the same clients and the same schedule that differ in their
event descriptors cannot be told apart by what their functions return; a
descriptor that could not be opened only never becomes readable. -/
theorem descriptor_only_wakes (identifier : α → ι) (efd other : LinxEventFd) (size : Int32)
    (actions : List (Action κ α ι)) :
    ((machine identifier).run (create efd size) actions).map Prod.snd =
        ((machine identifier).run (create other size) actions).map Prod.snd ∧
      ∀ s events, (machine identifier).run (create efd size) actions = some (s, events) →
        efd.efd < 0 → s.queue.shared.efd.readable = false := by
  constructor
  · refine (descriptor_lockstep identifier).run_events ?_ actions
    have queues : (Queue.Threads.initial (τ := Role κ) (ι := ι) efd size).Alike
      (.initial other size) := ⟨⟨rfl, rfl, rfl⟩, rfl⟩
    exact .intro queues
  · intro s events ran failed
    obtain ⟨queueActions, ranQueue⟩ := run_queue ran
    have stays : s.queue.shared.efd.efd < 0 :=
      Machine.Reachable.invariant
        (motive := fun queue : Queue.Threads (Role κ) ι => queue.shared.efd.efd < 0) failed
        (fun _ _ _ _ negative stepped =>
          did_unreadable (Queue.Threads.step_cases stepped) negative) ⟨_, _, ranQueue⟩
    rw [LinxEventFd.readable, decide_eq_false (Int.not_le.mpr stays), Bool.false_and]

end Server.State

end LinxIpc
