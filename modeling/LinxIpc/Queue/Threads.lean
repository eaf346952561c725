import Mathlib.Logic.Function.Basic
import LinxIpc.Machine.Run
import LinxIpc.Queue.LinxQueue

/-!
Any number of threads on one `LinxQueue`.

A step is one lock-protected section, the `notify_all` that `add` performs after
unlocking, a wakeup, or the start or the return of a call.  Sleeping on the
condition variable releases the mutex in the same step, so no step sees a state
in which the mutex is held.  The threads are named by an arbitrary type; each of
them makes calls in any order, and the environment chooses who moves.
-/

namespace LinxIpc.Queue

variable {τ ι : Type}

structure Get (ι : Type) where
  timeoutMs : Int
  sigsel : List UInt32
  sender : Option ι
  deriving DecidableEq, Repr

def Get.matches [BEq ι] (get : Get ι) (msg : LinxReceivedMessage ι) : Bool :=
  matchesFilter get.sigsel get.sender msg

inductive Call (ι : Type) where
  | add (msg : LinxReceivedMessage ι)
  | get (args : Get ι)
  | clear
  | stop
  deriving DecidableEq, Repr

/-- What a call gives back.  For `add` that is the result code, absent when an
exception leaves the function, and what the caller's pointer still owns. -/
inductive Return (ι : Type) where
  | add (result : Option Int) (kept : Option (LinxReceivedMessage ι))
  | get (msg : Option (LinxReceivedMessage ι))
  | done
  deriving DecidableEq, Repr

inductive Pc (ι : Type) where
  | idle
  | locking (call : Call ι)
  /-- `add` between `lock.unlock()` and `m_cv.notify_all()`. -/
  | notifying (result : Return ι)
  /-- In `m_cv.wait` or `m_cv.wait_for`, with the mutex released. -/
  | asleep (args : Get ι)
  | woken (args : Get ι)
  /-- `wait_for` timed out: it relocks to evaluate the predicate once more. -/
  | expired (args : Get ι)
  | returning (result : Return ι)
  deriving DecidableEq, Repr

def Pc.notified : Pc ι → Pc ι
  | .asleep args => .woken args
  | pc => pc

structure Threads (τ ι : Type) where
  shared : LinxQueue ι
  pc : τ → Pc ι

inductive Action (τ ι : Type) where
  | call (thread : τ) (call : Call ι)
  /-- The thread takes the mutex and runs its section to the unlock. -/
  | lock (thread : τ)
  | notify (thread : τ)
  | spurious (thread : τ)
  | timeout (thread : τ)
  | ret (thread : τ)

inductive Event (τ ι : Type) where
  | invoked (thread : τ) (call : Call ι)
  /-- `findMessage` erased a message for the thread. -/
  | removed (thread : τ) (msg : LinxReceivedMessage ι)
  /-- The last locked section of the call, which fixes its result. -/
  | committed (thread : τ) (call : Call ι) (result : Return ι)
  | returned (thread : τ) (result : Return ι)
  deriving DecidableEq

def Action.thread : Action τ ι → τ
  | .call thread _ => thread
  | .lock thread => thread
  | .notify thread => thread
  | .spurious thread => thread
  | .timeout thread => thread
  | .ret thread => thread

def Event.thread : Event τ ι → τ
  | .invoked thread _ => thread
  | .removed thread _ => thread
  | .committed thread _ _ => thread
  | .returned thread _ => thread

namespace Threads

def initial (efd : LinxEventFd) (size : Int32) : Threads τ ι :=
  { shared := LinxQueue.create efd size, pc := fun _ => .idle }

variable [DecidableEq τ]

def setPc (s : Threads τ ι) (thread : τ) (pc : Pc ι) : Threads τ ι :=
  { s with pc := Function.update s.pc thread pc }

def notifyAll (s : Threads τ ι) : Threads τ ι :=
  { s with pc := fun thread => (s.pc thread).notified }

def leave (s : Threads τ ι) (shared : LinxQueue ι) (thread : τ) (pc : Pc ι) : Threads τ ι :=
  { shared := shared, pc := Function.update s.pc thread pc }

def removal (thread : τ) (msg : Option (LinxReceivedMessage ι)) : List (Event τ ι) :=
  msg.toList.map (Event.removed thread)

/-- The locked section of `add`: a thrown exception skips `notify_all`. -/
def lockAdd (s : Threads τ ι) (thread : τ) (msg : LinxReceivedMessage ι) :
    Threads τ ι × List (Event τ ι) :=
  let (result, kept, shared) := s.shared.add msg
  let value := Return.add result kept
  let next := if result.isSome then Pc.notifying value else Pc.returning value
  (s.leave shared thread next, [.committed thread (.add msg) value])

variable [BEq ι]

/-- `findMessage` under the lock, after which the call returns: `getMessage`, and
the evaluation of the predicate after a timeout. -/
def lockFind (s : Threads τ ι) (thread : τ) (args : Get ι) :
    Threads τ ι × List (Event τ ι) :=
  let (msg, shared) := s.shared.findMessage args.sigsel args.sender
  (s.leave shared thread (.returning (.get msg)),
    removal thread msg ++ [.committed thread (.get args) (.get msg)])

/-- The predicate of a wait: the call returns if it holds, and otherwise
releases the mutex and sleeps. -/
def lockWait (s : Threads τ ι) (thread : τ) (args : Get ι) :
    Threads τ ι × List (Event τ ι) :=
  let (holds, msg, shared) := s.shared.waitPredicate args.sigsel args.sender
  if holds then
    (s.leave shared thread (.returning (.get msg)),
      removal thread msg ++ [.committed thread (.get args) (.get msg)])
  else (s.leave shared thread (.asleep args), removal thread msg)

def lockSection (s : Threads τ ι) (thread : τ) : Option (Threads τ ι × List (Event τ ι)) :=
  match s.pc thread with
  | .locking (.add msg) => some (s.lockAdd thread msg)
  | .locking (.get args) =>
      if args.timeoutMs = immediateTimeout then some (s.lockFind thread args)
      else some (s.lockWait thread args)
  | .locking .clear =>
      some (s.leave s.shared.clear thread (.returning .done), [.committed thread .clear .done])
  | .locking .stop =>
      some ((s.leave s.shared.stop thread (.returning .done)).notifyAll,
        [.committed thread .stop .done])
  | .woken args => some (s.lockWait thread args)
  | .expired args => some (s.lockFind thread args)
  | _ => none

def step (s : Threads τ ι) : Action τ ι → Option (Threads τ ι × List (Event τ ι))
  | .call thread call =>
      match s.pc thread with
      | .idle => some (s.setPc thread (.locking call), [.invoked thread call])
      | _ => none
  | .lock thread => s.lockSection thread
  | .notify thread =>
      match s.pc thread with
      | .notifying result => some ((s.setPc thread (.returning result)).notifyAll, [])
      | _ => none
  | .spurious thread =>
      match s.pc thread with
      | .asleep args => some (s.setPc thread (.woken args), [])
      | _ => none
  | .timeout thread =>
      -- a notified `wait_for` may also find that its time is over
      match s.pc thread with
      | .asleep args | .woken args =>
          if args.timeoutMs = infiniteTimeout then none
          else some (s.setPc thread (.expired args), [])
      | _ => none
  | .ret thread =>
      match s.pc thread with
      | .returning result => some (s.setPc thread .idle, [.returned thread result])
      | _ => none

def machine : Machine (Threads τ ι) (Action τ ι) (Event τ ι) where
  step := step

/-! ### What a step can do -/

omit [BEq ι] in
@[simp]
theorem setPc_shared (s : Threads τ ι) (thread : τ) (pc : Pc ι) :
    (s.setPc thread pc).shared = s.shared :=
  rfl

omit [BEq ι] in
@[simp]
theorem setPc_pc (s : Threads τ ι) (thread : τ) (pc : Pc ι) :
    (s.setPc thread pc).pc = Function.update s.pc thread pc :=
  rfl

omit [DecidableEq τ] [BEq ι] in
@[simp]
theorem notifyAll_shared (s : Threads τ ι) : s.notifyAll.shared = s.shared :=
  rfl

omit [DecidableEq τ] [BEq ι] in
@[simp]
theorem notifyAll_pc (s : Threads τ ι) (thread : τ) :
    s.notifyAll.pc thread = (s.pc thread).notified :=
  rfl

omit [BEq ι] in
@[simp]
theorem leave_shared (s : Threads τ ι) (shared : LinxQueue ι) (thread : τ) (pc : Pc ι) :
    (s.leave shared thread pc).shared = shared :=
  rfl

omit [BEq ι] in
@[simp]
theorem leave_pc (s : Threads τ ι) (shared : LinxQueue ι) (thread : τ) (pc : Pc ι) :
    (s.leave shared thread pc).pc = Function.update s.pc thread pc :=
  rfl

def Evaluates (pc : Pc ι) (args : Get ι) : Prop :=
  pc = .locking (.get args) ∨ pc = .woken args ∨ pc = .expired args

/-- Why a `get` may return: it has a message, it does not wait, its time is over,
or the queue was stopped. -/
def MayReturn (s : Threads τ ι) (thread : τ) (args : Get ι)
    (msg : Option (LinxReceivedMessage ι)) : Prop :=
  msg.isSome = true ∨ args.timeoutMs = immediateTimeout ∨ s.pc thread = .expired args ∨
    s.shared.stopped = true

def afterAdd (result : Option Int) (kept : Option (LinxReceivedMessage ι)) : Pc ι :=
  if result.isSome then .notifying (.add result kept) else .returning (.add result kept)

inductive Did (s : Threads τ ι) :
    Action τ ι → Threads τ ι → List (Event τ ι) → Prop where
  | invoked {thread : τ} {call : Call ι} (ready : s.pc thread = .idle) :
      Did s (.call thread call) (s.setPc thread (.locking call)) [.invoked thread call]
  | added {thread : τ} {msg : LinxReceivedMessage ι} {result : Option Int}
      {kept : Option (LinxReceivedMessage ι)} {shared : LinxQueue ι}
      (ready : s.pc thread = .locking (.add msg))
      (computed : s.shared.add msg = (result, kept, shared)) :
      Did s (.lock thread) (s.leave shared thread (afterAdd result kept))
        [.committed thread (.add msg) (.add result kept)]
  | got {thread : τ} {args : Get ι} {msg : Option (LinxReceivedMessage ι)}
      {shared : LinxQueue ι} (ready : Evaluates (s.pc thread) args)
      (computed : s.shared.findMessage args.sigsel args.sender = (msg, shared))
      (may : MayReturn s thread args msg) :
      Did s (.lock thread) (s.leave shared thread (.returning (.get msg)))
        (removal thread msg ++ [.committed thread (.get args) (.get msg)])
  | slept {thread : τ} {args : Get ι} (ready : Evaluates (s.pc thread) args)
      (missing : (s.shared.findMessage args.sigsel args.sender).1 = none)
      (running : s.shared.stopped = false) :
      Did s (.lock thread) (s.setPc thread (.asleep args)) []
  | cleared {thread : τ} (ready : s.pc thread = .locking .clear) :
      Did s (.lock thread) (s.leave s.shared.clear thread (.returning .done))
        [.committed thread .clear .done]
  | stopped {thread : τ} (ready : s.pc thread = .locking .stop) :
      Did s (.lock thread) (s.leave s.shared.stop thread (.returning .done)).notifyAll
        [.committed thread .stop .done]
  | notified {thread : τ} {result : Return ι} (ready : s.pc thread = .notifying result) :
      Did s (.notify thread) (s.setPc thread (.returning result)).notifyAll []
  | woke {thread : τ} {args : Get ι} (ready : s.pc thread = .asleep args) :
      Did s (.spurious thread) (s.setPc thread (.woken args)) []
  | timedOut {thread : τ} {args : Get ι}
      (ready : s.pc thread = .asleep args ∨ s.pc thread = .woken args)
      (limited : args.timeoutMs ≠ infiniteTimeout) :
      Did s (.timeout thread) (s.setPc thread (.expired args)) []
  | returned {thread : τ} {result : Return ι} (ready : s.pc thread = .returning result) :
      Did s (.ret thread) (s.setPc thread .idle) [.returned thread result]

theorem did_lockFind {s : Threads τ ι} {thread : τ} {args : Get ι}
    (ready : Evaluates (s.pc thread) args)
    (last : args.timeoutMs = immediateTimeout ∨ s.pc thread = .expired args) :
    Did s (.lock thread) (s.lockFind thread args).1 (s.lockFind thread args).2 := by
  refine .got ready rfl ?_
  rcases last with immediate | expired
  · exact .inr (.inl immediate)
  · exact .inr (.inr (.inl expired))

theorem did_lockWait {s : Threads τ ι} {thread : τ} {args : Get ι}
    (ready : Evaluates (s.pc thread) args) :
    Did s (.lock thread) (s.lockWait thread args).1 (s.lockWait thread args).2 := by
  have fields := s.shared.findMessage_fields args.sigsel args.sender
  have unchanged := @LinxQueue.findMessage_none ι _ s.shared args.sigsel args.sender
  cases computed : s.shared.findMessage args.sigsel args.sender with
  | mk msg shared =>
      rw [computed] at fields unchanged
      simp only [lockWait, LinxQueue.waitPredicate, computed]
      cases msg with
      | some msg => exact .got ready computed (.inl rfl)
      | none =>
          have sameStopped : shared.stopped = s.shared.stopped := fields.1
          rw [Option.isSome_none, Bool.false_or, sameStopped]
          cases running : s.shared.stopped with
          | true => exact .got ready computed (.inr (.inr (.inr running)))
          | false =>
              have same : shared = s.shared := unchanged rfl
              rw [if_neg Bool.false_ne_true, same]
              exact .slept ready (congrArg Prod.fst computed) running

private theorem did_some {s next : Threads τ ι} {action : Action τ ι}
    {events : List (Event τ ι)} {outcome : Threads τ ι × List (Event τ ι)}
    (same : some outcome = some (next, events)) (did : Did s action outcome.1 outcome.2) :
    Did s action next events := by
  obtain rfl := Option.some.inj same
  exact did

theorem did_lockSection {s next : Threads τ ι} {thread : τ} {events : List (Event τ ι)}
    (stepped : s.lockSection thread = some (next, events)) :
    Did s (.lock thread) next events := by
  unfold lockSection at stepped
  split at stepped
  · rename_i msg ready
    exact did_some stepped (.added ready rfl)
  · rename_i args ready
    split at stepped
    · rename_i immediate
      exact did_some stepped (did_lockFind (.inl ready) (.inl immediate))
    · exact did_some stepped (did_lockWait (.inl ready))
  · rename_i ready
    exact did_some stepped (.cleared ready)
  · rename_i ready
    exact did_some stepped (.stopped ready)
  · rename_i args ready
    exact did_some stepped (did_lockWait (.inr (.inl ready)))
  · rename_i args ready
    exact did_some stepped (did_lockFind (.inr (.inr ready)) (.inr ready))
  · cases stepped

theorem step_cases {s next : Threads τ ι} {action : Action τ ι} {events : List (Event τ ι)}
    (stepped : s.step action = some (next, events)) : Did s action next events := by
  cases action with
  | call thread call =>
      simp only [step] at stepped
      split at stepped
      · rename_i ready
        cases stepped
        exact .invoked ready
      · cases stepped
  | lock thread => exact did_lockSection stepped
  | notify thread =>
      simp only [step] at stepped
      split at stepped
      · rename_i result ready
        cases stepped
        exact .notified ready
      · cases stepped
  | spurious thread =>
      simp only [step] at stepped
      split at stepped
      · rename_i args ready
        cases stepped
        exact .woke ready
      · cases stepped
  | timeout thread =>
      simp only [step] at stepped
      split at stepped
      · rename_i args ready
        split at stepped
        · cases stepped
        · rename_i limited
          cases stepped
          exact .timedOut (.inl ready) limited
      · rename_i args ready
        split at stepped
        · cases stepped
        · rename_i limited
          cases stepped
          exact .timedOut (.inr ready) limited
      · cases stepped
  | ret thread =>
      simp only [step] at stepped
      split at stepped
      · rename_i result ready
        cases stepped
        exact .returned ready
      · cases stepped

/-! ### One thread -/

inductive Goes : Pc ι → Pc ι → Prop where
  | stays (pc : Pc ι) : Goes pc pc
  | added {msg : LinxReceivedMessage ι} {result : Option Int}
      {kept : Option (LinxReceivedMessage ι)} :
      Goes (.locking (.add msg)) (afterAdd result kept)
  | notified (result : Return ι) : Goes (.notifying result) (.returning result)
  | got {pc : Pc ι} {args : Get ι} {msg : Option (LinxReceivedMessage ι)}
      (ready : Evaluates pc args) : Goes pc (.returning (.get msg))
  | slept {pc : Pc ι} {args : Get ι} (ready : Evaluates pc args) : Goes pc (.asleep args)
  | woken (args : Get ι) : Goes (.asleep args) (.woken args)
  | timedOut {pc : Pc ι} {args : Get ι} (ready : pc = .asleep args ∨ pc = .woken args)
      (limited : args.timeoutMs ≠ infiniteTimeout) : Goes pc (.expired args)
  | cleared : Goes (.locking .clear) (.returning .done)
  | stopped : Goes (.locking .stop) (.returning .done)

omit [DecidableEq τ] [BEq ι] in
theorem goes_notified (pc : Pc ι) : Goes pc pc.notified := by
  cases pc with
  | asleep args => exact .woken args
  | idle | locking | notifying | woken | expired | returning => exact .stays _

inductive Step (s next : Threads τ ι) (thread : τ) : Action τ ι → Prop where
  | called {call : Call ι} (before : s.pc thread = .idle) (after : next.pc thread = .locking call) :
      Step s next thread (.call thread call)
  | returned {result : Return ι} (before : s.pc thread = .returning result)
      (after : next.pc thread = .idle) : Step s next thread (.ret thread)
  | went {action : Action τ ι} (inside : action ≠ .ret thread)
      (goes : Goes (s.pc thread) (next.pc thread)) : Step s next thread action

theorem did_frame {s next : Threads τ ι} {action : Action τ ι} {events : List (Event τ ι)}
    (did : Did s action next events) {thread : τ} (other : thread ≠ action.thread) :
    next.pc thread = s.pc thread ∨ next.pc thread = (s.pc thread).notified := by
  cases did with
  | invoked | added | got | slept | cleared | woke | timedOut | returned =>
      exact .inl (Function.update_of_ne other _ _)
  | stopped | notified =>
      right
      rw [notifyAll_pc]
      exact congrArg Pc.notified (Function.update_of_ne other _ _)

theorem did_speaks {s next : Threads τ ι} {action : Action τ ι} {events : List (Event τ ι)}
    (did : Did s action next events) : ∀ event ∈ events, event.thread = action.thread := by
  cases did with
  | invoked | added | cleared | stopped | returned =>
      rw [List.forall_mem_singleton]
      rfl
  | got ready computed may =>
      rw [List.forall_mem_append, List.forall_mem_singleton]
      refine ⟨?_, rfl⟩
      intro event member
      obtain ⟨_, -, rfl⟩ := List.mem_map.mp member
      rfl
  | slept | notified | woke | timedOut => exact List.forall_mem_nil _

theorem did_invoked {s next : Threads τ ι} {action : Action τ ι} {events : List (Event τ ι)}
    (did : Did s action next events) {thread : τ} {call : Call ι}
    (member : .invoked thread call ∈ events) : action = .call thread call := by
  cases did with
  | invoked ready =>
      cases List.mem_singleton.mp member
      rfl
  | got ready computed may =>
      rcases List.mem_append.mp member with erased | committed
      · obtain ⟨_, -, same⟩ := List.mem_map.mp erased
        cases same
      · cases List.mem_singleton.mp committed
  | added | cleared | stopped | returned => cases List.mem_singleton.mp member
  | slept | notified | woke | timedOut => cases member

theorem did_returned {s next : Threads τ ι} {action : Action τ ι} {events : List (Event τ ι)}
    (did : Did s action next events) {thread : τ} {result : Return ι}
    (member : .returned thread result ∈ events) :
    action = .ret thread ∧ s.pc thread = .returning result := by
  cases did with
  | returned ready =>
      cases List.mem_singleton.mp member
      exact ⟨rfl, ready⟩
  | got ready computed may =>
      rcases List.mem_append.mp member with erased | committed
      · obtain ⟨_, -, same⟩ := List.mem_map.mp erased
        cases same
      · cases List.mem_singleton.mp committed
  | invoked | added | cleared | stopped => cases List.mem_singleton.mp member
  | slept | notified | woke | timedOut => cases member

omit [BEq ι] in
private theorem goes_update {s : Threads τ ι} {pc : Pc ι} {thread : τ}
    (goes : Goes (s.pc thread) pc) :
    Goes (s.pc thread) (Function.update s.pc thread pc thread) := by
  rw [Function.update_self]
  exact goes

theorem did_thread {s next : Threads τ ι} {action : Action τ ι} {events : List (Event τ ι)}
    (did : Did s action next events) (thread : τ) : Step s next thread action := by
  by_cases own : thread = action.thread
  · subst own
    cases did with
    | invoked ready => exact .called ready (Function.update_self ..)
    | added ready computed => exact .went nofun (goes_update (ready ▸ .added))
    | got ready computed may => exact .went nofun (goes_update (.got ready))
    | slept ready missing running => exact .went nofun (goes_update (.slept ready))
    | cleared ready => exact .went nofun (goes_update (ready ▸ .cleared))
    | @stopped mover ready =>
        refine .went nofun ?_
        change Goes (s.pc mover)
          ((s.leave s.shared.stop mover (.returning .done)).notifyAll.pc mover)
        rw [notifyAll_pc, leave_pc, Function.update_self, ready]
        exact .stopped
    | @notified mover result ready =>
        refine .went nofun ?_
        change Goes (s.pc mover) ((s.setPc mover (.returning result)).notifyAll.pc mover)
        rw [notifyAll_pc, setPc_pc, Function.update_self, ready]
        exact .notified result
    | @woke mover args ready => exact .went nofun (goes_update (ready ▸ .woken args))
    | timedOut ready limited => exact .went nofun (goes_update (.timedOut ready limited))
    | returned ready => exact .returned ready (Function.update_self ..)
  · refine .went ?_ ?_
    · rintro rfl
      exact own rfl
    · rcases did_frame did own with same | notified
      · rw [same]
        exact .stays _
      · rw [notified]
        exact goes_notified _

theorem reachable_expired {efd : LinxEventFd} {size : Int32} {s : Threads τ ι}
    (reached : machine.Reachable (initial efd size) s) {thread : τ} {args : Get ι}
    (expired : s.pc thread = .expired args) : args.timeoutMs ≠ infiniteTimeout := by
  revert expired
  refine reached.invariant
    (motive := fun s => s.pc thread = .expired args → args.timeoutMs ≠ infiniteTimeout)
    (fun expired => by cases expired) ?_
  intro s action next emitted before stepped expired
  cases did_thread (step_cases stepped) thread with
  | called _ after | returned _ after =>
      rw [expired] at after
      cases after
  | went inside goes =>
      generalize s.pc thread = old at goes before
      generalize next.pc thread = new at goes expired
      cases goes with
      | stays => exact before expired
      | timedOut ready limited =>
          cases expired
          exact limited
      | @added msg result kept => cases result <;> cases expired
      | notified | got | slept | woken | cleared | stopped => cases expired

omit [BEq ι] in
private theorem stop_waits {s next : Threads τ ι} {mover thread : τ} {pc : Pc ι}
    (elsewhere : s.pc mover ≠ .locking .stop) (moved : next.pc = Function.update s.pc mover pc)
    (waits : s.pc thread = .locking .stop) : next.pc thread = .locking .stop := by
  have different : thread ≠ mover := by
    rintro rfl
    exact elsewhere waits
  rw [moved, Function.update_of_ne different]
  exact waits

theorem did_stopped {s next : Threads τ ι} {action : Action τ ι} {events : List (Event τ ι)}
    (did : Did s action next events) :
    (next.shared.stopped = s.shared.stopped ∧
        ∀ thread, s.pc thread = .locking .stop → next.pc thread = .locking .stop) ∨
      ∃ thread, action = .lock thread ∧ s.pc thread = .locking .stop ∧
        next.shared = s.shared.stop := by
  cases did with
  | invoked ready | cleared ready | woke ready | returned ready =>
      exact .inl ⟨rfl, fun _ => stop_waits (by rw [ready]; exact nofun) rfl⟩
  | @added thread msg result kept shared ready computed =>
      have sameStopped : shared.stopped = s.shared.stopped := by
        unfold LinxQueue.add at computed
        split at computed <;> cases computed <;> rfl
      exact .inl ⟨sameStopped, fun _ => stop_waits (by rw [ready]; exact nofun) rfl⟩
  | @got thread args msg shared ready computed may =>
      obtain ⟨sameStopped, -, -⟩ := s.shared.findMessage_fields args.sigsel args.sender
      rw [computed] at sameStopped
      refine .inl ⟨sameStopped, fun _ => stop_waits ?_ rfl⟩
      rcases ready with ready | ready | ready <;> rw [ready] <;> exact nofun
  | slept ready missing running =>
      refine .inl ⟨rfl, fun _ => stop_waits ?_ rfl⟩
      rcases ready with ready | ready | ready <;> rw [ready] <;> exact nofun
  | @stopped mover ready => exact .inr ⟨mover, rfl, ready, rfl⟩
  | @notified mover result ready =>
      refine .inl ⟨rfl, fun thread waits => ?_⟩
      rw [notifyAll_pc, stop_waits (by rw [ready]; exact nofun) (setPc_pc ..) waits]
      rfl
  | timedOut ready limited =>
      refine .inl ⟨rfl, fun _ => stop_waits ?_ rfl⟩
      rcases ready with ready | ready <;> rw [ready] <;> exact nofun

theorem did_stays_stopped {s next : Threads τ ι} {action : Action τ ι} {events : List (Event τ ι)}
    (did : Did s action next events) (stopped : s.shared.stopped = true) :
    next.shared.stopped = true := by
  rcases did_stopped did with ⟨same, -⟩ | ⟨thread, -, -, now⟩
  · exact same.trans stopped
  · exact congrArg LinxQueue.stopped now

end Threads

end LinxIpc.Queue
