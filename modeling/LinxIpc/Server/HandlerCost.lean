import LinxIpc.Server.Dispatch
import LinxIpc.Server.KeepsUp

/-!
What a datagram costs the worker and a handler that calls `handleMessage()` in a loop.

Each point of the two threads, and each message on its way between them, is charged
with the steps that it still leads to; every step of theirs is paid for.
-/

namespace LinxIpc.Server

variable {α β δ ι : Type}

open Queue (Pc)
open Queue.Threads (Evaluates)

/-! ### The two threads at the queue -/

def addCost (reply : Nat) : Pc ι → Nat
  | .locking _ => reply + 8
  | .notifying _ => 3
  | .returning _ => 1
  | .idle | .asleep _ | .woken _ | .expired _ => 0

/-- What the thread of the handler has still to do before it waits or calls, where a
callback takes `reply` steps besides its return. -/
def handlerCost (reply : Nat) : Pc ι → Nat
  | .idle => 3
  | .locking (.get args) | .woken args =>
      if args.timeoutMs = infiniteTimeout then 2 else reply + 8
  | .asleep args => if args.timeoutMs = infiniteTimeout then 1 else reply + 7
  | .expired _ => reply + 6
  | .returning _ => reply + 5
  | .locking _ | .notifying _ => 0

def queueCost (reply : Nat) (q : Queue.Threads (Role Unit) ι) : Nat :=
  addCost reply (q.pc .worker) + q.shared.queue.length * (reply + 4) +
    handlerCost reply (q.pc (.consumer ()))

structure Tended (q : Queue.Threads (Role Unit) ι) : Prop where
  adds : q.pc .worker = .idle ∨ Adds (q.pc .worker)
  gets : Gets (q.pc (.consumer ()))
  idle : q.pc .control = .idle
  running : q.shared.stopped = false

theorem handlerCost_returning (reply : Nat) (result : Queue.Return ι) :
    handlerCost reply (.returning result) = reply + 5 :=
  rfl

theorem handlerCost_notified (reply : Nat) (pc : Pc ι) :
    handlerCost reply pc.notified ≤ handlerCost reply pc + 1 := by
  cases pc with
  | asleep args =>
      simp only [Pc.notified, handlerCost]
      split
      · exact Nat.le_refl _
      · exact Nat.le_refl _
  | idle | locking | notifying | woken | expired | returning => exact Nat.le_succ _

theorem add_length (q : LinxQueue ι) (msg : LinxReceivedMessage ι) :
    (q.add msg).2.2.queue.length ≤ q.queue.length + 1 ∧
      ((q.add msg).1 = none → (q.add msg).2.2 = q) := by
  unfold LinxQueue.add
  cases q.addOutcome with
  | stored =>
      refine ⟨Nat.le_of_eq List.length_append, ?_⟩
      intro thrown
      cases thrown
  | full => exact ⟨Nat.le_succ _, fun _ => rfl⟩
  | badAlloc => exact ⟨Nat.le_succ _, fun _ => rfl⟩

theorem findMessage_length [BEq ι] {q shared : LinxQueue ι} {sigsel : List UInt32}
    {sender : Option ι} {msg : Option (LinxReceivedMessage ι)}
    (computed : q.findMessage sigsel sender = (msg, shared)) :
    shared.queue.length + msg.isSome.toNat = q.queue.length := by
  obtain ⟨found, left⟩ := q.findMessage_spec sigsel sender
  rw [computed] at found left
  rw [show shared.queue = _ from left, show msg = _ from found]
  cases taken : q.queue.find? (matchesFilter sigsel sender) with
  | none =>
      rw [List.eraseP_of_forall_not (by simpa using taken), Option.isSome_none, Bool.toNat_false,
        Nat.add_zero]
  | some first =>
      have member := List.mem_of_find?_eq_some taken
      have passes := List.find?_some taken
      have nonempty := List.length_pos_of_mem member
      rw [List.length_eraseP_of_mem member passes, Option.isSome_some, Bool.toNat_true]
      omega

theorem Tended.evaluates {q : Queue.Threads (Role Unit) ι} (tended : Tended q)
    {role : Role Unit} {args : Queue.Get ι} (ready : Evaluates (q.pc role) args) :
    role = .consumer () := by
  cases role with
  | consumer name => rfl
  | control =>
      rcases ready with ready | ready | ready <;> rw [tended.idle] at ready <;> cases ready
  | worker =>
      rcases tended.adds with idle | adds
      · rcases ready with ready | ready | ready <;> rw [idle] at ready <;> cases ready
      · rcases ready with ready | ready | ready <;> rw [ready] at adds <;> cases adds

section

variable [BEq ι]

omit [BEq ι] in
theorem Tended.added {q : Queue.Threads (Role Unit) ι} (tended : Tended q) {role : Role Unit}
    {msg : LinxReceivedMessage ι} {result : Option Int} {kept : Option (LinxReceivedMessage ι)}
    {shared : LinxQueue ι} (reply : Nat) (ready : q.pc role = .locking (.add msg))
    (computed : q.shared.add msg = (result, kept, shared)) :
    1 + queueCost reply (q.leave shared role (Queue.Threads.afterAdd result kept)) ≤
      queueCost reply q := by
  have lengths := add_length q.shared msg
  rw [computed] at lengths
  obtain ⟨longer, thrown⟩ :
    shared.queue.length ≤ q.shared.queue.length + 1 ∧ (result = none → shared = q.shared) := lengths
  have brought := Nat.mul_le_mul_right (reply + 4) longer
  rw [Nat.succ_mul] at brought
  cases role with
  | control =>
      rw [tended.idle] at ready
      cases ready
  | consumer name =>
      have gets := tended.gets
      rw [ready] at gets
      cases gets
  | worker =>
      have others : Role.consumer () ≠ (Role.worker : Role Unit) := by simp
      simp only [queueCost, Queue.Threads.leave_shared, Queue.Threads.leave_pc,
        Function.update_self, Function.update_of_ne others, ready]
      cases result with
      | none =>
          rw [thrown rfl]
          simp only [Queue.Threads.afterAdd, Option.isSome_none, Bool.false_eq_true, if_false,
            addCost]
          omega
      | some code =>
          simp only [Queue.Threads.afterAdd, Option.isSome_some, if_true, addCost]
          omega

theorem Tended.got {q : Queue.Threads (Role Unit) ι} (tended : Tended q) {role : Role Unit}
    {args : Queue.Get ι} {msg : Option (LinxReceivedMessage ι)} {shared : LinxQueue ι}
    (reply : Nat) (ready : Evaluates (q.pc role) args)
    (computed : q.shared.findMessage args.sigsel args.sender = (msg, shared))
    (may : Queue.Threads.MayReturn q role args msg) :
    1 + queueCost reply (q.leave shared role (.returning (.get msg))) ≤ queueCost reply q := by
  obtain rfl := tended.evaluates ready
  have shorter := findMessage_length computed
  have others : (Role.worker : Role Unit) ≠ Role.consumer () := by simp
  simp only [queueCost, Queue.Threads.leave_shared, Queue.Threads.leave_pc, Function.update_self,
    Function.update_of_ne others]
  rw [← shorter, Nat.add_mul]
  cases msg with
  | some msg =>
      have inside : 2 ≤ handlerCost reply (q.pc (.consumer ())) := by
        rcases ready with ready | ready | ready
        · rw [ready]
          simp only [handlerCost]
          split <;> omega
        · rw [ready]
          simp only [handlerCost]
          split <;> omega
        · rw [ready]
          simp only [handlerCost]
          omega
      rw [Option.isSome_some, Bool.toNat_true, handlerCost_returning]
      omega
  | none =>
      have last : reply + 6 ≤ handlerCost reply (q.pc (.consumer ())) := by
        rcases may with found | immediate | expired | stopped
        · cases found
        · have limited : args.timeoutMs ≠ infiniteTimeout := by
            rw [immediate]
            decide
          rcases ready with ready | ready | ready
          · simp only [ready, handlerCost, if_neg limited]
            omega
          · simp only [ready, handlerCost, if_neg limited]
            omega
          · simp only [ready, handlerCost]
            omega
        · simp only [expired, handlerCost]
          omega
        · rw [tended.running] at stopped
          cases stopped
      rw [Option.isSome_none, Bool.toNat_false, handlerCost_returning]
      omega

theorem Tended.slept {q next : Queue.Threads (Role Unit) ι} (tended : Tended q)
    {role : Role Unit} {args : Queue.Get ι} {events : List (Queue.Event (Role Unit) ι)}
    (reply : Nat) (ready : Evaluates (q.pc role) args)
    (stepped : q.step (.lock role) = some (next, events))
    (asleep : next = q.setPc role (.asleep args)) :
    1 + queueCost reply next ≤ queueCost reply q := by
  obtain rfl := tended.evaluates ready
  have others : (Role.worker : Role Unit) ≠ Role.consumer () := by simp
  rcases ready with ready | ready | ready
  · simp only [asleep, queueCost, Queue.Threads.setPc_shared, Queue.Threads.setPc_pc,
      Function.update_self, Function.update_of_ne others, ready, handlerCost]
    split <;> omega
  · simp only [asleep, queueCost, Queue.Threads.setPc_shared, Queue.Threads.setPc_pc,
      Function.update_self, Function.update_of_ne others, ready, handlerCost]
    split <;> omega
  · obtain ⟨msg, returning⟩ := Queue.Threads.lock_finds (.inl ready) stepped
    rw [asleep, Queue.Threads.setPc_pc, Function.update_self] at returning
    cases returning

theorem Tended.step {q next : Queue.Threads (Role Unit) ι} {action : Queue.Action (Role Unit) ι}
    {events : List (Queue.Event (Role Unit) ι)} (tended : Tended q) (reply : Nat)
    (inner : action.Inner) (stepped : q.step action = some (next, events)) :
    1 + queueCost reply next ≤ queueCost reply q := by
  have others : (Role.worker : Role Unit) ≠ Role.consumer () := by simp
  cases Queue.Threads.step_cases stepped with
  | invoked ready => exact inner.elim
  | woke ready => exact inner.elim
  | added ready computed => exact tended.added reply ready computed
  | got ready computed may => exact tended.got reply ready computed may
  | slept ready missing running => exact tended.slept reply ready stepped rfl
  | @cleared role ready | @stopped role ready =>
      exfalso
      cases role with
      | worker =>
          rcases tended.adds with idle | adds
          · rw [idle] at ready
            cases ready
          · rw [ready] at adds
            cases adds
      | control =>
          rw [tended.idle] at ready
          cases ready
      | consumer name =>
          have gets := tended.gets
          rw [ready] at gets
          cases gets
  | @notified role result ready =>
      cases role with
      | control =>
          rw [tended.idle] at ready
          cases ready
      | consumer name =>
          have gets := tended.gets
          rw [ready] at gets
          cases gets
      | worker =>
          have woken := handlerCost_notified reply (q.pc (.consumer ()))
          simp only [queueCost, Queue.Threads.notifyAll_shared, Queue.Threads.notifyAll_pc,
            Queue.Threads.setPc_shared, Queue.Threads.setPc_pc, Function.update_self,
            Function.update_of_ne others.symm, ready, addCost]
          change 1 + (1 + _ + _) ≤ _
          omega
  | @timedOut role args ready limited =>
      cases role with
      | worker =>
          rcases tended.adds with idle | adds
          · rw [idle] at ready
            rcases ready with ready | ready <;> cases ready
          · rcases ready with ready | ready <;> rw [ready] at adds <;> cases adds
      | control =>
          rw [tended.idle] at ready
          rcases ready with ready | ready <;> cases ready
      | consumer name =>
          simp only [queueCost, Queue.Threads.setPc_shared, Queue.Threads.setPc_pc,
            Function.update_self, Function.update_of_ne others]
          rcases ready with ready | ready
          · simp only [show q.pc (.consumer ()) = _ from ready, handlerCost, if_neg limited]
            omega
          · simp only [show q.pc (.consumer ()) = _ from ready, handlerCost, if_neg limited]
            omega
  | @returned role result ready =>
      cases role with
      | control =>
          rw [tended.idle] at ready
          cases ready
      | worker =>
          simp only [queueCost, Queue.Threads.setPc_shared, Queue.Threads.setPc_pc,
            Function.update_self, Function.update_of_ne others.symm, ready, addCost]
          omega
      | consumer name =>
          simp only [queueCost, Queue.Threads.setPc_shared, Queue.Threads.setPc_pc,
            Function.update_self, Function.update_of_ne others,
            show q.pc (.consumer ()) = _ from ready, handlerCost]
          omega

theorem Tended.spurious {q next : Queue.Threads (Role Unit) ι} {role : Role Unit}
    {events : List (Queue.Event (Role Unit) ι)} (tended : Tended q) (reply : Nat)
    (stepped : q.step (.spurious role) = some (next, events)) :
    queueCost reply next ≤ queueCost reply q + 1 := by
  have others : (Role.worker : Role Unit) ≠ Role.consumer () := by simp
  cases Queue.Threads.step_cases stepped with
  | @woke role args ready =>
      cases role with
      | worker =>
          rcases tended.adds with idle | adds
          · rw [idle] at ready
            cases ready
          · rw [ready] at adds
            cases adds
      | control =>
          rw [tended.idle] at ready
          cases ready
      | consumer name =>
          simp only [queueCost, Queue.Threads.setPc_shared, Queue.Threads.setPc_pc,
            Function.update_self, Function.update_of_ne others,
            show q.pc (.consumer ()) = _ from ready, handlerCost]
          split <;> omega

end

/-! ### The steps of the loop -/

theorem goes_to_idle {pc : Pc ι} (goes : Queue.Threads.Goes pc .idle) : pc = .idle := by
  generalize atIdle : (Pc.idle : Pc ι) = after at goes
  cases goes with
  | stays => rfl
  | @added msg result kept => cases result <;> cases atIdle
  | notified | got | slept | woken | timedOut | cleared | stopped => cases atIdle

namespace Pipeline

def Action.isArrival : Action α β δ ι → Bool
  | .server action => action.isArrival
  | _ => false

def Action.isSpurious : Action α β δ ι → Bool
  | .server (.queue (.spurious _)) => true
  | _ => false

def Action.isWork : Action α β δ ι → Bool
  | .server (.arrive _) | .server .start | .server (.queue (.spurious _)) => false
  | .registerCallback _ _ _ => false
  | .server _ | .handleMessage _ | .dispatch | .callbackReturns _ => true

/-- Nobody stops the server, its socket does not fail, what arrives is well formed, and
the handler's thread calls `handleMessage()` when no callback runs. -/
def Looping (p : Pipeline α β δ ι) : Action α β δ ι → Bool
  | .server (.arrive datagram) => decide (WellFormed datagram)
  | .server .stop | .server .receiveFails => false
  | .server _ | .registerCallback _ _ _ | .dispatch | .callbackReturns _ => true
  | .handleMessage timeoutMs => decide (timeoutMs = infiniteTimeout) && p.callbacks.isEmpty

structure Loops (p : Pipeline α β δ ι) : Prop where
  sound : State.Sound p.server
  idle : p.server.control = .idle
  opened : p.server.opened = true
  stays : p.server.worker ≠ .ended
  wellFormed : ∀ datagram ∈ p.server.inbox, WellFormed datagram
  inCall : p.receiving = true ↔ p.server.queue.pc (.consumer ()) ≠ .idle
  outside : p.receiving = true → p.callbacks = []

theorem Loops.tended {p : Pipeline α β δ ι} (loops : Loops p) : Tended p.server.queue where
  adds := by
    by_cases adding : p.server.worker = .adding
    · exact .inr (loops.sound.workerAdds adding)
    · exact .inl (loops.sound.workerIdle adding)
  gets := loops.sound.consumerGets ()
  idle := loops.sound.controlIdle (by rw [loops.idle]; simp)
  running := by
    cases stopped : p.server.queue.shared.stopped with
    | false => rfl
    | true =>
        have closed := loops.sound.closed stopped
        rw [loops.opened] at closed
        cases closed

def cost (reply : Nat) (p : Pipeline α β δ ι) : Nat :=
  p.server.inbox.length * (reply + 9) + p.server.worker.owes.length +
    queueCost reply p.server.queue + p.callbacks.length

def Action.brings (reply : Nat) (action : Action α β δ ι) : Nat :=
  action.isArrival.toNat * (reply + 9) + action.isSpurious.toNat

variable [BEq ι]

omit [BEq ι] in
theorem loops_create (efd : LinxEventFd) (size : Int32) :
    Loops (create (α := α) (β := β) (δ := δ) (ι := ι) efd size) where
  sound := State.sound_create efd size
  idle := rfl
  opened := rfl
  stays := by simp [create, State.create]
  wellFormed := List.forall_mem_nil _
  inCall := by simp [create, State.create, Queue.Threads.initial]
  outside := fun receiving => by cases receiving

theorem server_inCall {identifier : α → ι} {s next : State Unit α ι}
    {action : Server.Action Unit α ι} {events : List (Server.Event Unit α ι)}
    (own : ServerAction action = true) (did : State.Did identifier s action next events) :
    next.queue.pc (.consumer ()) = .idle ↔ s.queue.pc (.consumer ()) = .idle := by
  constructor
  · intro after
    cases did with
    | offered | stopping =>
        simpa only [Queue.Threads.setPc_pc, ne_eq, reduceCtorEq, not_false_eq_true,
          Function.update_of_ne] using after
    | @queue action queue events allowed stepped =>
        cases Queue.Threads.did_thread (Queue.Threads.step_cases stepped) (.consumer ()) with
        | called before locking =>
            rw [show queue.pc (.consumer ()) = _ from after] at locking
            cases locking
        | returned before idle => cases own
        | went inside goes =>
            rw [show queue.pc (.consumer ()) = _ from after] at goes
            exact goes_to_idle goes
    | arrived | left | pinged | failed | answered | alreadyStarted | started | notStarted
    | joined => exact after
  · refine server_consumer did ?_
    rintro call rfl
    cases own

theorem Loops.server_kept {identifier : α → ι} {p : Pipeline α β δ ι} {next : State Unit α ι}
    {action : Server.Action Unit α ι} {events : List (Server.Event Unit α ι)} (loops : Loops p)
    (looping : p.Looping (.server action) = true) (own : ServerAction action = true)
    (did : State.Did identifier p.server action next events) :
    Loops { p with server := next } := by
  have control : next.control = .idle ∧ next.worker ≠ .ended ∧
      ∀ datagram ∈ next.inbox, WellFormed datagram := by
    obtain ⟨sound, idle, -, stays, wellFormed, -, -⟩ := loops
    cases did with
    | arrived datagram opened =>
        refine ⟨idle, stays, ?_⟩
        rw [List.forall_mem_append, List.forall_mem_singleton]
        exact ⟨wellFormed, of_decide_eq_true looping⟩
    | @left datagram rest receiving opened atHead malformed =>
        rw [atHead, List.forall_mem_cons] at wellFormed
        have output := (output_isSome_iff identifier datagram).mpr wellFormed.1
        rw [malformed] at output
        cases output
    | pinged receiving opened atHead asked | offered receiving opened atHead asked quiet =>
        rw [atHead, List.forall_mem_cons] at wellFormed
        exact ⟨idle, by simp, wellFormed.2⟩
    | failed | stopping | notStarted => cases looping
    | answered answering => exact ⟨idle, by simp, wellFormed⟩
    | @queue action queue events allowed stepped =>
        refine ⟨?_, ?_, wellFormed⟩
        · by_contra busy
          have before := (sound.queue_control allowed
            (Queue.Threads.step_cases stepped)).2.2.1 busy
          exact before idle
        · unfold State.workerAfter
          split
          · simp
          · exact stays
    | alreadyStarted => exact ⟨idle, stays, wellFormed⟩
    | started => exact ⟨idle, by simp, wellFormed⟩
    | joined joining ended => exact absurd ended stays
  have opened := did.opened_kept (by rintro rfl; cases looping)
  refine ⟨loops.sound.did did, control.1, opened.trans loops.opened, control.2.1, control.2.2,
    ?_, loops.outside⟩
  exact loops.inCall.trans (not_congr (server_inCall own did).symm)

omit [BEq ι] in
theorem looping_inner {action : Queue.Action (Role Unit) ι}
    (own : ServerAction (.queue action : Server.Action Unit α ι) = true)
    (allowed : State.QueueAction action = true) :
    action.Inner ∨ ∃ role, action = .spurious role := by
  cases action with
  | call role call =>
      cases role with
      | worker | control => cases allowed
      | consumer name => cases own
  | spurious role => exact .inr ⟨role, rfl⟩
  | lock | notify | timeout | ret => exact .inl trivial

theorem Loops.server_cost {identifier : α → ι} {p : Pipeline α β δ ι} {next : State Unit α ι}
    {action : Server.Action Unit α ι} {events : List (Server.Event Unit α ι)} (loops : Loops p)
    (reply : Nat) (looping : p.Looping (.server action) = true)
    (own : ServerAction action = true)
    (did : State.Did identifier p.server action next events) :
    (Action.server action : Action α β δ ι).isWork.toNat +
        cost reply { p with server := next } ≤
      cost reply p + (Action.server action : Action α β δ ι).brings reply := by
  cases did with
  | arrived datagram opened =>
      simp only [cost, List.length_append, List.length_singleton, Nat.add_mul, Nat.one_mul,
        Action.isWork, Action.brings, Action.isArrival, Action.isSpurious, Bool.toNat_false,
        Bool.toNat_true, Server.Action.isArrival]
      omega
  | @left datagram rest receiving opened atHead malformed =>
      have wellFormed := loops.wellFormed datagram (by rw [atHead]; exact List.mem_cons_self)
      have output := (output_isSome_iff identifier datagram).mpr wellFormed
      rw [malformed] at output
      cases output
  | pinged receiving opened atHead asked =>
      simp only [cost, atHead, receiving, List.length_cons, Worker.owes, List.length_nil,
        Nat.succ_mul, Action.isWork, Action.brings, Bool.toNat_true]
      omega
  | offered receiving opened atHead asked quiet =>
      have others : Role.consumer () ≠ (Role.worker : Role Unit) := by simp
      simp only [cost, queueCost, atHead, receiving, quiet, List.length_cons, Worker.owes,
        List.length_nil, Nat.succ_mul, Action.isWork, Action.brings, Bool.toNat_true,
        Queue.Threads.setPc_shared, Queue.Threads.setPc_pc, Function.update_self,
        Function.update_of_ne others, addCost]
      omega
  | failed | stopping | notStarted => cases looping
  | answered answering =>
      simp only [cost, answering, Worker.owes, List.length_nil, List.length_singleton,
        Action.isWork, Action.brings, Bool.toNat_true]
      omega
  | @queue action queue events allowed stepped =>
      have owes := loops.sound.workerAfter_owes allowed (Queue.Threads.step_cases stepped)
      simp only [cost, owes]
      rcases looping_inner own allowed with inner | ⟨role, rfl⟩
      · have lower := loops.tended.step reply inner stepped
        have one := Bool.toNat_le (Action.server (.queue action) : Action α β δ ι).isWork
        omega
      · have raised := loops.tended.spurious reply stepped
        simp only [Action.isWork, Action.brings, Action.isArrival, Action.isSpurious,
          Bool.toNat_false, Bool.toNat_true, Server.Action.isArrival]
        omega
  | alreadyStarted =>
      simp only [cost, Action.isWork, Bool.toNat_false]
      omega
  | started idle joinable =>
      simp only [cost, loops.sound.absent.mp joinable, Worker.owes, Action.isWork,
        Bool.toNat_false]
      omega
  | joined joining ended => exact absurd ended loops.stays

theorem Loops.called {identifier : α → ι} {p : Pipeline α β δ ι} {server : State Unit α ι}
    {timeoutMs : Int} {events : List (Server.Event Unit α ι)} (loops : Loops p) (reply : Nat)
    (looping : p.Looping (.handleMessage timeoutMs) = true)
    (stepped : p.server.step identifier
        (.queue (.call (.consumer ()) (.get (LinxIpcHandler.anyMessage timeoutMs)))) =
      some (server, events)) :
    Loops { p with server := server, receiving := true } ∧
      1 + cost reply { p with server := server, receiving := true } ≤ cost reply p := by
  obtain ⟨infinite, free⟩ := Bool.and_eq_true_iff.mp looping
  have did := State.step_cases stepped
  have sound := loops.sound.did did
  cases did with
  | queue allowed moved =>
      cases Queue.Threads.step_cases moved with
      | invoked ready =>
          have others : (Role.worker : Role Unit) ≠ Role.consumer () := by simp
          refine ⟨⟨sound, loops.idle, loops.opened, loops.stays, loops.wellFormed, ?_, ?_⟩, ?_⟩
          · simp
          · exact fun _ => List.isEmpty_iff.mp free
          · simp only [cost, queueCost, State.workerAfter, Queue.Threads.setPc_shared,
              Queue.Threads.setPc_pc, Function.update_self, Function.update_of_ne others, ready,
              handlerCost, LinxIpcHandler.anyMessage, if_pos (of_decide_eq_true infinite)]
            omega

theorem Loops.dispatched {identifier : α → ι} {p : Pipeline α β δ ι} {server : State Unit α ι}
    {recvMsg : Option (LinxReceivedMessage ι)} {events : List (Server.Event Unit α ι)}
    (loops : Loops p) (reply : Nat)
    (returning : p.server.queue.pc (.consumer ()) = .returning (.get recvMsg))
    (stepped : p.server.step identifier (.queue (.ret (.consumer ()))) = some (server, events))
    (handled : Handled β δ ι) :
    Loops (p.afterReceive server handled).1 ∧
      1 + cost reply (p.afterReceive server handled).1 +
          (invocations (p.afterReceive server handled).2).length * reply ≤ cost reply p := by
  have did := State.step_cases stepped
  have sound := loops.sound.did did
  cases did with
  | queue allowed moved =>
      cases Queue.Threads.step_cases moved with
      | returned ready =>
          have others : (Role.worker : Role Unit) ≠ Role.consumer () := by simp
          have lower : queueCost reply (p.server.queue.setPc (.consumer ()) .idle) + reply + 2 =
              queueCost reply p.server.queue := by
            simp only [queueCost, Queue.Threads.setPc_shared, Queue.Threads.setPc_pc,
              Function.update_self, Function.update_of_ne others, returning, handlerCost]
            omega
          cases handled with
          | invoked container msg =>
              refine ⟨⟨sound, loops.idle, loops.opened, loops.stays, loops.wellFormed, ?_, ?_⟩, ?_⟩
              · simp [afterReceive]
              · intro receiving
                cases receiving
              · simp only [cost, afterReceive, State.workerAfter, List.length_cons, invocations,
                  List.filterMap_cons, List.filterMap_nil, List.length_nil]
                omega
          | returned unhandled result =>
              refine ⟨⟨sound, loops.idle, loops.opened, loops.stays, loops.wellFormed, ?_, ?_⟩, ?_⟩
              · simp [afterReceive]
              · intro receiving
                cases receiving
              · have silent : invocations (unhandled.toList.map .unhandled ++
                    [(.handled result : Event α β δ ι)]) = [] := by
                  cases unhandled <;> rfl
                simp only [cost, afterReceive, State.workerAfter, silent, List.length_nil]
                omega

theorem Loops.did {identifier : α → ι} {p next : Pipeline α β δ ι} {action : Action α β δ ι}
    {events : List (Event α β δ ι)} (loops : Loops p) (reply : Nat)
    (looping : p.Looping action = true) (did : Did identifier p action next events) :
    Loops next ∧ action.isWork.toNat + cost reply next + (invocations events).length * reply ≤
      cost reply p + action.brings reply := by
  have silent : ∀ events : List (Server.Event Unit α ι),
      invocations (events.map (Event.server (β := β) (δ := δ))) = [] := by
    intro events
    rw [← handled_invoked, handledFates_server, List.filterMap_nil]
  cases did with
  | server allowed stepped =>
      have did := State.step_cases stepped
      have lower := loops.server_cost reply looping allowed did
      rw [silent, List.length_nil]
      exact ⟨loops.server_kept looping allowed did, by omega⟩
  | registered free =>
      refine ⟨{ loops with }, ?_⟩
      simp only [cost, invocations, List.filterMap_cons, List.filterMap_nil, List.length_nil,
        Action.isWork, Bool.toNat_false]
      omega
  | called free stepped =>
      obtain ⟨kept, lower⟩ := loops.called reply looping stepped
      rw [silent, List.length_nil]
      exact ⟨kept, by simp only [Action.isWork, Bool.toNat_true]; omega⟩
  | @dispatched recvMsg server events returning stepped =>
      obtain ⟨kept, lower⟩ := loops.dispatched reply returning stepped
        (p.handler.handleMessage recvMsg)
      rw [invocations, List.filterMap_append, ← invocations, silent, List.nil_append]
      refine ⟨kept, ?_⟩
      simp only [Action.isWork, Bool.toNat_true]
      exact Nat.le_add_right_of_le lower
  | left free inside =>
      refine ⟨{ loops with outside := ?_ }, ?_⟩
      · intro receiving
        rw [show p.receiving = true from receiving] at free
        cases free
      · simp only [cost, inside, invocations, List.filterMap_cons, List.filterMap_nil,
          List.length_nil, List.length_cons, Action.isWork, Bool.toNat_true]
        omega

end Pipeline

end LinxIpc.Server
