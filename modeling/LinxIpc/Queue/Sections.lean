import LinxIpc.Queue.Statements

/-!
The sections of `Threads` are the statements between a lock and its unlock.

A section counts as run when it releases the mutex.  Until then its statements
work on what the section found, and no other thread can tell; the one exception
is `stop`, which notifies the sleepers before it unlocks.  So a run of
statements is a run of sections, and what holds of all runs of sections holds
whenever the mutex is free.
-/

namespace LinxIpc.Queue

variable {τ ι : Type}

/-! ### A section as one function -/

/-- `stop` is the only section that notifies before it unlocks. -/
def Pc.announces : Pc ι → Bool
  | .locking .stop => true
  | _ => false

def outcome [BEq ι] (shared : LinxQueue ι) : Pc ι → Option (LinxQueue ι × Pc ι)
  | .locking (.add msg) =>
      some ((shared.add msg).2.2, Threads.afterAdd (shared.add msg).1 (shared.add msg).2.1)
  | .locking (.get args) =>
      let (msg, found) := shared.findMessage args.sigsel args.sender
      some (found, afterFind (.locking (.get args)) args found.stopped msg)
  | .woken args =>
      let (msg, found) := shared.findMessage args.sigsel args.sender
      some (found, afterFind (.woken args) args found.stopped msg)
  | .expired args =>
      let (msg, found) := shared.findMessage args.sigsel args.sender
      some (found, afterFind (.expired args) args found.stopped msg)
  | .locking .clear => some (shared.clear, .returning .done)
  | .locking .stop => some (shared.stop, .returning .done)
  | _ => none

section
variable [BEq ι]

omit [BEq ι] in
theorem closing_add (thread : τ) (msg : LinxReceivedMessage ι) (result : Option Int)
    (kept : Option (LinxReceivedMessage ι)) :
    closing thread (.locking (.add msg)) (Threads.afterAdd result kept) =
      [.committed thread (.add msg) (.add result kept)] := by
  cases result <;> rfl

theorem outcome_evaluates {entered : Pc ι} {args : Get ι}
    (ready : Threads.Evaluates entered args) (shared : LinxQueue ι) :
    outcome shared entered =
      some ((shared.findMessage args.sigsel args.sender).2,
        afterFind entered args (shared.findMessage args.sigsel args.sender).2.stopped
          (shared.findMessage args.sigsel args.sender).1) := by
  rcases ready with rfl | rfl | rfl <;> rfl

theorem outcome_locks {entered : Pc ι} {shared : LinxQueue ι} {result : LinxQueue ι × Pc ι}
    (ended : outcome shared entered = some result) : entered.locks = true := by
  unfold outcome at ended
  split at ended
  case h_7 => cases ended
  all_goals rfl

variable [DecidableEq τ]

theorem lockWait_outcome (s : Threads τ ι) (thread : τ) {args : Get ι} {entered : Pc ι}
    (ready : entered = .locking (.get args) ∨ entered = .woken args)
    (waits : entered.waits = true) :
    s.lockWait thread args =
      (s.leave (s.shared.findMessage args.sigsel args.sender).2 thread
          (afterFind entered args (s.shared.findMessage args.sigsel args.sender).2.stopped
            (s.shared.findMessage args.sigsel args.sender).1),
        closing thread entered
          (afterFind entered args (s.shared.findMessage args.sigsel args.sender).2.stopped
            (s.shared.findMessage args.sigsel args.sender).1)) := by
  have open' : entered.uncommitted = [.get args] := by
    rcases ready with rfl | rfl <;> rfl
  cases computed : s.shared.findMessage args.sigsel args.sender with
  | mk msg shared =>
      cases holds : msg.isSome || shared.stopped with
      | true =>
          simp [Threads.lockWait, LinxQueue.waitPredicate, computed, holds, afterFind, closing,
            open', Return.message?]
      | false =>
          have missing : msg = none := by
            cases msg with
            | none => rfl
            | some msg => cases holds
          subst missing
          have running : shared.stopped = false := holds
          simp [Threads.lockWait, LinxQueue.waitPredicate, computed, running, afterFind, waits,
            closing, Threads.removal]

theorem lockFind_outcome (s : Threads τ ι) (thread : τ) {args : Get ι} {entered : Pc ι}
    (ready : entered = .locking (.get args) ∨ entered = .expired args)
    (immediate : entered.waits = false) :
    s.lockFind thread args =
      (s.leave (s.shared.findMessage args.sigsel args.sender).2 thread
          (afterFind entered args (s.shared.findMessage args.sigsel args.sender).2.stopped
            (s.shared.findMessage args.sigsel args.sender).1),
        closing thread entered
          (afterFind entered args (s.shared.findMessage args.sigsel args.sender).2.stopped
            (s.shared.findMessage args.sigsel args.sender).1)) := by
  have open' : entered.uncommitted = [.get args] := by
    rcases ready with rfl | rfl <;> rfl
  simp [Threads.lockFind, afterFind, immediate, closing, open', Return.message?]

theorem lockSection_outcome {s : Threads τ ι} {thread : τ} {entered next : Pc ι}
    {shared : LinxQueue ι} (atPoint : s.pc thread = entered)
    (ended : outcome s.shared entered = some (shared, next)) :
    s.lockSection thread =
      some (if entered.announces then (s.leave shared thread next).notifyAll
          else s.leave shared thread next,
        closing thread entered next) := by
  unfold Threads.lockSection
  rw [atPoint]
  unfold outcome at ended
  split at ended
  case h_1 msg =>
    cases ended
    simp only [Threads.lockAdd, Pc.announces, Bool.false_eq_true, if_false]
    rw [closing_add]
    rfl
  case h_2 args =>
    cases ended
    by_cases immediate : args.timeoutMs = immediateTimeout
    · simp only [if_pos immediate]
      rw [lockFind_outcome s thread (.inl rfl) (by simp [Pc.waits, immediate])]
      rfl
    · simp only [if_neg immediate]
      rw [lockWait_outcome s thread (.inl rfl) (by simp [Pc.waits, immediate])]
      rfl
  case h_3 args =>
    cases ended
    exact congrArg some (lockWait_outcome s thread (.inr rfl) rfl)
  case h_4 args =>
    cases ended
    exact congrArg some (lockFind_outcome s thread (.inr rfl) rfl)
  case h_5 => cases ended; rfl
  case h_6 => cases ended; rfl
  case h_7 => cases ended

end

/-! ### A section in progress -/

def Pc.marked (entered : Pc ι) (shared : LinxQueue ι) : LinxQueue ι :=
  if entered.announces then { shared with stopped := true } else shared

theorem Pc.marked_fields (entered : Pc ι) (shared : LinxQueue ι) :
    (entered.marked shared).queue = shared.queue ∧ (entered.marked shared).efd = shared.efd := by
  unfold Pc.marked
  split <;> exact ⟨rfl, rfl⟩

def Empties (entered : Pc ι) : Prop :=
  entered = .locking .clear ∨ entered = .locking .stop

/-- What the section entered from a point has made of the queue `before` when it
stands at a statement. -/
inductive Partway [BEq ι] (before : LinxQueue ι) (entered : Pc ι) :
    LinxQueue ι → Stmt ι → Prop where
  | begin (locks : entered.locks = true) : Partway before entered before .begin
  | push {msg : LinxReceivedMessage ι} (ready : entered = .locking (.add msg))
      (room : before.queue.length < toSizeT before.maxSize) :
      Partway before entered before .push
  | write {msg : LinxReceivedMessage ι} (ready : entered = .locking (.add msg))
      (room : before.queue.length < toSizeT before.maxSize)
      (memory : before.queue.length < listMaxSize) :
      Partway before entered { before with queue := before.queue ++ [msg] } .write
  | read {args : Get ι} {it : Nat} (ready : Threads.Evaluates entered args)
      (found : before.queue.findIdx? args.matches = some it) :
      Partway before entered { before with queue := before.queue.eraseIdx it }
        (.read before.queue[it]?)
  | clearList (empties : Empties entered) :
      Partway before entered (entered.marked before) .clearList
  | drain {reads : Nat} (empties : Empties entered)
      (opened : reads = 0 ∨ 0 ≤ before.efd.efd) (within : reads ≤ before.efd.counter) :
      Partway before entered
        { entered.marked before with
          queue := [], efd := { before.efd with counter := before.efd.counter - reads } }
        (.drain before.queue.length reads)
  | notify (stopping : entered = .locking .stop) : Partway before entered before.stop .notify
  | unlock {now : LinxQueue ι} {next : Pc ι} (ended : outcome before entered = some (now, next)) :
      Partway before entered now (.unlock next)

theorem Partway.locks [BEq ι] {before now : LinxQueue ι} {entered : Pc ι} {stmt : Stmt ι}
    (partway : Partway before entered now stmt) : entered.locks = true := by
  cases partway with
  | begin locks => exact locks
  | push ready room => rw [ready]; rfl
  | write ready room memory => rw [ready]; rfl
  | read ready found => rcases ready with rfl | rfl | rfl <;> rfl
  | clearList empties => rcases empties with rfl | rfl <;> rfl
  | drain empties opened within => rcases empties with rfl | rfl <;> rfl
  | notify stopping => rw [stopping]; rfl
  | unlock ended => exact outcome_locks ended

def Stmt.announced (entered : Pc ι) : Stmt ι → Bool
  | .unlock _ => entered.announces
  | _ => false

namespace Statements

variable [DecidableEq τ] [BEq ι]

structure Advanced (s next : Statements τ ι) (thread : τ) (entered : Pc ι) (before : LinxQueue ι)
    (later : Stmt ι) : Prop where
  partway : Partway before entered next.shared later
  owner : next.owner = s.owner
  inside : next.point thread = .inside entered later
  others : ∀ other, other ≠ thread → next.point other =
    if later.announced entered then (s.point other).notified else s.point other

omit [BEq ι] in
theorem goto_others (s : Statements τ ι) (shared : LinxQueue ι) {thread other : τ}
    (different : other ≠ thread) (entered : Pc ι) (stmt : Stmt ι) :
    (s.goto shared thread entered stmt).point other = s.point other :=
  Function.update_of_ne different _ _

theorem Advanced.goto {s : Statements τ ι} {thread : τ} {entered : Pc ι}
    {before shared : LinxQueue ι} {later : Stmt ι}
    (partway : Partway before entered shared later)
    (silent : later.announced entered = false) :
    Advanced s (s.goto shared thread entered later) thread entered before later where
  partway := partway
  owner := rfl
  inside := Function.update_self ..
  others := by
    intro other different
    rw [silent]
    exact goto_others s shared different entered later

inductive Emits (before : LinxQueue ι) : List (StmtEvent τ ι) → Prop where
  | silent : Emits before []
  | wrote (room : before.queue.length < listMaxSize) :
      Emits before [.wroteEvent before.efd.writeEvent.1]
  | read (stored : before.queue ≠ []) : Emits before [.readEvent before.efd.readEvent.1]
  | drained {reads : Nat} (exhausted : 0 ≤ before.efd.efd → reads = before.efd.counter) :
      Emits before [.drained before.queue.length reads]

omit [DecidableEq τ] [BEq ι] in
theorem Emits.visible_nil {before : LinxQueue ι} {emitted : List (StmtEvent τ ι)}
    (emits : Emits before emitted) : visible emitted = [] := by
  cases emits <;> rfl

theorem find_advanced (s : Statements τ ι) (thread : τ) {entered : Pc ι} {args : Get ι}
    (ready : Threads.Evaluates entered args) :
    ∃ later, Advanced s (s.find thread entered args) thread entered s.shared later := by
  unfold find
  cases found : s.shared.queue.findIdx? args.matches with
  | some it => exact ⟨_, .goto (.read ready found) rfl⟩
  | none =>
      refine ⟨_, .goto (.unlock ?_) ?_⟩
      · rw [outcome_evaluates ready, LinxQueue.findMessage_absent found]
      · rcases ready with rfl | rfl | rfl <;> rfl

theorem begin_advanced {s next : Statements τ ι} {thread : τ} {entered : Pc ι}
    {emitted : List (StmtEvent τ ι)}
    (executed : s.execute thread entered .begin = some (next, emitted)) :
    Emits s.shared emitted ∧ ∃ later, Advanced s next thread entered s.shared later := by
  simp only [execute] at executed
  split at executed
  case h_1 msg =>
    split at executed
    · rename_i room
      cases executed
      exact ⟨.silent, _, .goto (.push rfl room) rfl⟩
    · rename_i full
      cases executed
      refine ⟨.silent, _, .goto (.unlock ?_) rfl⟩
      simp only [outcome, LinxQueue.add, LinxQueue.addOutcome, if_neg full]
  case h_2 args =>
    cases executed
    exact ⟨.silent, s.find_advanced thread (.inl rfl)⟩
  case h_3 args =>
    cases executed
    exact ⟨.silent, s.find_advanced thread (.inr (.inl rfl))⟩
  case h_4 args =>
    cases executed
    exact ⟨.silent, s.find_advanced thread (.inr (.inr rfl))⟩
  case h_5 =>
    cases executed
    exact ⟨.silent, _, .goto (.clearList (.inl rfl)) rfl⟩
  case h_6 =>
    cases executed
    exact ⟨.silent, _, .goto (.clearList (.inr rfl)) rfl⟩
  case h_7 => cases executed

theorem push_advanced {s next : Statements τ ι} {thread : τ} {msg : LinxReceivedMessage ι}
    {emitted : List (StmtEvent τ ι)}
    (room : s.shared.queue.length < toSizeT s.shared.maxSize)
    (executed : s.execute thread (.locking (.add msg)) .push = some (next, emitted)) :
    Emits s.shared emitted ∧
      ∃ later, Advanced s next thread (.locking (.add msg)) s.shared later := by
  simp only [execute] at executed
  split at executed
  · rename_i memory
    cases executed
    exact ⟨.silent, _, .goto (.write rfl room memory) rfl⟩
  · rename_i full
    cases executed
    refine ⟨.silent, _, .goto (.unlock ?_) rfl⟩
    simp only [outcome, LinxQueue.add, LinxQueue.addOutcome, if_pos room, if_neg full]

theorem write_advanced {s next : Statements τ ι} {thread : τ} {before : LinxQueue ι}
    {msg : LinxReceivedMessage ι} {emitted : List (StmtEvent τ ι)}
    (room : before.queue.length < toSizeT before.maxSize)
    (memory : before.queue.length < listMaxSize)
    (stored : s.shared = { before with queue := before.queue ++ [msg] })
    (executed : s.execute thread (.locking (.add msg)) .write = some (next, emitted)) :
    Emits before emitted ∧
      ∃ later, Advanced s next thread (.locking (.add msg)) before later := by
  simp only [execute, stored] at executed
  cases executed
  refine ⟨.wrote memory, _, .goto (.unlock ?_) rfl⟩
  simp only [outcome, LinxQueue.add, LinxQueue.addOutcome, if_pos room, if_pos memory]

theorem read_advanced {s next : Statements τ ι} {thread : τ} {before : LinxQueue ι}
    {entered : Pc ι} {args : Get ι} {it : Nat} {emitted : List (StmtEvent τ ι)}
    (ready : Threads.Evaluates entered args)
    (found : before.queue.findIdx? args.matches = some it)
    (erased : s.shared = { before with queue := before.queue.eraseIdx it })
    (executed : s.execute thread entered (.read before.queue[it]?) = some (next, emitted)) :
    Emits before emitted ∧ ∃ later, Advanced s next thread entered before later := by
  have executed' : some (s.goto { s.shared with efd := s.shared.efd.readEvent.2 } thread entered
      (.unlock (afterFind entered args s.shared.stopped before.queue[it]?)),
        [StmtEvent.readEvent s.shared.efd.readEvent.1]) = some (next, emitted) := by
    rcases ready with rfl | rfl | rfl <;> exact executed
  rw [erased] at executed'
  cases executed'
  constructor
  · refine .read ?_
    intro empty
    rw [empty] at found
    cases found
  · refine ⟨_, .goto (.unlock ?_) ?_⟩
    · rw [outcome_evaluates ready, LinxQueue.findMessage_found found]
    · rcases ready with rfl | rfl | rfl <;> rfl

theorem drained_advanced {s : Statements τ ι} {thread : τ} {before shared : LinxQueue ι}
    {entered : Pc ι} (empties : Empties entered)
    (emptied : shared =
      { entered.marked before with queue := [], efd := before.efd.clearEvents }) :
    ∃ later, Advanced s (s.goto shared thread entered (afterDrain entered)) thread entered
      before later := by
  subst emptied
  rcases empties with rfl | rfl
  · exact ⟨_, .goto (.unlock rfl) rfl⟩
  · exact ⟨_, .goto (.notify rfl) rfl⟩

theorem drain_advanced {s next : Statements τ ι} {thread : τ} {before : LinxQueue ι}
    {entered : Pc ι} {reads : Nat} {emitted : List (StmtEvent τ ι)} (empties : Empties entered)
    (opened : reads = 0 ∨ 0 ≤ before.efd.efd) (within : reads ≤ before.efd.counter)
    (reached : s.shared = { entered.marked before with
      queue := [], efd := { before.efd with counter := before.efd.counter - reads } })
    (executed : s.execute thread entered (.drain before.queue.length reads) =
      some (next, emitted)) :
    Emits before emitted ∧ ∃ later, Advanced s next thread entered before later := by
  simp only [execute] at executed
  have sameFd : s.shared.efd.efd = before.efd.efd := by rw [reached]
  have counted : s.shared.efd.counter = before.efd.counter - reads := by rw [reached]
  split at executed
  · -- `eventfd` had failed, and so does the first read
    rename_i failed
    cases executed
    rw [sameFd] at failed
    have none : reads = 0 := by
      rcases opened with zero | nonneg
      · exact zero
      · omega
    subst none
    refine ⟨.drained (fun nonneg => absurd failed (Int.not_lt.mpr nonneg)),
      drained_advanced empties ?_⟩
    rw [reached, LinxEventFd.clearEvents, if_pos failed]
    rfl
  · rename_i working
    rw [sameFd] at working
    have nonneg : 0 ≤ before.efd.efd := Int.not_lt.mp working
    -- the loop goes on until the read that finds the counter at zero
    cases left : before.efd.counter - reads with
    | zero =>
        simp only [LinxEventFd.kernelRead, counted, left] at executed
        have failed : (-1 : Int) ≠ LinxEventFd.sizeofCounter := by decide
        rw [if_neg failed] at executed
        cases executed
        refine ⟨.drained (fun _ => by omega), drained_advanced empties ?_⟩
        rw [reached, LinxEventFd.clearEvents_opened nonneg, left]
    | succ more =>
        simp only [LinxEventFd.kernelRead, counted, left, if_true] at executed
        cases executed
        refine ⟨.silent, _, .goto ?_ rfl⟩
        have smaller : more = before.efd.counter - (reads + 1) := by omega
        rw [reached, smaller]
        exact .drain empties (.inr nonneg) (by omega)

theorem notify_advanced {s next : Statements τ ι} {thread : τ} {before : LinxQueue ι}
    {emitted : List (StmtEvent τ ι)} (stopped : s.shared = before.stop)
    (executed : s.execute thread (.locking .stop) .notify = some (next, emitted)) :
    Emits before emitted ∧ ∃ later, Advanced s next thread (.locking .stop) before later := by
  simp only [execute] at executed
  cases executed
  refine ⟨.silent, .unlock (.returning .done), ?_, rfl, Function.update_self .., ?_⟩
  · rw [stopped]
    exact .unlock rfl
  · intro other different
    exact goto_others _ _ different _ _

theorem execute_advanced {s next : Statements τ ι} {thread : τ} {before : LinxQueue ι}
    {entered : Pc ι} {stmt : Stmt ι} {emitted : List (StmtEvent τ ι)}
    (partway : Partway before entered s.shared stmt)
    (executed : s.execute thread entered stmt = some (next, emitted)) :
    (∃ pc, stmt = .unlock pc) ∨
      (Emits before emitted ∧ ∃ later, Advanced s next thread entered before later) := by
  generalize now : s.shared = shared at partway
  cases partway with
  | begin locks =>
      subst now
      exact .inr (begin_advanced executed)
  | push ready room =>
      subst now ready
      exact .inr (push_advanced room executed)
  | write ready room memory =>
      subst ready
      exact .inr (write_advanced room memory now executed)
  | read ready found => exact .inr (read_advanced ready found now executed)
  | clearList empties =>
      simp only [execute, now] at executed
      cases executed
      obtain ⟨sameQueue, sameEvent⟩ := entered.marked_fields before
      refine .inr ⟨.silent, _, .goto ?_ rfl⟩
      rw [sameQueue, sameEvent]
      exact .drain empties (.inl rfl) (Nat.zero_le _)
  | drain empties opened within => exact .inr (drain_advanced empties opened within now executed)
  | notify stopping =>
      subst stopping
      exact .inr (notify_advanced now executed)
  | unlock ended => exact .inl ⟨_, rfl⟩

/-! ### The simulation -/

omit [DecidableEq τ] [BEq ι] in
def announced (s : Statements τ ι) : Bool :=
  match s.owner with
  | none => false
  | some owner =>
      match s.point owner with
      | .inside entered stmt => stmt.announced entered
      | .outside _ => false

end Statements

def Pc.heard (announced : Bool) (pc : Pc ι) : Pc ι :=
  if announced then pc.notified else pc

theorem Pc.heard_cases {announced : Bool} {pc seen : Pc ι} (same : seen = pc.heard announced) :
    seen = pc ∨ ∃ args, pc = .asleep args ∧ seen = .woken args := by
  subst same
  cases announced with
  | false => exact .inl rfl
  | true =>
      cases pc with
      | asleep args => exact .inr ⟨args, rfl, rfl⟩
      | idle | locking | notifying | woken | expired | returning => exact .inl rfl

namespace Statements

variable [DecidableEq τ] [BEq ι]

/-- The statements against the sections: the section of the owner has not run
yet, and a `stop` that has notified already has reached all the others. -/
structure Follows (s : Statements τ ι) (t : Threads τ ι) : Prop where
  others : ∀ thread, s.owner ≠ some thread →
    s.point thread = .outside ((t.pc thread).heard s.announced)
  free : s.owner = none → s.shared = t.shared
  held : ∀ owner, s.owner = some owner →
    ∃ stmt, s.point owner = .inside (t.pc owner) stmt ∧
      Partway t.shared (t.pc owner) s.shared stmt

omit [DecidableEq τ] [BEq ι] in
theorem announced_free {s : Statements τ ι} (free : s.owner = none) : s.announced = false := by
  rw [announced, free]

omit [DecidableEq τ] [BEq ι] in
theorem announced_held {s : Statements τ ι} {owner : τ} {entered : Pc ι} {stmt : Stmt ι}
    (owned : s.owner = some owner) (inside : s.point owner = .inside entered stmt) :
    s.announced = stmt.announced entered := by
  simp only [announced, owned, inside]

omit [DecidableEq τ] [BEq ι] in
theorem announced_congr {s next : Statements τ ι} (sameOwner : next.owner = s.owner)
    (samePoint : ∀ owner, s.owner = some owner → next.point owner = s.point owner) :
    next.announced = s.announced := by
  cases owned : s.owner with
  | none => rw [announced_free owned, announced_free (sameOwner.trans owned)]
  | some owner => simp only [announced, sameOwner, owned, samePoint owner owned]

theorem Follows.acquire {s : Statements τ ι} {t : Threads τ ι} (follows : Follows s t)
    (free : s.owner = none) {thread : τ} {pc : Pc ι} (atPoint : s.point thread = .outside pc)
    (locks : pc.locks = true) :
    Follows { s.goto s.shared thread pc .begin with owner := some thread } t := by
  have quiet := announced_free free
  have unowned : ∀ other, s.owner ≠ some other := by
    intro other
    rw [free]
    exact nofun
  have same := follows.others thread (unowned thread)
  rw [quiet, atPoint] at same
  obtain rfl : pc = t.pc thread := by injection same
  have inside : ({ s.goto s.shared thread (t.pc thread) .begin with owner := some thread } :
      Statements τ ι).point thread = .inside (t.pc thread) .begin := Function.update_self ..
  refine ⟨?_, nofun, ?_⟩
  · intro other different
    have apart : other ≠ thread := fun same => different (congrArg some same.symm)
    rw [announced_held rfl inside]
    refine (goto_others s s.shared apart _ _).trans ?_
    rw [follows.others other (unowned other), quiet]
    rfl
  · intro owner owned
    obtain rfl : thread = owner := Option.some.inj owned
    refine ⟨.begin, inside, ?_⟩
    rw [← follows.free free]
    exact .begin locks

omit [DecidableEq τ] in
theorem Follows.owner_inside {s : Statements τ ι} {t : Threads τ ι} (follows : Follows s t)
    {thread : τ} {entered : Pc ι} {stmt : Stmt ι}
    (inside : s.point thread = .inside entered stmt) :
    s.owner = some thread ∧ t.pc thread = entered ∧ Partway t.shared entered s.shared stmt := by
  by_cases owned : s.owner = some thread
  · obtain ⟨other, atPoint, partway⟩ := follows.held thread owned
    rw [inside] at atPoint
    injection atPoint with sameEntered sameStmt
    subst sameEntered sameStmt
    exact ⟨owned, rfl, partway⟩
  · rw [follows.others thread owned] at inside
    cases inside

omit [DecidableEq τ] in
theorem Follows.advance {s next : Statements τ ι} {t : Threads τ ι} (follows : Follows s t)
    {thread : τ} {stmt later : Stmt ι} (inside : s.point thread = .inside (t.pc thread) stmt)
    (unfinished : ∀ pc, stmt ≠ .unlock pc)
    (advanced : Advanced s next thread (t.pc thread) t.shared later) : Follows next t := by
  obtain ⟨owned, -, -⟩ := follows.owner_inside inside
  have ownedNext : next.owner = some thread := advanced.owner.trans owned
  have quiet : s.announced = false := by
    rw [announced_held owned inside]
    cases stmt <;> first | rfl | exact absurd rfl (unfinished _)
  refine ⟨?_, ?_, ?_⟩
  · intro other different
    rw [ownedNext] at different
    have apart : other ≠ thread := fun same => different (congrArg some same.symm)
    rw [advanced.others other apart, announced_held ownedNext advanced.inside,
      follows.others other (owned ▸ different), quiet]
    cases later.announced (t.pc thread) <;> rfl
  · intro free
    rw [ownedNext] at free
    cases free
  · intro owner ownedBy
    obtain rfl : thread = owner := Option.some.inj (ownedNext.symm.trans ownedBy)
    exact ⟨later, advanced.inside, advanced.partway⟩

omit [BEq ι] in
theorem setOutside_others (s : Statements τ ι) {thread other : τ} (different : other ≠ thread)
    (pc : Pc ι) : (s.setOutside thread pc).point other = s.point other :=
  Function.update_of_ne different _ _

theorem Follows.unlock {s : Statements τ ι} {t : Threads τ ι} (follows : Follows s t)
    {thread : τ} {next : Pc ι} (inside : s.point thread = .inside (t.pc thread) (.unlock next)) :
    ∃ after, t.step (.lock thread) = some (after, closing thread (t.pc thread) next) ∧
      Follows { s.setOutside thread next with owner := none } after := by
  obtain ⟨owned, -, partway⟩ := follows.owner_inside inside
  generalize now : s.shared = shared at partway
  cases partway with
  | unlock ended =>
      have announcing : s.announced = (t.pc thread).announces := announced_held owned inside
      refine ⟨_, lockSection_outcome rfl ended, ?_, ?_, ?_⟩
      · intro other _
        rw [announced_free rfl]
        by_cases same : other = thread
        · subst same
          refine (Function.update_self ..).trans ?_
          cases announces : (t.pc other).announces with
          | false =>
              rw [if_neg Bool.false_ne_true, Threads.leave_pc, Function.update_self]
              rfl
          | true =>
              rw [if_pos rfl, Threads.notifyAll_pc, Threads.leave_pc, Function.update_self]
              -- only `stop` notifies before it unlocks, and its own point is not asleep
              have stopping : t.pc other = .locking .stop := by
                unfold Pc.announces at announces
                split at announces
                · assumption
                · cases announces
              rw [stopping] at ended
              cases ended
              rfl
        · have notOwner : s.owner ≠ some other := by
            rw [owned]
            exact fun wrong => same (Option.some.inj wrong).symm
          refine (setOutside_others s same next).trans ?_
          rw [follows.others other notOwner, announcing]
          cases (t.pc thread).announces with
          | false =>
              rw [if_neg Bool.false_ne_true, Threads.leave_pc, Function.update_of_ne same]
          | true =>
              rw [if_pos rfl, Threads.notifyAll_pc, Threads.leave_pc, Function.update_of_ne same]
              rfl
      · intro _
        refine now.trans ?_
        cases (t.pc thread).announces <;> rfl
      · exact nofun

theorem Follows.setOutside {s : Statements τ ι} {t : Threads τ ι} (follows : Follows s t)
    {thread : τ} {old pc : Pc ι} (outside : s.point thread = .outside old)
    (deaf : pc.notified = pc) : Follows (s.setOutside thread pc) (t.setPc thread pc) := by
  have notOwner : s.owner ≠ some thread := by
    intro owned
    obtain ⟨stmt, inside, -⟩ := follows.held thread owned
    rw [outside] at inside
    cases inside
  have apart : ∀ owner, s.owner = some owner → owner ≠ thread := by
    intro owner owned same
    exact notOwner (same ▸ owned)
  have sameAnnounced : (s.setOutside thread pc).announced = s.announced :=
    announced_congr rfl (fun owner owned => setOutside_others s (apart owner owned) pc)
  refine ⟨?_, follows.free, ?_⟩
  · intro other different
    rw [sameAnnounced]
    by_cases same : other = thread
    · subst same
      refine (Function.update_self ..).trans ?_
      rw [Threads.setPc_pc, Function.update_self, Pc.heard, deaf, ite_self]
    · rw [setOutside_others s same, Threads.setPc_pc, Function.update_of_ne same]
      exact follows.others other different
  · intro owner owned
    rw [setOutside_others s (apart owner owned), Threads.setPc_pc,
      Function.update_of_ne (apart owner owned)]
    exact follows.held owner owned

omit [DecidableEq τ] in
theorem Follows.notifyAll {s : Statements τ ι} {t : Threads τ ι} (follows : Follows s t) :
    Follows s.notifyAll t.notifyAll := by
  have deaf : ∀ pc : Pc ι, pc.locks = true → pc.notified = pc := by
    intro pc locks
    cases pc <;> first | rfl | cases locks
  have sameAnnounced : s.notifyAll.announced = s.announced := by
    refine announced_congr rfl ?_
    intro owner owned
    obtain ⟨stmt, inside, -⟩ := follows.held owner owned
    change (s.point owner).notified = s.point owner
    rw [inside]
    rfl
  refine ⟨?_, follows.free, ?_⟩
  · intro thread different
    change (s.point thread).notified = _
    rw [follows.others thread different, sameAnnounced, Threads.notifyAll_pc]
    cases t.pc thread <;> cases s.announced <;> rfl
  · intro owner owned
    obtain ⟨stmt, inside, partway⟩ := follows.held owner owned
    refine ⟨stmt, ?_, ?_⟩
    · change (s.point owner).notified = _
      rw [inside, Threads.notifyAll_pc, deaf _ partway.locks]
      rfl
    · rw [Threads.notifyAll_pc, deaf _ partway.locks]
      exact partway

omit [DecidableEq τ] in
theorem Follows.seen {s : Statements τ ι} {t : Threads τ ι} (follows : Follows s t)
    {thread : τ} {pc : Pc ι} (outside : s.point thread = .outside pc) :
    t.pc thread = pc ∨ ∃ args, t.pc thread = .asleep args ∧ pc = .woken args := by
  have notOwner : s.owner ≠ some thread := by
    intro owned
    obtain ⟨stmt, inside, -⟩ := follows.held thread owned
    rw [outside] at inside
    cases inside
  rw [follows.others thread notOwner] at outside
  injection outside with same
  rcases Pc.heard_cases same.symm with same | woken
  · exact .inl same.symm
  · exact .inr woken

omit [DecidableEq τ] in
theorem Follows.seen_eq {s : Statements τ ι} {t : Threads τ ι} (follows : Follows s t)
    {thread : τ} {pc : Pc ι} (outside : s.point thread = .outside pc)
    (notWoken : ∀ args, pc ≠ .woken args) : t.pc thread = pc := by
  rcases follows.seen outside with same | ⟨args, -, woken⟩
  · exact same
  · exact absurd woken (notWoken args)

theorem Follows.moved {s next : Statements τ ι} {t : Threads τ ι} {action : Action τ ι}
    {emitted : List (StmtEvent τ ι)} (follows : Follows s t)
    (moved : Moved s action next emitted) :
    ∃ after, t.step action = some (after, visible emitted) ∧ Follows next after := by
  cases moved with
  | @call thread call outside =>
      refine ⟨t.setPc thread (.locking call), ?_, follows.setOutside outside rfl⟩
      simp only [Threads.step, follows.seen_eq outside (by rintro others ⟨⟩)]
      rfl
  | @notify thread result outside =>
      refine ⟨(t.setPc thread (.returning result)).notifyAll, ?_,
        (follows.setOutside outside rfl).notifyAll⟩
      simp only [Threads.step, follows.seen_eq outside (by rintro others ⟨⟩)]
      rfl
  | @spurious thread args outside =>
      refine ⟨t.setPc thread (.woken args), ?_, follows.setOutside outside rfl⟩
      simp only [Threads.step, follows.seen_eq outside (by rintro others ⟨⟩)]
      rfl
  | @timeout thread old args outside waiting limited =>
      refine ⟨t.setPc thread (.expired args), ?_, follows.setOutside outside rfl⟩
      -- woken here may still be asleep there, where it can time out as well
      have before : t.pc thread = .asleep args ∨ t.pc thread = .woken args := by
        rcases follows.seen outside with same | ⟨others, asleep, woken⟩
        · rw [same]
          exact waiting
        · rcases waiting with rfl | rfl
          · cases woken
          · injection woken with sameArgs
            exact .inl (sameArgs ▸ asleep)
      rcases before with before | before <;>
        simp only [Threads.step, before, if_neg limited] <;> rfl
  | @ret thread result outside =>
      refine ⟨t.setPc thread .idle, ?_, follows.setOutside outside rfl⟩
      simp only [Threads.step, follows.seen_eq outside (by rintro others ⟨⟩)]
      rfl

omit [DecidableEq τ] [BEq ι] in
theorem visible_map (events : List (Event τ ι)) :
    visible (events.map StmtEvent.visible) = events := by
  unfold visible
  rw [List.filterMap_map]
  exact List.filterMap_some

inductive Answer (s next : Statements τ ι) (t : Threads τ ι) :
    List (Action τ ι) → List (StmtEvent τ ι) → Threads τ ι → Prop where
  | acquired (free : s.owner = none) : Answer s next t [] [] t
  | advanced {thread : τ} {stmt : Stmt ι} {emitted : List (StmtEvent τ ι)}
      (inside : s.point thread = .inside (t.pc thread) stmt)
      (unfinished : ∀ pc, stmt ≠ .unlock pc) (emits : Emits t.shared emitted) :
      Answer s next t [] emitted t
  | unlocked {thread : τ} {after : Threads τ ι} {events : List (Event τ ι)}
      (stepped : t.step (.lock thread) = some (after, events))
      (same : s.shared = after.shared) :
      Answer s next t [.lock thread] (events.map .visible) after
  | outside {action : Action τ ι} {emitted : List (StmtEvent τ ι)} {after : Threads τ ι}
      (stepped : t.step action = some (after, visible emitted))
      (moved : Moved s action next emitted) : Answer s next t [action] emitted after

theorem Answer.run {s next : Statements τ ι} {t after : Threads τ ι} {actions : List (Action τ ι)}
    {emitted : List (StmtEvent τ ι)} (answer : Answer s next t actions emitted after) :
    Threads.machine.run t actions = some (after, visible emitted) := by
  cases answer with
  | acquired free => rfl
  | advanced inside unfinished emits =>
      rw [emits.visible_nil]
      rfl
  | unlocked stepped same =>
      rw [visible_map]
      exact Threads.machine.run_single stepped
  | outside stepped moved => exact Threads.machine.run_single stepped

theorem step_answer {s next : Statements τ ι} {t : Threads τ ι} {action : StmtAction τ ι}
    {emitted : List (StmtEvent τ ι)} (follows : Follows s t)
    (stepped : s.step action = some (next, emitted)) :
    ∃ actions after, Answer s next t actions emitted after ∧ Follows next after := by
  cases action with
  | acquire thread =>
      simp only [step] at stepped
      split at stepped
      · rename_i pc free atPoint
        split at stepped
        · rename_i locks
          cases stepped
          exact ⟨[], t, .acquired free, follows.acquire free atPoint locks⟩
        · cases stepped
      · cases stepped
  | statement thread =>
      simp only [step] at stepped
      split at stepped
      · rename_i entered stmt inside
        obtain ⟨owned, rfl, partway⟩ := follows.owner_inside inside
        rcases execute_advanced partway stepped with ⟨pc, rfl⟩ | ⟨emits, later, advanced⟩
        · cases stepped
          obtain ⟨after, locked, followsNext⟩ := follows.unlock inside
          exact ⟨_, after, .unlocked locked (followsNext.free rfl), followsNext⟩
        · have unfinished : ∀ pc, stmt ≠ .unlock pc := by
            rintro pc rfl
            cases stepped
            have released := advanced.owner
            rw [owned] at released
            cases released
          exact ⟨[], t, .advanced inside unfinished emits,
            follows.advance inside unfinished advanced⟩
      · cases stepped
  | outside action =>
      have moved := stepOutside_cases stepped
      obtain ⟨after, answered, followsNext⟩ := follows.moved moved
      exact ⟨[action], after, .outside answered moved, followsNext⟩

/-- Running the sections statement by statement adds no behaviour. -/
def sections : Machine.Simulation (machine (τ := τ) (ι := ι)) Threads.machine visible where
  related := Follows
  visibleNil := rfl
  visibleAppend := fun _ _ => List.filterMap_append ..
  answered := by
    intro _ _ _ _ _ follows stepped
    obtain ⟨actions, after, answer, followsNext⟩ := step_answer follows stepped
    exact ⟨actions, after, answer.run, followsNext⟩

omit [DecidableEq τ] in
theorem follows_initial (efd : LinxEventFd) (size : Int32) :
    Follows (initial (τ := τ) (ι := ι) efd size) (Threads.initial efd size) :=
  ⟨fun _ _ => rfl, fun _ => rfl, nofun⟩

/-- Every run of statements is a run of sections with the same calls, results
and returns; whenever the mutex is free the two share the queue. -/
theorem run_sections {efd : LinxEventFd} {size : Int32} {actions : List (StmtAction τ ι)}
    {s : Statements τ ι} {events : List (StmtEvent τ ι)}
    (ran : machine.run (initial efd size) actions = some (s, events)) :
    ∃ locked t, Threads.machine.run (Threads.initial efd size) locked =
      some (t, visible events) ∧ Follows s t :=
  sections.run_answered (follows_initial efd size) ran

end Statements

end LinxIpc.Queue
