import LinxIpc.Queue.Refinement

/-!
The same threads, statement by statement, with the mutex in the state.

A thread that takes `m_mutex` enters its section and runs it one statement at a
time while the others go on outside.  The results of the calls on the event
descriptor, which the queue ignores, are events of this machine.
-/

namespace LinxIpc.Queue

variable {τ ι : Type}

inductive Stmt (ι : Type) where
  | begin
  /-- `add`: `queue.push_back(std::move(msg))`. -/
  | push
  /-- `add`: `efd->writeEvent()`. -/
  | write
  /-- `findMessage`: `efd->readEvent()`, with the message already moved out. -/
  | read (msg : Option (LinxReceivedMessage ι))
  /-- `clear` and `stop`: `queue.clear()`. -/
  | clearList
  /-- `clearEvents`: the loop after `reads` successful reads.  `cleared` counts
  the messages that `queue.clear()` dropped. -/
  | drain (cleared reads : Nat)
  /-- `stop`: `m_cv.notify_all()`. -/
  | notify
  /-- The mutex is released and the thread goes on at `next`. -/
  | unlock (next : Pc ι)

inductive Point (ι : Type) where
  | outside (pc : Pc ι)
  | inside (entered : Pc ι) (stmt : Stmt ι)

def Point.notified : Point ι → Point ι
  | .outside pc => .outside pc.notified
  | point => point

structure Statements (τ ι : Type) where
  shared : LinxQueue ι
  owner : Option τ
  point : τ → Point ι

/-- A thread takes the mutex, runs its next statement, or does one of the
actions that need no lock. -/
inductive StmtAction (τ ι : Type) where
  | acquire (thread : τ)
  | statement (thread : τ)
  | outside (action : Action τ ι)

inductive StmtEvent (τ ι : Type) where
  | visible (event : Event τ ι)
  | wroteEvent (result : Int)
  | readEvent (result : Int)
  | drained (cleared reads : Nat)
  deriving DecidableEq

def StmtEvent.visible? : StmtEvent τ ι → Option (Event τ ι)
  | .visible event => some event
  | _ => none

def visible (events : List (StmtEvent τ ι)) : List (Event τ ι) :=
  events.filterMap StmtEvent.visible?

def Pc.locks : Pc ι → Bool
  | .locking _ | .woken _ | .expired _ => true
  | _ => false

def Pc.waits : Pc ι → Bool
  | .locking (.get args) => args.timeoutMs != immediateTimeout
  | .woken _ => true
  | _ => false

def afterFind (entered : Pc ι) (args : Get ι) (stopped : Bool)
    (msg : Option (LinxReceivedMessage ι)) : Pc ι :=
  if entered.waits && !(msg.isSome || stopped) then .asleep args else .returning (.get msg)

def afterDrain : Pc ι → Stmt ι
  | .locking .stop => .notify
  | _ => .unlock (.returning .done)

def closing (thread : τ) (entered next : Pc ι) : List (Event τ ι) :=
  match entered.uncommitted, next.unreturned with
  | [call], [result] => Threads.removal thread result.message? ++ [.committed thread call result]
  | _, _ => []

namespace Statements

def initial (efd : LinxEventFd) (size : Int32) : Statements τ ι :=
  { shared := LinxQueue.create efd size, owner := none, point := fun _ => .outside .idle }

variable [DecidableEq τ]

def goto (s : Statements τ ι) (shared : LinxQueue ι) (thread : τ) (entered : Pc ι)
    (stmt : Stmt ι) : Statements τ ι :=
  { s with shared := shared, point := Function.update s.point thread (.inside entered stmt) }

def setOutside (s : Statements τ ι) (thread : τ) (pc : Pc ι) : Statements τ ι :=
  { s with point := Function.update s.point thread (.outside pc) }

def notifyAll (s : Statements τ ι) : Statements τ ι :=
  { s with point := fun thread => (s.point thread).notified }

variable [BEq ι]

/-- `std::find_if` with `queue.erase`. -/
def find (s : Statements τ ι) (thread : τ) (entered : Pc ι) (args : Get ι) : Statements τ ι :=
  match s.shared.queue.findIdx? args.matches with
  | some it =>
      s.goto { s.shared with queue := s.shared.queue.eraseIdx it } thread entered
        (.read s.shared.queue[it]?)
  | none =>
      s.goto s.shared thread entered (.unlock (afterFind entered args s.shared.stopped none))

def execute (s : Statements τ ι) (thread : τ) (entered : Pc ι) :
    Stmt ι → Option (Statements τ ι × List (StmtEvent τ ι))
  | .begin =>
      match entered with
      | .locking (.add msg) =>
          if s.shared.queue.length < toSizeT s.shared.maxSize then
            some (s.goto s.shared thread entered .push, [])
          else
            some (s.goto s.shared thread entered
              (.unlock (Threads.afterAdd (some (-1)) (some msg))), [])
      | .locking (.get args) | .woken args | .expired args =>
          some (s.find thread entered args, [])
      | .locking .clear => some (s.goto s.shared thread entered .clearList, [])
      | .locking .stop =>
          some (s.goto { s.shared with stopped := true } thread entered .clearList, [])
      | _ => none
  | .push =>
      match entered with
      | .locking (.add msg) =>
          if s.shared.queue.length < listMaxSize then
            some (s.goto { s.shared with queue := s.shared.queue ++ [msg] } thread entered
              .write, [])
          else
            -- `std::bad_alloc` unwinds through the `unique_lock`
            some (s.goto s.shared thread entered
              (.unlock (Threads.afterAdd none (some msg))), [])
      | _ => none
  | .write =>
      let (result, efd) := s.shared.efd.writeEvent
      some (s.goto { s.shared with efd := efd } thread entered
        (.unlock (Threads.afterAdd (some 0) none)), [.wroteEvent result])
  | .read msg =>
      match entered with
      | .locking (.get args) | .woken args | .expired args =>
          let (result, efd) := s.shared.efd.readEvent
          some (s.goto { s.shared with efd := efd } thread entered
            (.unlock (afterFind entered args s.shared.stopped msg)), [.readEvent result])
      | _ => none
  | .clearList =>
      some (s.goto { s.shared with queue := [] } thread entered
        (.drain s.shared.queue.length 0), [])
  | .drain cleared reads =>
      if s.shared.efd.efd < 0 then
        some (s.goto s.shared thread entered (afterDrain entered), [.drained cleared reads])
      else
        let (size, efd) := s.shared.efd.kernelRead
        if size = LinxEventFd.sizeofCounter then
          some (s.goto { s.shared with efd := efd } thread entered
            (.drain cleared (reads + 1)), [])
        else
          some (s.goto { s.shared with efd := efd } thread entered (afterDrain entered),
            [.drained cleared reads])
  | .notify =>
      some (s.notifyAll.goto s.shared thread entered (.unlock (.returning .done)), [])
  | .unlock next =>
      some ({ s.setOutside thread next with owner := none },
        (closing thread entered next).map .visible)

def stepOutside (s : Statements τ ι) :
    Action τ ι → Option (Statements τ ι × List (StmtEvent τ ι))
  | .call thread call =>
      match s.point thread with
      | .outside .idle =>
          some (s.setOutside thread (.locking call), [.visible (.invoked thread call)])
      | _ => none
  | .notify thread =>
      match s.point thread with
      | .outside (.notifying result) =>
          some ((s.setOutside thread (.returning result)).notifyAll, [])
      | _ => none
  | .spurious thread =>
      match s.point thread with
      | .outside (.asleep args) => some (s.setOutside thread (.woken args), [])
      | _ => none
  | .timeout thread =>
      match s.point thread with
      | .outside (.asleep args) | .outside (.woken args) =>
          if args.timeoutMs = infiniteTimeout then none
          else some (s.setOutside thread (.expired args), [])
      | _ => none
  | .ret thread =>
      match s.point thread with
      | .outside (.returning result) =>
          some (s.setOutside thread .idle, [.visible (.returned thread result)])
      | _ => none
  | .lock _ => none

def step (s : Statements τ ι) :
    StmtAction τ ι → Option (Statements τ ι × List (StmtEvent τ ι))
  | .acquire thread =>
      match s.owner, s.point thread with
      | none, .outside pc =>
          if pc.locks then
            some ({ s.goto s.shared thread pc .begin with owner := some thread }, [])
          else none
      | _, _ => none
  | .statement thread =>
      match s.point thread with
      | .inside entered stmt => s.execute thread entered stmt
      | .outside _ => none
  | .outside action => s.stepOutside action

def machine : Machine (Statements τ ι) (StmtAction τ ι) (StmtEvent τ ι) where
  step := step

inductive Moved (s : Statements τ ι) :
    Action τ ι → Statements τ ι → List (StmtEvent τ ι) → Prop where
  | call {thread : τ} {call : Call ι} (outside : s.point thread = .outside .idle) :
      Moved s (.call thread call) (s.setOutside thread (.locking call))
        [.visible (.invoked thread call)]
  | notify {thread : τ} {result : Return ι}
      (outside : s.point thread = .outside (.notifying result)) :
      Moved s (.notify thread) (s.setOutside thread (.returning result)).notifyAll []
  | spurious {thread : τ} {args : Get ι} (outside : s.point thread = .outside (.asleep args)) :
      Moved s (.spurious thread) (s.setOutside thread (.woken args)) []
  | timeout {thread : τ} {old : Pc ι} {args : Get ι} (outside : s.point thread = .outside old)
      (waiting : old = .asleep args ∨ old = .woken args)
      (limited : args.timeoutMs ≠ infiniteTimeout) :
      Moved s (.timeout thread) (s.setOutside thread (.expired args)) []
  | ret {thread : τ} {result : Return ι}
      (outside : s.point thread = .outside (.returning result)) :
      Moved s (.ret thread) (s.setOutside thread .idle) [.visible (.returned thread result)]

omit [BEq ι] in
theorem stepOutside_cases {s next : Statements τ ι} {action : Action τ ι}
    {emitted : List (StmtEvent τ ι)} (stepped : s.stepOutside action = some (next, emitted)) :
    Moved s action next emitted := by
  cases action with
  | lock thread => cases stepped
  | call thread call =>
      simp only [stepOutside] at stepped
      split at stepped
      · rename_i outside
        cases stepped
        exact .call outside
      · cases stepped
  | notify thread =>
      simp only [stepOutside] at stepped
      split at stepped
      · rename_i result outside
        cases stepped
        exact .notify outside
      · cases stepped
  | spurious thread =>
      simp only [stepOutside] at stepped
      split at stepped
      · rename_i args outside
        cases stepped
        exact .spurious outside
      · cases stepped
  | timeout thread =>
      simp only [stepOutside] at stepped
      split at stepped
      · rename_i args outside
        split at stepped
        · cases stepped
        · rename_i limited
          cases stepped
          exact .timeout outside (.inl rfl) limited
      · rename_i args outside
        split at stepped
        · cases stepped
        · rename_i limited
          cases stepped
          exact .timeout outside (.inr rfl) limited
      · cases stepped
  | ret thread =>
      simp only [stepOutside] at stepped
      split at stepped
      · rename_i result outside
        cases stepped
        exact .ret outside
      · cases stepped

end Statements

end LinxIpc.Queue
