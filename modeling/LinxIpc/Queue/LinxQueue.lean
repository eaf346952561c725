import LinxIpc.Message

/-!
`LinxEventFd` and `LinxQueue`: what each member function does to the object
while it holds `m_mutex`.

The kernel counter behind the descriptor is part of `LinxEventFd`.  It was
opened with `EFD_SEMAPHORE | EFD_NONBLOCK`: a read takes one from a positive
counter and fails on zero, a write fails when the counter would exceed its
largest value.
-/

namespace LinxIpc

/-- `efd` is the descriptor, negative when `eventfd` failed. -/
structure LinxEventFd where
  efd : Int
  counter : Nat
  deriving DecidableEq, Repr

namespace LinxEventFd

/-- The kernel keeps an eventfd counter below `UINT64_MAX`. -/
def counterMax : Nat := 2 ^ 64 - 2

def sizeofCounter : Int := 8

/-- `::write(efd, &u, sizeof(uint64_t))` with `u = 1`. -/
def kernelWrite (event : LinxEventFd) : Int × LinxEventFd :=
  if event.counter + 1 ≤ counterMax then
    (sizeofCounter, { event with counter := event.counter + 1 })
  else (-1, event)

/-- `::read(efd, &u, sizeof(uint64_t))`. -/
def kernelRead (event : LinxEventFd) : Int × LinxEventFd :=
  match event.counter with
  | 0 => (-1, event)
  | counter + 1 => (sizeofCounter, { event with counter := counter })

def writeEvent (event : LinxEventFd) : Int × LinxEventFd :=
  if event.efd < 0 then (-1, event)
  else
    let (size, written) := event.kernelWrite
    if size ≠ sizeofCounter then (-2, written) else (0, written)

def readEvent (event : LinxEventFd) : Int × LinxEventFd :=
  if event.efd < 0 then (-1, event)
  else
    let (size, read) := event.kernelRead
    if size ≠ sizeofCounter then (-2, read) else (0, read)

/-- The loop `while (read(..) == sizeof(uint64_t)) {}`, unrolled over the value
of the counter: it ends at the first failing read. -/
def drain : Nat → LinxEventFd → LinxEventFd
  | 0, event => event
  | fuel + 1, event =>
      let (size, read) := event.kernelRead
      if size = sizeofCounter then drain fuel read else read

def clearEvents (event : LinxEventFd) : LinxEventFd :=
  if event.efd < 0 then event else drain (event.counter + 1) event

def readable (event : LinxEventFd) : Bool :=
  decide (0 ≤ event.efd) && decide (0 < event.counter)

theorem drain_counter (fuel : Nat) (event : LinxEventFd) (enough : event.counter < fuel) :
    drain fuel event = { event with counter := 0 } := by
  induction fuel generalizing event with
  | zero => cases enough
  | succ fuel ih =>
      obtain ⟨efd, counter⟩ := event
      cases counter with
      | zero => rfl
      | succ counter =>
          have smaller : counter < fuel := Nat.lt_of_succ_lt_succ enough
          simp only [drain, kernelRead, if_true]
          exact ih { efd := efd, counter := counter } smaller

theorem clearEvents_opened {event : LinxEventFd} (opened : 0 ≤ event.efd) :
    event.clearEvents = { event with counter := 0 } := by
  rw [clearEvents, if_neg (Int.not_lt.mpr opened)]
  exact drain_counter _ _ (Nat.lt_succ_self _)

theorem writeEvent_opened {event : LinxEventFd} (opened : 0 ≤ event.efd)
    (room : event.counter + 1 ≤ counterMax) :
    event.writeEvent = (0, { event with counter := event.counter + 1 }) := by
  simp only [writeEvent, if_neg (Int.not_lt.mpr opened), kernelWrite, if_pos room,
    ne_eq, not_true_eq_false, if_false]

theorem readEvent_opened {event : LinxEventFd} (opened : 0 ≤ event.efd)
    {counter : Nat} (positive : event.counter = counter + 1) :
    event.readEvent = (0, { event with counter := counter }) := by
  simp only [readEvent, if_neg (Int.not_lt.mpr opened), kernelRead, positive,
    ne_eq, not_true_eq_false, if_false]

@[simp]
theorem writeEvent_efd (event : LinxEventFd) : event.writeEvent.2.efd = event.efd := by
  by_cases failed : event.efd < 0
  · simp only [writeEvent, if_pos failed]
  · by_cases room : event.counter + 1 ≤ counterMax
    · simp [writeEvent, kernelWrite, failed, room]
    · simp [writeEvent, kernelWrite, failed, room, sizeofCounter]

@[simp]
theorem readEvent_efd (event : LinxEventFd) : event.readEvent.2.efd = event.efd := by
  obtain ⟨efd, counter⟩ := event
  by_cases failed : efd < 0
  · simp only [readEvent, if_pos failed]
  · cases counter with
    | zero => simp [readEvent, kernelRead, failed, sizeofCounter]
    | succ counter => simp [readEvent, kernelRead, failed]

end LinxEventFd

/-- `(std::size_t)n` for an `int`. -/
def toSizeT (n : Int32) : Nat := (n.toInt % 2 ^ 64).toNat

theorem toSizeT_of_nonneg {n : Int32} (nonneg : 0 ≤ n.toInt) : (toSizeT n : Int) = n.toInt := by
  have small := n.toInt_lt
  unfold toSizeT
  omega

/-- A `std::size_t` passed where an `int` is expected. -/
def ofSizeT (n : Nat) : Int32 := Int32.ofNat n

/-- The most nodes a `std::list` of pointers can hold: each takes 24 bytes, and
no allocation goes beyond `PTRDIFF_MAX` bytes in all. -/
def listMaxSize : Nat := (2 ^ 63 - 1) / 24

structure LinxQueue (ι : Type) where
  stopped : Bool
  efd : LinxEventFd
  maxSize : Int32
  queue : List (LinxReceivedMessage ι)
  deriving DecidableEq

namespace LinxQueue

variable {ι : Type}

def create (efd : LinxEventFd) (size : Int32) : LinxQueue ι :=
  { stopped := false, efd := efd, maxSize := size, queue := [] }

/-- Why the locked part of `add` ended: the message was stored, the queue was
full, or `push_back` threw. -/
inductive AddOutcome where
  | stored
  | full
  | badAlloc
  deriving DecidableEq, Repr

def addOutcome (q : LinxQueue ι) : AddOutcome :=
  if q.queue.length < toSizeT q.maxSize then
    if q.queue.length < listMaxSize then .stored else .badAlloc
  else .full

/-- The part of `add` under the lock.  With the value of `result`, or none when
an exception leaves the function, comes what the caller's pointer still owns. -/
def add (q : LinxQueue ι) (msg : LinxReceivedMessage ι) :
    Option Int × Option (LinxReceivedMessage ι) × LinxQueue ι :=
  match q.addOutcome with
  | .stored =>
      (some 0, none, { q with queue := q.queue ++ [msg], efd := q.efd.writeEvent.2 })
  | .full => (some (-1), some msg, q)
  | .badAlloc => (none, some msg, q)

def stop (q : LinxQueue ι) : LinxQueue ι :=
  { q with stopped := true, queue := [], efd := q.efd.clearEvents }

def clear (q : LinxQueue ι) : LinxQueue ι :=
  { q with queue := [], efd := q.efd.clearEvents }

variable [BEq ι]

/-- `std::find_if` gives the position of the first match, which is moved out,
erased, and its event read. -/
def findMessage (q : LinxQueue ι) (sigsel : List UInt32) (sender : Option ι) :
    Option (LinxReceivedMessage ι) × LinxQueue ι :=
  match q.queue.findIdx? (matchesFilter sigsel sender) with
  | some it =>
      (q.queue[it]?, { q with queue := q.queue.eraseIdx it, efd := q.efd.readEvent.2 })
  | none => (none, q)

/-- The predicate passed to `m_cv.wait` and `m_cv.wait_for`: its value, the
message it assigned, and the queue it left. -/
def waitPredicate (q : LinxQueue ι) (sigsel : List UInt32) (sender : Option ι) :
    Bool × Option (LinxReceivedMessage ι) × LinxQueue ι :=
  let (msg, found) := q.findMessage sigsel sender
  (msg.isSome || found.stopped, msg, found)

theorem findMessage_found {q : LinxQueue ι} {sigsel : List UInt32} {sender : Option ι} {it : Nat}
    (found : q.queue.findIdx? (matchesFilter sigsel sender) = some it) :
    q.findMessage sigsel sender =
      (q.queue[it]?, { q with queue := q.queue.eraseIdx it, efd := q.efd.readEvent.2 }) := by
  rw [findMessage, found]

theorem findMessage_absent {q : LinxQueue ι} {sigsel : List UInt32} {sender : Option ι}
    (absent : q.queue.findIdx? (matchesFilter sigsel sender) = none) :
    q.findMessage sigsel sender = (none, q) := by
  rw [findMessage, absent]

theorem findMessage_spec (q : LinxQueue ι) (sigsel : List UInt32) (sender : Option ι) :
    (q.findMessage sigsel sender).1 = q.queue.find? (matchesFilter sigsel sender) ∧
      (q.findMessage sigsel sender).2.queue = q.queue.eraseP (matchesFilter sigsel sender) := by
  unfold findMessage
  rw [List.find?_eq_bind_findIdx?_getElem?, List.eraseP_eq_eraseIdx]
  cases q.queue.findIdx? (matchesFilter sigsel sender) with
  | none => exact ⟨rfl, rfl⟩
  | some it => exact ⟨rfl, rfl⟩

theorem findMessage_none {q : LinxQueue ι} {sigsel : List UInt32} {sender : Option ι}
    (missing : (q.findMessage sigsel sender).1 = none) :
    (q.findMessage sigsel sender).2 = q := by
  rw [(q.findMessage_spec sigsel sender).1, List.find?_eq_none] at missing
  have absent : q.queue.findIdx? (matchesFilter sigsel sender) = none := by
    rw [List.findIdx?_eq_none_iff]
    intro msg member
    simpa using missing msg member
  rw [findMessage_absent absent]

theorem findMessage_fields (q : LinxQueue ι) (sigsel : List UInt32) (sender : Option ι) :
    (q.findMessage sigsel sender).2.stopped = q.stopped ∧
      (q.findMessage sigsel sender).2.maxSize = q.maxSize ∧
      (q.findMessage sigsel sender).2.efd.efd = q.efd.efd := by
  unfold findMessage
  cases q.queue.findIdx? (matchesFilter sigsel sender) with
  | none => exact ⟨rfl, rfl, rfl⟩
  | some it => exact ⟨rfl, rfl, LinxEventFd.readEvent_efd q.efd⟩

end LinxQueue

end LinxIpc
