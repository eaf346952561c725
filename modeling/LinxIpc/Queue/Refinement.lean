import LinxIpc.Fifo.Selective
import LinxIpc.Queue.Threads

/-!
`LinxQueue` under threads is the selective store of `SelectiveFifo`.

Each call takes effect in one locked section, its last one, which emits the
event `committed`.  The committed calls in lock order, run one after the other
on the store, give the same results and leave the same contents.  All other
sections are evaluations of a wait predicate that found nothing, and they leave
the queue alone.
-/

namespace LinxIpc.Queue

variable {τ ι : Type}

structure Commit (τ ι : Type) where
  thread : τ
  call : Call ι
  result : Return ι
  deriving DecidableEq

/-- The abstract operation of a call.  A reader is a thread with its filter. -/
def Call.op (thread : τ) : Call ι → SelectiveFifo.Op (LinxReceivedMessage ι) (τ × Get ι)
  | .add msg => .offer msg
  | .get args => .take (thread, args)
  | .clear => .clear
  | .stop => .clear

def accepts [BEq ι] (reader : τ × Get ι) (msg : LinxReceivedMessage ι) : Bool :=
  reader.2.matches msg

def Return.response : Return ι → SelectiveFifo.Response (LinxReceivedMessage ι)
  | .add result _ => .offered (result == some 0)
  | .get msg => .taken msg
  | .done => .cleared

def Return.message? : Return ι → Option (LinxReceivedMessage ι)
  | .get msg => msg
  | _ => none

def Commit.op (commit : Commit τ ι) :
    SelectiveFifo.Op (LinxReceivedMessage ι) (τ × Get ι) :=
  commit.call.op commit.thread

def Commit.response (commit : Commit τ ι) :
    SelectiveFifo.Response (LinxReceivedMessage ι) :=
  commit.result.response

/-- The messages the queue can hold: `max_size` as `std::size_t`, and never more
than a list has room for. -/
def capacity (size : Int32) : Nat := min (toSizeT size) listMaxSize

theorem capacity_of_nonneg {size : Int32} (nonneg : 0 ≤ size.toInt) :
    capacity size = size.toInt.toNat := by
  have same := toSizeT_of_nonneg nonneg
  have small := size.toInt_lt
  unfold capacity listMaxSize
  omega

/-! ### Logs -/

def Event.commit? : Event τ ι → Option (Commit τ ι)
  | .committed thread call result => some ⟨thread, call, result⟩
  | _ => none

def commits (events : List (Event τ ι)) : List (Commit τ ι) :=
  events.filterMap Event.commit?

section
variable [DecidableEq τ]

@[simp]
def Event.invokedBy? (thread : τ) : Event τ ι → Option (Call ι)
  | .invoked other call => if other = thread then some call else none
  | _ => none

@[simp]
def Event.removedBy? (thread : τ) : Event τ ι → Option (LinxReceivedMessage ι)
  | .removed other msg => if other = thread then some msg else none
  | _ => none

@[simp]
def Event.committedBy? (thread : τ) : Event τ ι → Option (Call ι × Return ι)
  | .committed other call result => if other = thread then some (call, result) else none
  | _ => none

@[simp]
def Event.returnedBy? (thread : τ) : Event τ ι → Option (Return ι)
  | .returned other result => if other = thread then some result else none
  | _ => none

def invokedBy (thread : τ) (events : List (Event τ ι)) : List (Call ι) :=
  events.filterMap (Event.invokedBy? thread)

def removedBy (thread : τ) (events : List (Event τ ι)) : List (LinxReceivedMessage ι) :=
  events.filterMap (Event.removedBy? thread)

def committedBy (thread : τ) (events : List (Event τ ι)) : List (Call ι × Return ι) :=
  events.filterMap (Event.committedBy? thread)

def returnedBy (thread : τ) (events : List (Event τ ι)) : List (Return ι) :=
  events.filterMap (Event.returnedBy? thread)

private theorem filterMap_cons_toList {α β : Type} (read : α → Option β) (head : α)
    (tail : List α) :
    (head :: tail).filterMap read = (read head).toList ++ tail.filterMap read := by
  cases found : read head <;> simp only [List.filterMap_cons, found] <;> rfl

@[simp]
theorem invokedBy_cons (thread : τ) (event : Event τ ι) (events : List (Event τ ι)) :
    invokedBy thread (event :: events) =
      (event.invokedBy? thread).toList ++ invokedBy thread events :=
  filterMap_cons_toList ..

@[simp]
theorem removedBy_cons (thread : τ) (event : Event τ ι) (events : List (Event τ ι)) :
    removedBy thread (event :: events) =
      (event.removedBy? thread).toList ++ removedBy thread events :=
  filterMap_cons_toList ..

@[simp]
theorem committedBy_cons (thread : τ) (event : Event τ ι) (events : List (Event τ ι)) :
    committedBy thread (event :: events) =
      (event.committedBy? thread).toList ++ committedBy thread events :=
  filterMap_cons_toList ..

@[simp]
theorem returnedBy_cons (thread : τ) (event : Event τ ι) (events : List (Event τ ι)) :
    returnedBy thread (event :: events) =
      (event.returnedBy? thread).toList ++ returnedBy thread events :=
  filterMap_cons_toList ..

@[simp]
theorem logs_nil (thread : τ) :
    invokedBy thread ([] : List (Event τ ι)) = [] ∧
      removedBy thread ([] : List (Event τ ι)) = [] ∧
      committedBy thread ([] : List (Event τ ι)) = [] ∧
      returnedBy thread ([] : List (Event τ ι)) = [] :=
  ⟨rfl, rfl, rfl, rfl⟩

end

def Pc.uncommitted : Pc ι → List (Call ι)
  | .locking call => [call]
  | .asleep args | .woken args | .expired args => [.get args]
  | _ => []

def Pc.unreturned : Pc ι → List (Return ι)
  | .notifying result | .returning result => [result]
  | _ => []

@[simp]
theorem Pc.notified_uncommitted (pc : Pc ι) : pc.notified.uncommitted = pc.uncommitted := by
  cases pc <;> rfl

@[simp]
theorem Pc.notified_unreturned (pc : Pc ι) : pc.notified.unreturned = pc.unreturned := by
  cases pc <;> rfl

@[simp]
theorem Pc.idle_open :
    (Pc.idle : Pc ι).uncommitted = [] ∧ (Pc.idle : Pc ι).unreturned = [] :=
  ⟨rfl, rfl⟩

@[simp]
theorem Pc.locking_open (call : Call ι) :
    (Pc.locking call).uncommitted = [call] ∧ (Pc.locking call).unreturned = [] :=
  ⟨rfl, rfl⟩

@[simp]
theorem Pc.waiting_open (args : Get ι) :
    ((Pc.asleep args).uncommitted = [.get args] ∧ (Pc.asleep args).unreturned = []) ∧
      ((Pc.woken args).uncommitted = [.get args] ∧ (Pc.woken args).unreturned = []) ∧
      (Pc.expired args).uncommitted = [.get args] ∧ (Pc.expired args).unreturned = [] :=
  ⟨⟨rfl, rfl⟩, ⟨rfl, rfl⟩, rfl, rfl⟩

@[simp]
theorem Pc.finished_open (result : Return ι) :
    ((Pc.notifying result).uncommitted = [] ∧ (Pc.notifying result).unreturned = [result]) ∧
      (Pc.returning result).uncommitted = [] ∧ (Pc.returning result).unreturned = [result] :=
  ⟨⟨rfl, rfl⟩, rfl, rfl⟩

namespace Threads

/-! ### Lock order -/

theorem add_offers (q : LinxQueue ι) (msg : LinxReceivedMessage ι) :
    ((q.add msg).2.2.queue, Return.response (.add (q.add msg).1 (q.add msg).2.1)) =
        (if q.queue.length < capacity q.maxSize then
          (q.queue ++ [msg], SelectiveFifo.Response.offered true)
        else (q.queue, .offered false)) ∧
      (q.add msg).2.2.maxSize = q.maxSize := by
  unfold LinxQueue.add LinxQueue.addOutcome capacity
  by_cases room : q.queue.length < toSizeT q.maxSize
  · by_cases memory : q.queue.length < listMaxSize
    · have both : q.queue.length < min (toSizeT q.maxSize) listMaxSize := by omega
      simp only [if_pos room, if_pos memory, if_pos both]
      exact ⟨rfl, trivial⟩
    · have neither : ¬ q.queue.length < min (toSizeT q.maxSize) listMaxSize := by omega
      simp only [if_pos room, if_neg memory, if_neg neither]
      exact ⟨rfl, trivial⟩
  · have neither : ¬ q.queue.length < min (toSizeT q.maxSize) listMaxSize := by omega
    simp only [if_neg room, if_neg neither]
    exact ⟨rfl, trivial⟩

variable [DecidableEq τ] [BEq ι]

omit [DecidableEq τ] [BEq ι] in
@[simp]
theorem commits_removal (thread : τ) (msg : Option (LinxReceivedMessage ι))
    (events : List (Event τ ι)) : commits (removal thread msg ++ events) = commits events := by
  cases msg <;> rfl

/-- A step either commits nothing and leaves the contents alone, or commits one
call with the effect and the response of its abstract operation. -/
theorem did_commits {s next : Threads τ ι} {action : Action τ ι} {events : List (Event τ ι)}
    (did : Did s action next events) :
    next.shared.maxSize = s.shared.maxSize ∧
      ((commits events = [] ∧ next.shared.queue = s.shared.queue) ∨
        ∃ commit, commits events = [commit] ∧
          SelectiveFifo.apply accepts (capacity s.shared.maxSize) s.shared.queue commit.op =
            (next.shared.queue, commit.response)) := by
  cases did with
  | invoked | slept | notified | woke | timedOut | returned =>
      exact ⟨rfl, .inl ⟨rfl, rfl⟩⟩
  | @added thread msg result kept shared ready computed =>
      obtain ⟨offered, sameSize⟩ := add_offers s.shared msg
      rw [computed] at offered sameSize
      exact ⟨sameSize, .inr ⟨⟨thread, .add msg, .add result kept⟩, rfl, offered.symm⟩⟩
  | @got thread args msg shared ready computed may =>
      obtain ⟨-, sameSize, -⟩ := s.shared.findMessage_fields args.sigsel args.sender
      obtain ⟨found, erased⟩ := s.shared.findMessage_spec args.sigsel args.sender
      rw [computed] at sameSize found erased
      refine ⟨sameSize, .inr ⟨⟨thread, .get args, .get msg⟩, commits_removal .., ?_⟩⟩
      exact Prod.ext erased.symm (congrArg SelectiveFifo.Response.taken found.symm)
  | @cleared thread ready =>
      exact ⟨rfl, .inr ⟨⟨thread, .clear, .done⟩, rfl, rfl⟩⟩
  | @stopped thread ready =>
      exact ⟨rfl, .inr ⟨⟨thread, .stop, .done⟩, rfl, rfl⟩⟩

theorem run_replays {efd : LinxEventFd} {size : Int32} {actions : List (Action τ ι)}
    {s : Threads τ ι} {events : List (Event τ ι)}
    (ran : machine.run (initial efd size) actions = some (s, events)) :
    s.shared.maxSize = size ∧
      SelectiveFifo.replay accepts (capacity size) [] ((commits events).map Commit.op) =
        (s.shared.queue, (commits events).map Commit.response) := by
  refine machine.run_invariant
    (motive := fun _ events s => s.shared.maxSize = size ∧
      SelectiveFifo.replay accepts (capacity size) [] ((commits events).map Commit.op) =
        (s.shared.queue, (commits events).map Commit.response)) ⟨rfl, rfl⟩ ?_ ran
  intro _ events s action next emitted _ held stepped
  obtain ⟨sameSize, replayed⟩ := held
  obtain ⟨nextSize, effect⟩ := did_commits (step_cases stepped)
  refine ⟨nextSize.trans sameSize, ?_⟩
  rw [sameSize] at effect
  simp only [commits, List.filterMap_append, List.map_append] at effect replayed ⊢
  rcases effect with ⟨silent, sameQueue⟩ | ⟨commit, single, applied⟩
  · rw [silent, List.map_nil, List.map_nil, List.append_nil, List.append_nil, sameQueue]
    exact replayed
  · rw [single, List.map_singleton, List.map_singleton,
      SelectiveFifo.replay_snoc accepts _ replayed, applied]

/-! ### One thread -/

/-- What a run appends to the log of one thread, against how it moves it:
results are returned as they were committed, calls are committed in the order
they were made, and what its evaluations removed is what its calls hand over. -/
structure Logged (s next : Threads τ ι) (emitted : List (Event τ ι)) (thread : τ) : Prop where
  returns : (s.pc thread).unreturned ++ (committedBy thread emitted).map Prod.snd =
    returnedBy thread emitted ++ (next.pc thread).unreturned
  calls : (s.pc thread).uncommitted ++ invokedBy thread emitted =
    (committedBy thread emitted).map Prod.fst ++ (next.pc thread).uncommitted
  removals : removedBy thread emitted =
    (committedBy thread emitted).filterMap (fun entry => entry.2.message?)

omit [BEq ι] in
theorem Logged.refl (s : Threads τ ι) (thread : τ) : Logged s s [] thread := by
  constructor <;> simp

omit [BEq ι] in
theorem Logged.trans {s middle next : Threads τ ι} {front back : List (Event τ ι)} {thread : τ}
    (first : Logged s middle front thread) (second : Logged middle next back thread) :
    Logged s next (front ++ back) thread where
  returns := by
    have before := first.returns
    have after := second.returns
    simp only [committedBy, returnedBy, List.filterMap_append, List.map_append,
      List.append_assoc] at before after ⊢
    rw [← List.append_assoc, before, List.append_assoc, after]
  calls := by
    have before := first.calls
    have after := second.calls
    simp only [committedBy, invokedBy, List.filterMap_append, List.map_append,
      List.append_assoc] at before after ⊢
    rw [← List.append_assoc, before, List.append_assoc, after]
  removals := by
    have before := first.removals
    have after := second.removals
    simp only [committedBy, removedBy, List.filterMap_append] at before after ⊢
    rw [before, after]

omit [BEq ι] in
theorem foreign_event {event : Event τ ι} {thread : τ} (other : event.thread ≠ thread) :
    event.invokedBy? thread = none ∧ event.removedBy? thread = none ∧
      event.committedBy? thread = none ∧ event.returnedBy? thread = none := by
  cases event with
  | invoked | removed | committed | returned =>
      simp only [Event.thread] at other
      simp [other]

omit [BEq ι] in
theorem Logged.other {s next : Threads τ ι} {emitted : List (Event τ ι)} {thread : τ}
    (kept : next.pc thread = s.pc thread ∨ next.pc thread = (s.pc thread).notified)
    (foreign : ∀ event ∈ emitted, event.thread ≠ thread) : Logged s next emitted thread := by
  have noCalls : invokedBy thread emitted = [] :=
    List.filterMap_eq_nil_iff.mpr (fun event member => (foreign_event (foreign event member)).1)
  have noRemovals : removedBy thread emitted = [] :=
    List.filterMap_eq_nil_iff.mpr (fun event member => (foreign_event (foreign event member)).2.1)
  have noCommits : committedBy thread emitted = [] :=
    List.filterMap_eq_nil_iff.mpr
      (fun event member => (foreign_event (foreign event member)).2.2.1)
  have noReturns : returnedBy thread emitted = [] :=
    List.filterMap_eq_nil_iff.mpr
      (fun event member => (foreign_event (foreign event member)).2.2.2)
  constructor
  · rw [noCommits, noReturns]
    rcases kept with same | same <;> simp [same]
  · rw [noCommits, noCalls]
    rcases kept with same | same <;> simp [same]
  · rw [noCommits, noRemovals]
    rfl

omit [BEq ι] in
private theorem afterAdd_open (result : Option Int) (kept : Option (LinxReceivedMessage ι)) :
    (afterAdd result kept).unreturned = [.add result kept] ∧
      (afterAdd result kept).uncommitted = [] := by
  cases result <;> exact ⟨rfl, rfl⟩

omit [DecidableEq τ] [BEq ι] in
private theorem Evaluates.open {pc : Pc ι} {args : Get ι} (ready : Evaluates pc args) :
    pc.unreturned = [] ∧ pc.uncommitted = [.get args] := by
  rcases ready with rfl | rfl | rfl <;> exact ⟨rfl, rfl⟩

theorem did_logged {s next : Threads τ ι} {action : Action τ ι} {emitted : List (Event τ ι)}
    (did : Did s action next emitted) (thread : τ) : Logged s next emitted thread := by
  by_cases own : thread = action.thread
  · subst own
    cases did with
    | invoked ready | notified ready | woke ready | returned ready =>
        constructor <;> simp [Action.thread, ready]
    | cleared ready | stopped ready =>
        constructor <;> simp [Action.thread, ready, Return.message?]
    | @added mover msg result kept shared ready computed =>
        obtain ⟨unreturned, uncommitted⟩ := afterAdd_open result kept
        constructor <;> simp [Action.thread, ready, unreturned, uncommitted, Return.message?]
    | @got mover args msg shared ready computed may =>
        obtain ⟨unreturned, uncommitted⟩ := ready.open
        cases msg <;> constructor <;>
          simp [Action.thread, removal, unreturned, uncommitted, Return.message?]
    | slept ready missing running =>
        obtain ⟨unreturned, uncommitted⟩ := ready.open
        constructor <;> simp [Action.thread, unreturned, uncommitted]
    | timedOut ready limited =>
        rcases ready with ready | ready <;> constructor <;> simp [Action.thread, ready]
  · refine .other (did_frame did own) ?_
    intro event member same
    exact own (same.symm.trans (did_speaks did event member))

theorem run_logged {start s : Threads τ ι} {actions : List (Action τ ι)}
    {events : List (Event τ ι)} (ran : machine.run start actions = some (s, events))
    (thread : τ) : Logged start s events thread := by
  refine machine.run_invariant (motive := fun _ events s => Logged start s events thread)
    (Logged.refl start thread) ?_ ran
  intro _ _ _ _ _ _ _ logged stepped
  exact logged.trans (did_logged (step_cases stepped) thread)

/-! ### The refinement -/

omit [DecidableEq τ] [BEq ι] in
/-- With a non-negative `max_size` no allocation limit is met: the message is
stored below it, and at it nothing at all happens to queue, counter or caller. -/
theorem add_of_nonneg {q : LinxQueue ι} (nonneg : 0 ≤ q.maxSize.toInt)
    (msg : LinxReceivedMessage ι) :
    ((q.queue.length : Int) < q.maxSize.toInt ∧
        q.add msg = (some 0, none,
          { q with queue := q.queue ++ [msg], efd := q.efd.writeEvent.2 })) ∨
      (q.maxSize.toInt ≤ q.queue.length ∧ q.add msg = (some (-1), some msg, q)) := by
  have same := toSizeT_of_nonneg nonneg
  have small := q.maxSize.toInt_lt
  by_cases room : q.queue.length < toSizeT q.maxSize
  · have memory : q.queue.length < listMaxSize := by
      unfold listMaxSize
      omega
    left
    refine ⟨by omega, ?_⟩
    simp only [LinxQueue.add, LinxQueue.addOutcome, if_pos room, if_pos memory]
  · right
    refine ⟨by omega, ?_⟩
    simp only [LinxQueue.add, LinxQueue.addOutcome, if_neg room]

/-- A committed call against the states around its section: what an accepted and
a rejected `add` do, and when a `get` may return null. -/
structure CommitExact (s next : Threads τ ι) (commit : Commit τ ι) : Prop where
  offered : ∀ msg, commit.call = .add msg →
    ((s.shared.queue.length : Int) < s.shared.maxSize.toInt ∧
        commit.result = .add (some 0) none ∧ next.shared.queue = s.shared.queue ++ [msg]) ∨
      (s.shared.maxSize.toInt ≤ s.shared.queue.length ∧
        commit.result = .add (some (-1)) (some msg) ∧ next.shared = s.shared)
  taken : ∀ args msg, commit.call = .get args → commit.result = .get (some msg) →
    ∃ front back, s.shared.queue = front ++ msg :: back ∧ args.matches msg = true ∧
      (∀ earlier ∈ front, args.matches earlier = false) ∧
      next.shared.queue = front ++ back
  missed : ∀ args, commit.call = .get args → commit.result = .get none →
    next.shared = s.shared ∧ ∀ msg ∈ s.shared.queue, args.matches msg = false
  emptied : commit.call = .clear ∨ commit.call = .stop → next.shared.queue = []

theorem did_commitExact {s next : Threads τ ι} {action : Action τ ι} {emitted : List (Event τ ι)}
    (nonneg : 0 ≤ s.shared.maxSize.toInt) (did : Did s action next emitted)
    {commit : Commit τ ι} (member : commit ∈ commits emitted) :
    CommitExact s next commit := by
  cases did with
  | invoked | slept | notified | woke | timedOut | returned => cases member
  | @added thread msg result kept shared ready computed =>
      obtain rfl := List.mem_singleton.mp member
      refine ⟨?_, nofun, nofun, by rintro (wrong | wrong) <;> cases wrong⟩
      intro other same
      obtain rfl : msg = other := by injection same
      rcases add_of_nonneg nonneg msg with ⟨room, accepted⟩ | ⟨full, rejected⟩
      · rw [accepted] at computed
        cases computed
        exact .inl ⟨room, rfl, rfl⟩
      · rw [rejected] at computed
        cases computed
        exact .inr ⟨full, rfl, rfl⟩
  | @got thread args msg shared ready computed may =>
      rw [commits_removal] at member
      obtain rfl := List.mem_singleton.mp member
      obtain ⟨found, erased⟩ := s.shared.findMessage_spec args.sigsel args.sender
      have unchanged := @LinxQueue.findMessage_none ι _ s.shared args.sigsel args.sender
      rw [computed] at found erased unchanged
      refine ⟨nofun, ?_, ?_, by rintro (wrong | wrong) <;> cases wrong⟩
      · intro others value sameArgs sameResult
        obtain rfl : args = others := by injection sameArgs
        have some : msg = some value := by injection sameResult
        subst some
        obtain ⟨front, back, split, passed, before, rest⟩ := SelectiveFifo.take_some found.symm
        exact ⟨front, back, split, passed, before, erased.trans rest⟩
      · intro others sameArgs sameResult
        obtain rfl : args = others := by injection sameArgs
        have none : msg = none := by injection sameResult
        subst none
        refine ⟨unchanged rfl, ?_⟩
        intro value stored
        cases matched : args.matches value with
        | false => rfl
        | true => exact absurd matched (List.find?_eq_none.mp found.symm value stored)
  | cleared ready =>
      obtain rfl := List.mem_singleton.mp member
      exact ⟨nofun, nofun, nofun, fun _ => rfl⟩
  | stopped ready =>
      obtain rfl := List.mem_singleton.mp member
      exact ⟨nofun, nofun, nofun, fun _ => rfl⟩

/-- Every run is a run of the atomic store in lock order: the committed calls
replay to the same contents with the same results, each thread gets back the
results of its own commits, and its evaluations of `findMessage` remove exactly
the messages that its calls return. -/
theorem linxQueue_refines_selectiveFifo {efd : LinxEventFd} {size : Int32}
    (nonneg : 0 ≤ size.toInt) {actions : List (Action τ ι)} {s : Threads τ ι}
    {events : List (Event τ ι)}
    (ran : machine.run (initial efd size) actions = some (s, events)) :
    SelectiveFifo.replay accepts size.toInt.toNat [] ((commits events).map Commit.op) =
        (s.shared.queue, (commits events).map Commit.response) ∧
      (∀ thread,
        returnedBy thread events <+: (committedBy thread events).map Prod.snd ∧
        (committedBy thread events).map Prod.fst <+: invokedBy thread events ∧
        removedBy thread events =
          (committedBy thread events).filterMap (fun entry => entry.2.message?)) ∧
      (∀ action next emitted, s.step action = some (next, emitted) →
        (commits emitted = [] → next.shared.queue = s.shared.queue) ∧
        ∀ commit ∈ commits emitted, CommitExact s next commit) := by
  obtain ⟨sameSize, replayed⟩ := run_replays ran
  rw [capacity_of_nonneg nonneg] at replayed
  refine ⟨replayed, ?_, ?_⟩
  · intro thread
    have logged := run_logged ran thread
    exact ⟨⟨_, logged.returns.symm⟩, ⟨_, logged.calls.symm⟩, logged.removals⟩
  · intro action next emitted stepped
    have did := step_cases stepped
    constructor
    · intro silent
      rcases (did_commits did).2 with ⟨_, same⟩ | ⟨commit, single, _⟩
      · exact same
      · rw [single] at silent
        cases silent
    · intro commit member
      exact did_commitExact (sameSize ▸ nonneg) did member

theorem linxQueue_refines_selectiveFifo_three_threads :
    ∃ (s : Threads (Fin 3) Nat) (events : List (Event (Fin 3) Nat)),
      s.shared.queue = [] ∧
      (commits events).map Commit.response =
        [.offered true, .taken (some ⟨⟨7, [1]⟩, some 1⟩), .offered true,
          .taken (some ⟨⟨7, [2]⟩, some 1⟩)] ∧
      SelectiveFifo.replay accepts 1 [] ((commits events).map Commit.op) =
        (s.shared.queue, (commits events).map Commit.response) := by
  refine ⟨_, _, rfl, rfl, (@linxQueue_refines_selectiveFifo _ _ _ _ ⟨3, 0⟩ 1
    (by decide) [.call 0 (.get ⟨infiniteTimeout, [7], none⟩), .lock 0,
      .call 1 (.add ⟨⟨7, [1]⟩, some 1⟩), .lock 1, .notify 1, .ret 1,
      .call 2 (.get ⟨immediateTimeout, [], none⟩), .lock 2, .lock 0,
      .call 1 (.add ⟨⟨7, [2]⟩, some 1⟩), .lock 1, .notify 1, .lock 0, .ret 0] _ _ rfl).1⟩

theorem get_may_remove_nothing :
    ∃ (s : Threads Unit Nat) (events : List (Event Unit Nat)),
      machine.run (initial ⟨3, 0⟩ 1)
        [.call () (.get ⟨immediateTimeout, [], none⟩), .lock (), .ret ()] = some (s, events) ∧
      returnedBy () events = [.get none] ∧ (removedBy () events).length ≠ 1 := by
  refine ⟨_, _, rfl, rfl, ?_⟩
  decide

end Threads

end LinxIpc.Queue
