import LinxIpc.Queue.Sections

/-!
The counter behind the poll descriptor is the length of the queue.

Both are changed by the same section, so they agree between sections, and the
statement machine shows them apart only while the mutex is held.  A consumer that
polls does so without the mutex: what it may rely on is that a readable
descriptor still promises a message when its `get` reaches the mutex.
-/

namespace LinxIpc.Queue

variable {τ ι : Type}

def getAny : Get ι := { timeoutMs := immediateTimeout, sigsel := [], sender := none }

def Call.isGet : Call ι → Bool
  | .get _ => true
  | _ => false

/-- The eventfd is open and counts the messages of the queue. -/
structure Synced (q : LinxQueue ι) : Prop where
  opened : 0 ≤ q.efd.efd
  counted : q.efd.counter = q.queue.length
  bounded : q.queue.length ≤ listMaxSize

theorem Synced.readable_iff {q : LinxQueue ι} (synced : Synced q) :
    q.efd.readable = true ↔ q.queue ≠ [] := by
  rw [← List.length_pos_iff, ← synced.counted]
  simp [LinxEventFd.readable, synced.opened]

theorem Synced.writeEvent {q : LinxQueue ι} (synced : Synced q)
    (room : q.queue.length < listMaxSize) :
    q.efd.writeEvent = (0, { q.efd with counter := q.queue.length + 1 }) := by
  have small : q.efd.counter + 1 ≤ LinxEventFd.counterMax := by
    have limit : listMaxSize ≤ LinxEventFd.counterMax := by decide
    rw [synced.counted]
    omega
  rw [LinxEventFd.writeEvent_opened synced.opened small, synced.counted]

theorem Synced.readEvent {q : LinxQueue ι} (synced : Synced q) (stored : q.queue ≠ []) :
    q.efd.readEvent = (0, { q.efd with counter := q.queue.length - 1 }) := by
  have positive : q.efd.counter = q.queue.length - 1 + 1 := by
    have nonempty := List.length_pos_iff.mpr stored
    rw [synced.counted]
    omega
  exact LinxEventFd.readEvent_opened synced.opened positive

theorem Synced.add {q : LinxQueue ι} (synced : Synced q) (msg : LinxReceivedMessage ι) :
    Synced (q.add msg).2.2 := by
  unfold LinxQueue.add LinxQueue.addOutcome
  by_cases room : q.queue.length < toSizeT q.maxSize
  · by_cases memory : q.queue.length < listMaxSize
    · simp only [if_pos room, if_pos memory]
      rw [synced.writeEvent memory]
      refine ⟨synced.opened, ?_, ?_⟩
      · simp only [List.length_append, List.length_singleton]
      · simp only [List.length_append, List.length_singleton]
        omega
    · simp only [if_pos room, if_neg memory]
      exact synced
  · simp only [if_neg room]
    exact synced

theorem Synced.emptied {q : LinxQueue ι} (synced : Synced q) (stopped : Bool) :
    Synced ({ q with stopped := stopped, queue := [], efd := q.efd.clearEvents } :
      LinxQueue ι) := by
  rw [LinxEventFd.clearEvents_opened synced.opened]
  exact ⟨synced.opened, rfl, Nat.zero_le _⟩

section
variable [BEq ι]

theorem Synced.findMessage {q : LinxQueue ι} (synced : Synced q) (sigsel : List UInt32)
    (sender : Option ι) : Synced (q.findMessage sigsel sender).2 := by
  cases found : q.queue.findIdx? (matchesFilter sigsel sender) with
  | none =>
      rw [LinxQueue.findMessage_absent found]
      exact synced
  | some it =>
      obtain ⟨inRange, -, -⟩ := List.findIdx?_eq_some_iff_getElem.mp found
      have stored : q.queue ≠ [] := List.length_pos_iff.mp (by omega)
      rw [LinxQueue.findMessage_found found, synced.readEvent stored]
      refine ⟨synced.opened, ?_, ?_⟩
      · exact (List.length_eraseIdx_of_lt inRange).symm
      · exact Nat.le_trans (List.length_eraseIdx_le _ _) synced.bounded

theorem Synced.outcome {before now : LinxQueue ι} {entered next : Pc ι} (synced : Synced before)
    (ended : outcome before entered = some (now, next)) : Synced now := by
  unfold Queue.outcome at ended
  split at ended
  case h_1 msg =>
    cases ended
    exact synced.add msg
  case h_2 args | h_3 args | h_4 args =>
    cases ended
    exact synced.findMessage args.sigsel args.sender
  case h_5 =>
    cases ended
    exact synced.emptied before.stopped
  case h_6 =>
    cases ended
    exact synced.emptied true
  case h_7 => cases ended

end

namespace Threads

variable [DecidableEq τ] [BEq ι]

theorem did_synced {s next : Threads τ ι} {action : Action τ ι} {events : List (Event τ ι)}
    (synced : Synced s.shared) (did : Did s action next events) : Synced next.shared := by
  cases did with
  | invoked | slept | notified | woke | timedOut | returned => exact synced
  | @added thread msg result kept shared ready computed =>
      have after := synced.add msg
      rw [computed] at after
      exact after
  | @got thread args msg shared ready computed may =>
      have after := synced.findMessage args.sigsel args.sender
      rw [computed] at after
      exact after
  | cleared ready => exact synced.emptied s.shared.stopped
  | stopped ready => exact synced.emptied true

theorem run_synced {start s : Threads τ ι} {actions : List (Action τ ι)}
    {events : List (Event τ ι)} (synced : Synced start.shared)
    (ran : machine.run start actions = some (s, events)) : Synced s.shared :=
  Machine.Reachable.invariant (motive := fun s : Threads τ ι => Synced s.shared) synced
    (fun _ _ _ _ synced stepped => did_synced synced (step_cases stepped)) ⟨actions, events, ran⟩

/-- A message that is in the queue stays there until the first `get` of the
consumer, if nobody else takes or clears. -/
theorem did_keeps {s next : Threads τ ι} {action : Action τ ι} {emitted : List (Event τ ι)}
    {consumer : τ} (did : Did s action next emitted)
    (unemptied : ∀ commit ∈ commits emitted, commit.call ≠ .clear ∧ commit.call ≠ .stop)
    (sole : ∀ commit ∈ commits emitted, commit.call.isGet = true → commit.thread = consumer)
    (promised : s.shared.queue ≠ [] ∨ next.shared.queue ≠ []) :
    (committedBy consumer emitted = [] ∧ next.shared.queue ≠ []) ∨
      ∃ call result, committedBy consumer emitted = [(call, result)] ∧
        (call = .get getAny → ∃ msg, result = .get (some msg)) := by
  cases did with
  | invoked | slept | notified | woke | timedOut | returned =>
      refine .inl ⟨by simp, ?_⟩
      rcases promised with before | after
      · exact before
      · exact after
  | @added thread msg result kept shared ready computed =>
      by_cases same : thread = consumer
      · exact .inr ⟨.add msg, .add result kept, by simp [same], by rintro ⟨⟩⟩
      · refine .inl ⟨by simp [same], ?_⟩
        rcases promised with before | after
        · have grows := (add_offers s.shared msg).1
          rw [computed] at grows
          have contents := congrArg Prod.fst grows
          change shared.queue ≠ []
          rw [show shared.queue = _ from contents]
          split
          · exact List.append_ne_nil_of_right_ne_nil _ (List.cons_ne_nil _ _)
          · exact before
        · exact after
  | @got thread args msg shared ready computed may =>
      have single : commits (removal thread msg ++
          [.committed thread (.get args) (.get msg)]) = [⟨thread, .get args, .get msg⟩] :=
        commits_removal ..
      obtain rfl : thread = consumer :=
        sole ⟨thread, .get args, .get msg⟩ (by rw [single]; exact List.mem_singleton_self _) rfl
      obtain ⟨found, erased⟩ := s.shared.findMessage_spec args.sigsel args.sender
      rw [computed] at found erased
      refine .inr ⟨.get args, .get msg, by cases msg <;> simp [removal], ?_⟩
      intro same
      obtain rfl : args = getAny := by injection same
      have stored : s.shared.queue ≠ [] := by
        rcases promised with before | after
        · exact before
        · intro empty
          rw [empty] at erased
          exact after erased
      obtain ⟨first, rest, split⟩ := List.exists_cons_of_ne_nil stored
      refine ⟨first, ?_⟩
      rw [split] at found
      exact congrArg Return.get found
  | cleared ready => exact absurd rfl (unemptied _ (List.mem_singleton_self _)).1
  | stopped ready => exact absurd rfl (unemptied _ (List.mem_singleton_self _)).2

end Threads

/-- The queue's calls on its descriptor succeed, and `clearEvents` reads exactly
as often as there were messages to drop. -/
def StmtEvent.Faultless : StmtEvent τ ι → Prop
  | .visible _ => True
  | .wroteEvent result => result = 0
  | .readEvent result => result = 0
  | .drained cleared reads => reads = cleared

namespace Statements

variable [DecidableEq τ] [BEq ι]

omit [DecidableEq τ] [BEq ι] in
theorem Emits.faultless {before : LinxQueue ι} {emitted : List (StmtEvent τ ι)}
    (synced : Synced before) (emits : Emits before emitted) :
    ∀ event ∈ emitted, event.Faultless := by
  intro event member
  cases emits with
  | silent => cases member
  | wrote room =>
      obtain rfl := List.mem_singleton.mp member
      exact congrArg Prod.fst (synced.writeEvent room)
  | read stored =>
      obtain rfl := List.mem_singleton.mp member
      exact congrArg Prod.fst (synced.readEvent stored)
  | drained exhausted =>
      obtain rfl := List.mem_singleton.mp member
      exact (exhausted synced.opened).trans synced.counted

omit [BEq ι] in
theorem Moved.frame {s next : Statements τ ι} {action : Action τ ι}
    {emitted : List (StmtEvent τ ι)} (moved : Moved s action next emitted) :
    next.shared = s.shared ∧ next.owner = s.owner ∧
      (∀ thread entered stmt, s.point thread = .inside entered stmt →
        next.point thread = .inside entered stmt) ∧
      ∀ event ∈ emitted, event.Faultless := by
  have framed : ∀ {thread old} pc, s.point thread = .outside old →
      ∀ other entered stmt, s.point other = .inside entered stmt →
        (s.setOutside thread pc).point other = .inside entered stmt := by
    intro thread old pc outside other entered stmt inside
    have different : other ≠ thread := by
      rintro rfl
      rw [outside] at inside
      cases inside
    rw [setOutside_others s different]
    exact inside
  cases moved with
  | call outside | ret outside =>
      refine ⟨rfl, rfl, framed _ outside, ?_⟩
      intro event member
      obtain rfl := List.mem_singleton.mp member
      trivial
  | spurious outside => exact ⟨rfl, rfl, framed _ outside, List.forall_mem_nil _⟩
  | timeout outside waiting limited => exact ⟨rfl, rfl, framed _ outside, List.forall_mem_nil _⟩
  | @notify thread result outside =>
      refine ⟨rfl, rfl, ?_, List.forall_mem_nil _⟩
      intro other entered stmt inside
      change ((s.setOutside thread (.returning result)).point other).notified = _
      rw [framed _ outside other entered stmt inside]
      rfl

theorem Answer.faultless {s next : Statements τ ι} {t after : Threads τ ι}
    {actions : List (Action τ ι)} {emitted : List (StmtEvent τ ι)} (synced : Synced t.shared)
    (answer : Answer s next t actions emitted after) : ∀ event ∈ emitted, event.Faultless := by
  cases answer with
  | acquired free => exact List.forall_mem_nil _
  | advanced inside unfinished emits => exact emits.faultless synced
  | unlocked stepped same =>
      intro event member
      obtain ⟨_, -, rfl⟩ := List.mem_map.mp member
      trivial
  | outside stepped moved => exact moved.frame.2.2.2

def Settled (s : Statements τ ι) : Prop :=
  ∃ t : Threads τ ι, Follows s t ∧ Synced t.shared

theorem run_faultless {efd : LinxEventFd} {size : Int32} (opened : 0 ≤ efd.efd)
    (unused : efd.counter = 0) {actions : List (StmtAction τ ι)} {s : Statements τ ι}
    {events : List (StmtEvent τ ι)}
    (ran : machine.run (initial efd size) actions = some (s, events)) :
    Settled s ∧ ∀ event ∈ events, event.Faultless := by
  refine machine.run_invariant
    (motive := fun _ events s => Settled s ∧ ∀ event ∈ events, event.Faultless) ?_ ?_ ran
  · exact ⟨⟨_, follows_initial efd size, opened, unused, Nat.zero_le _⟩, nofun⟩
  · intro _ events s action next emitted _ held stepped
    obtain ⟨⟨t, follows, synced⟩, before⟩ := held
    obtain ⟨answers, after, answer, followsNext⟩ := step_answer follows stepped
    refine ⟨⟨after, followsNext, Threads.run_synced synced answer.run⟩, ?_⟩
    intro event member
    rcases List.mem_append.mp member with earlier | now
    · exact before event earlier
    · exact answer.faultless synced event now

/-! ### A consumer that polls -/

/-- A message is queued, or will be when the section in progress unlocks. -/
def Promised (s : Statements τ ι) (t : Threads τ ι) : Prop :=
  t.shared.queue ≠ [] ∨
    (s.shared.queue ≠ [] ∧ ∃ owner entered next, s.owner = some owner ∧
      s.point owner = .inside entered (.unlock next))

omit [DecidableEq τ] in
theorem Follows.promised {s : Statements τ ι} {t : Threads τ ι} (follows : Follows s t)
    (synced : Synced t.shared) (readable : s.shared.efd.readable = true) : Promised s t := by
  have positive : 0 < s.shared.efd.counter := by
    simp only [LinxEventFd.readable, Bool.and_eq_true, decide_eq_true_eq] at readable
    exact readable.2
  have fromCounter : s.shared.efd.counter ≤ t.shared.efd.counter → Promised s t := by
    intro bound
    refine .inl (List.length_pos_iff.mp ?_)
    rw [← synced.counted]
    exact Nat.lt_of_lt_of_le positive bound
  -- a section in progress has at most lowered the counter, unless it is an `add` that wrote
  cases owned : s.owner with
  | none => exact fromCounter (Nat.le_of_eq (congrArg (·.efd.counter) (follows.free owned)))
  | some owner =>
      obtain ⟨stmt, inside, partway⟩ := follows.held owner owned
      generalize now : s.shared = shared at partway
      cases partway with
      | begin | push | write | read =>
          rw [now] at fromCounter
          exact fromCounter (Nat.le_refl _)
      | clearList empties =>
          refine fromCounter (Nat.le_of_eq ?_)
          rw [now, ((t.pc owner).marked_fields t.shared).2]
      | drain empties started within =>
          refine fromCounter ?_
          rw [now]
          exact Nat.sub_le _ _
      | notify stopping =>
          rw [now, LinxQueue.stop, LinxEventFd.clearEvents_opened synced.opened] at positive
          exact absurd positive (Nat.lt_irrefl 0)
      | unlock ended =>
          right
          rw [now] at readable
          exact ⟨now ▸ (synced.outcome ended).readable_iff.mp readable, owner, _, _, owned, inside⟩

/-- The promise survives every step up to the first section of the consumer, if
nobody else takes a message and nobody clears; and that section keeps it. -/
theorem Promised.step {s next : Statements τ ι} {t after : Threads τ ι}
    {actions : List (Action τ ι)} {emitted : List (StmtEvent τ ι)} {consumer : τ}
    (promised : Promised s t) (follows : Follows s t)
    (answer : Answer s next t actions emitted after)
    (unemptied : ∀ commit ∈ commits (visible emitted), commit.call ≠ .clear ∧ commit.call ≠ .stop)
    (sole : ∀ commit ∈ commits (visible emitted),
      commit.call.isGet = true → commit.thread = consumer) :
    (committedBy consumer (visible emitted) = [] ∧ Promised next after) ∨
      ∃ call result, committedBy consumer (visible emitted) = [(call, result)] ∧
        (call = .get getAny → ∃ msg, result = .get (some msg)) := by
  cases answer with
  | acquired free =>
      refine .inl ⟨rfl, ?_⟩
      rcases promised with stored | ⟨-, owner, entered, pc, owned, -⟩
      · exact .inl stored
      · rw [free] at owned
        cases owned
  | advanced inside unfinished emits =>
      rw [emits.visible_nil]
      refine .inl ⟨rfl, ?_⟩
      rcases promised with stored | ⟨-, owner, entered, pc, owned, atUnlock⟩
      · exact .inl stored
      · obtain ⟨owned', -, -⟩ := follows.owner_inside inside
        obtain rfl := Option.some.inj (owned.symm.trans owned')
        rw [inside] at atUnlock
        injection atUnlock with _ finished
        exact absurd finished (unfinished pc)
  | unlocked stepped same =>
      rw [visible_map] at unemptied sole ⊢
      have either : t.shared.queue ≠ [] ∨ after.shared.queue ≠ [] := by
        rcases promised with stored | ⟨stored, -⟩
        · exact .inl stored
        · exact .inr (same ▸ stored)
      rcases Threads.did_keeps (Threads.step_cases stepped) unemptied sole either with
        ⟨silent, stored⟩ | served
      · exact .inl ⟨silent, .inl stored⟩
      · exact .inr served
  | outside stepped moved =>
      obtain ⟨sameShared, sameOwner, framed, -⟩ := moved.frame
      rcases promised with stored | ⟨stored, owner, entered, pc, owned, atUnlock⟩
      · rcases Threads.did_keeps (Threads.step_cases stepped) unemptied sole (.inl stored) with
          ⟨silent, stored⟩ | served
        · exact .inl ⟨silent, .inl stored⟩
        · exact .inr served
      · refine .inl ⟨?_, .inr ⟨sameShared ▸ stored, owner, entered, pc, sameOwner ▸ owned,
          framed owner entered _ atUnlock⟩⟩
        cases moved <;> rfl

theorem run_promised {s next : Statements τ ι} {t : Threads τ ι} {consumer : τ}
    {actions : List (StmtAction τ ι)} {events : List (StmtEvent τ ι)}
    (follows : Follows s t) (promised : Promised s t)
    (ran : machine.run s actions = some (next, events))
    (unemptied : ∀ commit ∈ commits (visible events), commit.call ≠ .clear ∧ commit.call ≠ .stop)
    (sole : ∀ commit ∈ commits (visible events),
      commit.call.isGet = true → commit.thread = consumer) :
    ∀ call result rest, committedBy consumer (visible events) = (call, result) :: rest →
      call = .get getAny → ∃ msg, result = .get (some msg) := by
  induction actions generalizing s t events with
  | nil =>
      simp only [Machine.run, Option.some.injEq, Prod.mk.injEq] at ran
      obtain ⟨rfl, rfl⟩ := ran
      rintro call result rest ⟨⟩
  | cons action rest ih =>
      obtain ⟨middle, emitted, later, stepped, followed, rfl⟩ := machine.run_cons_inv ran
      have split : visible (emitted ++ later) = visible emitted ++ visible later :=
        List.filterMap_append ..
      rw [split] at unemptied sole ⊢
      simp only [commits, committedBy, List.filterMap_append, List.mem_append] at unemptied sole ⊢
      obtain ⟨answers, after, answer, followsNext⟩ := step_answer follows stepped
      rcases promised.step follows answer (fun commit member => unemptied commit (.inl member))
          (fun commit member => sole commit (.inl member)) with
        ⟨silent, promisedNext⟩ | ⟨call, result, single, served⟩
      · rw [committedBy] at silent
        rw [silent]
        exact ih followsNext promisedNext followed
          (fun commit member => unemptied commit (.inr member))
          (fun commit member => sole commit (.inr member))
      · intro call' result' rest' first
        rw [committedBy] at single
        rw [single] at first
        cases first
        exact served

/-- Descriptor and queue never drift apart.  In every run of statements from an
open, unused eventfd: between sections the counter is the length of the queue,
and no call on the descriptor has failed.  A consumer outside its calls that
finds the descriptor readable, even in the middle of a section of another
thread, gets a message from its next `get` for any message, if no `clear` or
`stop` and no other thread's `get` ran in between. -/
theorem poll_descriptor_counts_messages {efd : LinxEventFd} {size : Int32}
    (opened : 0 ≤ efd.efd) (unused : efd.counter = 0) {actions : List (StmtAction τ ι)}
    {s : Statements τ ι} {events : List (StmtEvent τ ι)}
    (ran : machine.run (initial efd size) actions = some (s, events)) :
    (s.owner = none → s.shared.efd.counter = s.shared.queue.length ∧
      (s.shared.efd.readable = true ↔ s.shared.queue ≠ [])) ∧
    (∀ event ∈ events, event.Faultless) ∧
    ∀ consumer later next emitted, machine.run s later = some (next, emitted) →
      s.point consumer = .outside .idle → s.shared.efd.readable = true →
      (∀ commit ∈ commits (visible emitted), commit.call ≠ .clear ∧ commit.call ≠ .stop) →
      (∀ commit ∈ commits (visible emitted), commit.call.isGet = true → commit.thread = consumer) →
      ∀ calls, invokedBy consumer (visible emitted) = .get getAny :: calls →
        returnedBy consumer (visible emitted) ≠ [] →
        ∃ msg values, returnedBy consumer (visible emitted) = .get (some msg) :: values := by
  obtain ⟨⟨t, follows, synced⟩, faultless⟩ := run_faultless opened unused ran
  refine ⟨?_, faultless, ?_⟩
  · intro free
    rw [follows.free free]
    exact ⟨synced.counted, synced.readable_iff⟩
  · intro consumer later next emitted ranLater idle readable unemptied sole calls called returned
    obtain ⟨locked, after, ranLocked, -⟩ := sections.run_answered follows ranLater
    have logged := Threads.run_logged ranLocked consumer
    have atPoint : t.pc consumer = .idle := follows.seen_eq idle nofun
    have returns := logged.returns
    have made := logged.calls
    rw [atPoint] at returns
    rw [atPoint, called] at made
    obtain ⟨value, values, split⟩ := List.exists_cons_of_ne_nil returned
    rw [split] at returns ⊢
    cases first : committedBy consumer (visible emitted) with
    | nil =>
        rw [first] at returns
        cases returns
    | cons entry rest =>
        obtain ⟨call, result⟩ := entry
        rw [first] at returns made
        injection returns with sameValue
        injection made with sameCall
        subst sameValue
        obtain ⟨msg, rfl⟩ := run_promised follows (follows.promised synced readable) ranLater
          unemptied sole call result rest first sameCall.symm
        exact ⟨msg, values, rfl⟩

theorem poll_descriptor_counts_messages_during_add :
    ∃ (s : Statements Bool Nat) (emitted : List (StmtEvent Bool Nat)),
      machine.Reachable (initial ⟨3, 0⟩ 1) s ∧
      s.owner = some true ∧ s.shared.efd.readable = true ∧
      ∃ msg values, returnedBy false (visible emitted) = .get (some msg) :: values := by
  have ran : machine.run (initial ⟨3, 0⟩ 1)
    [.outside (.call true (.add ⟨⟨7, []⟩, some (1 : Nat)⟩)), .acquire true, .statement true,
      .statement true, .statement true] = some (_, _) := rfl
  exact ⟨_, _, ⟨_, _, ran⟩, rfl, rfl,
    (poll_descriptor_counts_messages (by decide) rfl ran).2.2 false
      [.outside (.call false (.get getAny)), .statement true, .outside (.notify true),
        .acquire false, .statement false, .statement false, .statement false,
        .outside (.ret false)] _ _ rfl rfl rfl (by decide) (by decide) [] rfl nofun⟩

end Statements

end LinxIpc.Queue
