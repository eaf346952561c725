import LinxIpc.Fifo.Ledger
import LinxIpc.Queue.Refinement

/-!
Whole runs of the queue: where every accepted message is, and in which order the
messages leave.

The ledger of `SelectiveFifo` is computed from the committed calls.  Through the
refinement its stored values are the messages of the queue and its deliveries
are the messages that `get` calls returned.
-/

namespace LinxIpc.Queue

variable {τ ι : Type}

def Call.added? : Call ι → Option (LinxReceivedMessage ι)
  | .add msg => some msg
  | .get _ | .clear | .stop => none

def Commit.accepted? (commit : Commit τ ι) : Option (LinxReceivedMessage ι) :=
  match commit.call, commit.result with
  | .add msg, .add (some 0) _ => some msg
  | _, _ => none

def Commit.delivered? (commit : Commit τ ι) : Option ((τ × Get ι) × LinxReceivedMessage ι) :=
  match commit.call, commit.result with
  | .get args, .get (some msg) => some ((commit.thread, args), msg)
  | _, _ => none

theorem Commit.accepted_call {commit : Commit τ ι} {msg : LinxReceivedMessage ι}
    (accepted : commit.accepted? = some msg) : commit.call = .add msg := by
  unfold Commit.accepted? at accepted
  split at accepted
  · rename_i called _
    cases accepted
    exact called
  · cases accepted

def ledger [BEq ι] (size : Int32) (events : List (Event τ ι)) :
    SelectiveFifo.Ledger (LinxReceivedMessage ι) (τ × Get ι) :=
  SelectiveFifo.Ledger.replay accepts (capacity size) ((commits events).map Commit.op)

theorem handed_commit (commit : Commit τ ι) :
    SelectiveFifo.handed? (commit.op, commit.response) = commit.delivered? := by
  obtain ⟨thread, call, result⟩ := commit
  cases call <;> cases result <;> try rfl
  rename_i args msg
  cases msg <;> rfl

theorem admitted_commit (commit : Commit τ ι) :
    SelectiveFifo.admitted? (commit.op, commit.response) = commit.accepted? := by
  obtain ⟨thread, call, result⟩ := commit
  cases call <;> cases result <;> try rfl
  rename_i msg result kept
  by_cases ok : result = some 0
  · subst ok
    rfl
  · have refused : (result == some 0) = false := beq_eq_false_iff_ne.mpr ok
    simp only [Commit.op, Call.op, Commit.response, Return.response, refused,
      SelectiveFifo.admitted?, Commit.accepted?]
    split
    · rename_i impossible
      injection impossible with same
      exact absurd same ok
    · rfl

namespace Threads

variable [DecidableEq τ] [BEq ι]

theorem run_ledger {efd : LinxEventFd} {size : Int32} {actions : List (Action τ ι)}
    {s : Threads τ ι} {events : List (Event τ ι)}
    (ran : machine.run (initial efd size) actions = some (s, events)) :
    (ledger size events).queued.map Prod.snd = s.shared.queue ∧
      (ledger size events).accepted = (commits events).filterMap Commit.accepted? ∧
      (ledger size events).delivered.map (fun record => (record.2, record.1.2)) =
        (commits events).filterMap Commit.delivered? := by
  obtain ⟨-, replayed⟩ := run_replays ran
  unfold ledger
  rw [SelectiveFifo.Ledger.replay_queued, SelectiveFifo.Ledger.replay_accepted,
    SelectiveFifo.Ledger.replay_delivered, replayed]
  refine ⟨rfl, ?_, ?_⟩
  · rw [List.zip_map', List.filterMap_map]
    exact List.filterMap_congr (fun commit _ => admitted_commit commit)
  · rw [List.zip_map', List.filterMap_map]
    exact List.filterMap_congr (fun commit _ => handed_commit commit)

theorem run_open {efd : LinxEventFd} {size : Int32} {actions : List (Action τ ι)}
    {s : Threads τ ι} {events : List (Event τ ι)}
    (ran : machine.run (initial efd size) actions = some (s, events)) (thread : τ) :
    (committedBy thread events).map Prod.snd =
        returnedBy thread events ++ (s.pc thread).unreturned ∧
      invokedBy thread events =
        (committedBy thread events).map Prod.fst ++ (s.pc thread).uncommitted := by
  obtain ⟨returns, calls, -⟩ := run_logged ran thread
  have started : (initial efd size : Threads τ ι).pc thread = .idle := rfl
  rw [started, Pc.idle_open.2, List.nil_append] at returns
  rw [started, Pc.idle_open.1, List.nil_append] at calls
  exact ⟨returns, calls⟩

theorem run_commit_invoked {efd : LinxEventFd} {size : Int32} {actions : List (Action τ ι)}
    {s : Threads τ ι} {events : List (Event τ ι)}
    (ran : machine.run (initial efd size) actions = some (s, events)) {commit : Commit τ ι}
    (member : commit ∈ commits events) : commit.call ∈ invokedBy commit.thread events := by
  rw [(run_open ran commit.thread).2]
  apply List.mem_append_left
  obtain ⟨event, present, same⟩ := List.mem_filterMap.mp member
  cases event with
  | committed thread call result =>
      cases same
      refine List.mem_map.mpr ⟨(call, result), List.mem_filterMap.mpr ⟨_, present, ?_⟩, rfl⟩
      exact if_pos rfl
  | invoked | removed | returned => cases same

theorem run_within {efd : LinxEventFd} {size : Int32} {actions : List (Action τ ι)}
    {s : Threads τ ι} {events : List (Event τ ι)}
    (ran : machine.run (initial efd size) actions = some (s, events)) :
    s.shared.queue.length ≤ capacity size := by
  refine machine.run_invariant
    (motive := fun _ _ s => s.shared.queue.length ≤ capacity size) (Nat.zero_le _) ?_ ran
  intro _ _ s action next emitted ranSoFar within stepped
  rcases (did_commits (step_cases stepped)).2 with ⟨-, same⟩ | ⟨commit, -, applied⟩
  · rw [same]
    exact within
  · rw [(run_replays ranSoFar).1] at applied
    have stored := @SelectiveFifo.apply_within _ _ accepts _ _ within commit.op
    rw [applied] at stored
    exact stored

theorem step_rejects {efd : LinxEventFd} {size : Int32} {actions : List (Action τ ι)}
    {s next : Threads τ ι} {events emitted : List (Event τ ι)} {action : Action τ ι}
    (ran : machine.run (initial efd size) actions = some (s, events))
    (stepped : s.step action = some (next, emitted)) {commit : Commit τ ι}
    (member : commit ∈ commits emitted) {msg : LinxReceivedMessage ι}
    (called : commit.call.added? = some msg) (rejected : commit.accepted? = none) :
    s.shared.queue.length = capacity size := by
  rcases (did_commits (step_cases stepped)).2 with ⟨silent, -⟩ | ⟨single, alone, applied⟩
  · rw [silent] at member
    cases member
  · rw [alone] at member
    obtain rfl := List.mem_singleton.mp member
    rw [(run_replays ran).1] at applied
    refine Nat.le_antisymm (run_within ran) (Nat.not_lt.mp ?_)
    intro room
    obtain ⟨thread, call, result⟩ := commit
    have response := congrArg Prod.snd applied
    cases call with
    | add other =>
        simp only [Commit.op, Call.op, SelectiveFifo.apply, if_pos room] at response
        -- a response that tells of room is the return of a call that stored
        cases result with
        | add result kept =>
            simp only [Commit.response, Return.response,
              SelectiveFifo.Response.offered.injEq] at response
            obtain rfl := eq_of_beq response.symm
            cases rejected
        | get | done => cases response
    | get | clear | stop => cases called

/-- Without `clear` and `stop`, and when all readers have one filter, what was
handed over and what is stored are, in order, the accepted messages that the
filter matches. -/
theorem run_one_filter {efd : LinxEventFd} {size : Int32} {actions : List (Action τ ι)}
    {s : Threads τ ι} {events : List (Event τ ι)}
    (ran : machine.run (initial efd size) actions = some (s, events))
    {passes : LinxReceivedMessage ι → Bool}
    (oneFilter : ∀ commit ∈ commits events, commit.op ≠ .clear ∧
      ∀ reader, commit.op = .take reader → accepts reader = passes) :
    ((commits events).filterMap Commit.delivered?).map Prod.snd ++ s.shared.queue.filter passes =
      ((commits events).filterMap Commit.accepted?).filter passes := by
  obtain ⟨-, replayed⟩ := run_replays ran
  have filtered := SelectiveFifo.replay_filter (capacity size)
    (List.forall_mem_map.mpr oneFilter)
  rw [replayed, List.zip_map', List.filterMap_map, List.filterMap_map] at filtered
  have delivered : ∀ commit ∈ commits events,
      (SelectiveFifo.handed? ∘ fun commit => (Commit.op commit, Commit.response commit)) commit =
        commit.delivered? := fun commit _ => handed_commit commit
  have accepted : ∀ commit ∈ commits events,
      (SelectiveFifo.admitted? ∘ fun commit => (Commit.op commit, Commit.response commit)) commit =
        commit.accepted? := fun commit _ => admitted_commit commit
  rw [List.filterMap_congr delivered, List.filterMap_congr accepted] at filtered
  exact filtered

theorem step_delivers {efd : LinxEventFd} {size : Int32} {actions : List (Action τ ι)}
    {s next : Threads τ ι} {events emitted : List (Event τ ι)} {action : Action τ ι}
    (ran : machine.run (initial efd size) actions = some (s, events))
    (stepped : s.step action = some (next, emitted))
    {thread : τ} {args : Get ι} {msg : LinxReceivedMessage ι}
    (member : ⟨thread, .get args, .get (some msg)⟩ ∈ commits emitted) :
    ∃ stamp,
      (ledger size events).queued.find?
          (SelectiveFifo.Ledger.wants accepts (thread, args)) = some (stamp, msg) ∧
      (ledger size (events ++ emitted)).delivered =
        (ledger size events).delivered ++ [((stamp, msg), (thread, args))] := by
  obtain ⟨sameSize, -⟩ := run_replays ran
  obtain ⟨stored, -, -⟩ := run_ledger ran
  rcases (did_commits (step_cases stepped)).2 with ⟨silent, _⟩ | ⟨commit, single, applied⟩
  · rw [silent] at member
    cases member
  · rw [single] at member
    obtain rfl := List.mem_singleton.mp member
    have found : s.shared.queue.find? (accepts (thread, args)) = some msg := by
      have response := congrArg Prod.snd applied
      injection response
    rw [← stored, List.find?_map] at found
    obtain ⟨⟨stamp, value⟩, atFirst, rfl⟩ := Option.map_eq_some_iff.mp found
    refine ⟨stamp, atFirst, ?_⟩
    unfold ledger
    simp only [commits, List.filterMap_append, List.map_append] at single ⊢
    rw [single, List.map_singleton, SelectiveFifo.Ledger.replay_snoc]
    exact congrArg SelectiveFifo.Ledger.delivered
      (SelectiveFifo.Ledger.apply_take_some (capacity size) atFirst)

/-- Conservation and no overtaking.  The numbers of acceptance are split between
the queue, the deliveries and the discarded messages, each in exactly one place;
the queue is in acceptance order; a `get` passes over no accepted message that
its filter matches; and two deliveries under one filter are in acceptance order,
whatever was taken between them under others. -/
theorem accepted_messages_conserved {efd : LinxEventFd} {size : Int32}
    {actions : List (Action τ ι)} {s : Threads τ ι} {events : List (Event τ ι)}
    (ran : machine.run (initial efd size) actions = some (s, events)) :
    ((ledger size events).queued.map Prod.snd = s.shared.queue ∧
      (ledger size events).accepted = (commits events).filterMap Commit.accepted? ∧
      (ledger size events).delivered.map (fun record => (record.2, record.1.2)) =
        (commits events).filterMap Commit.delivered?) ∧
    (((ledger size events).places.map Prod.fst).Perm
        (List.range (ledger size events).accepted.length) ∧
      (∀ entry ∈ (ledger size events).places,
        (ledger size events).accepted[entry.1]? = some entry.2)) ∧
    (ledger size events).queued.Pairwise (fun left right => left.1 < right.1) ∧
    (∀ action next emitted thread args msg,
      s.step action = some (next, emitted) →
      ⟨thread, .get args, .get (some msg)⟩ ∈ commits emitted →
      ∃ stamp,
        (ledger size (events ++ emitted)).delivered =
          (ledger size events).delivered ++ [((stamp, msg), (thread, args))] ∧
        ∀ earlier other, earlier < stamp →
          (ledger size events).accepted[earlier]? = some other →
          args.matches other = true → (ledger size events).Settled earlier) ∧
    (ledger size events).delivered.Pairwise (fun left right =>
      left.2.2.sigsel = right.2.2.sigsel → left.2.2.sender = right.2.2.sender →
        left.1.1 < right.1.1) := by
  have valid : SelectiveFifo.Ledger.Valid accepts (ledger size events) :=
    SelectiveFifo.Ledger.replay_valid accepts (capacity size) _
  refine ⟨run_ledger ran, ⟨valid.conserved, valid.values⟩, valid.ordered, ?_, ?_⟩
  · intro action next emitted thread args msg stepped member
    obtain ⟨stamp, found, extended⟩ := step_delivers ran stepped member
    refine ⟨stamp, extended, ?_⟩
    intro earlier other before atEarlier matched
    exact valid.no_overtaking found before atEarlier matched
  · refine valid.inOrder.imp_of_mem ?_
    intro left right _ rightMember ordered sameSigsel sameSender
    apply ordered
    have wanted := valid.wanted right rightMember
    unfold SelectiveFifo.Ledger.wants accepts Get.matches at wanted ⊢
    rw [sameSigsel, sameSender]
    exact wanted

theorem accepted_messages_conserved_two_consumers :
    ∃ (s : Threads (Fin 2) Nat) (events : List (Event (Fin 2) Nat)),
      s.shared.queue = [⟨⟨8, []⟩, some 2⟩] ∧
      (ledger 4 events).places.map Prod.fst = [2, 1, 0] ∧
      (ledger 4 events).queued.map Prod.snd = s.shared.queue := by
  refine ⟨_, _, rfl, rfl, (@accepted_messages_conserved _ _ _ _ ⟨3, 0⟩ 4
    [.call 0 (.add ⟨⟨7, []⟩, some 1⟩), .lock 0, .notify 0, .ret 0,
      .call 0 (.add ⟨⟨8, []⟩, some 1⟩), .lock 0, .notify 0, .ret 0,
      .call 1 (.get ⟨immediateTimeout, [8], none⟩), .lock 1, .ret 1,
      .call 1 .clear, .lock 1, .ret 1,
      .call 0 (.add ⟨⟨8, []⟩, some 2⟩), .lock 0] _ _ rfl).1.1⟩

end Threads

end LinxIpc.Queue
