import LinxIpc.Machine.Progress
import LinxIpc.Queue.Wakeup

/-!
The calls on one `LinxQueue` come to an end.

Between two calls nothing goes round: a thread that is woken for nothing goes back
to sleep, and only an `add` or a `stop` wakes the others, once.  What is left when
no step can be taken are waits without a limit for messages that are not there.
-/

namespace LinxIpc.Queue

variable {τ ι : Type}

def Action.Inner : Action τ ι → Prop
  | .call _ _ | .spurious _ => False
  | .lock _ | .notify _ | .timeout _ | .ret _ => True

/-- The inner steps that may follow from a point, with the wakeups of the others
that it still has to cause. -/
def Pc.weight (threads : Nat) : Pc ι → Nat
  | .idle => 0
  | .returning _ => 1
  | .expired _ => 2
  | .asleep _ => 3
  | .woken _ => 4
  | .locking .clear => 2
  | .locking (.get _) => 4
  | .locking .stop => threads + 2
  | .locking (.add _) => threads + 3
  | .notifying _ => threads + 2

theorem Pc.weight_le (threads : Nat) (pc : Pc ι) : pc.weight threads ≤ threads + 4 := by
  cases pc with
  | locking call => cases call <;> simp only [Pc.weight] <;> omega
  | idle | notifying | asleep | woken | expired | returning => simp only [Pc.weight]; omega

theorem Pc.weight_notified (threads : Nat) (pc : Pc ι) :
    pc.notified.weight threads ≤ pc.weight threads + 1 := by
  cases pc with
  | asleep args => exact Nat.le_refl _
  | idle | locking | notifying | woken | expired | returning => exact Nat.le_succ _

namespace Threads

variable [DecidableEq τ] [BEq ι]

theorem lock_finds {s next : Threads τ ι} {thread : τ} {args : Get ι}
    {events : List (Event τ ι)}
    (last : s.pc thread = .expired args ∨
      (s.pc thread = .locking (.get args) ∧ args.timeoutMs = immediateTimeout))
    (stepped : s.step (.lock thread) = some (next, events)) :
    ∃ msg, next.pc thread = .returning (.get msg) := by
  have found : s.step (.lock thread) = some (s.lockFind thread args) := by
    rcases last with expired | ⟨called, immediate⟩
    · simp only [step, lockSection, expired]
    · simp only [step, lockSection, called, if_pos immediate]
  rw [found] at stepped
  obtain ⟨rfl, -⟩ := Prod.mk.inj (Option.some.inj stepped)
  exact ⟨_, Function.update_self ..⟩

omit [DecidableEq τ] [BEq ι] in
theorem Evaluates.weight (threads : Nat) {pc : Pc ι} {args : Get ι} (ready : Evaluates pc args) :
    2 ≤ pc.weight threads := by
  rcases ready with rfl | rfl | rfl <;> simp only [Pc.weight] <;> omega

def Shifts (threads : Nat) (s next : Threads τ ι) (mover : τ) : Prop :=
  ∃ raise, (next.pc mover).weight threads + (threads - 1) * raise <
      (s.pc mover).weight threads ∧
    ∀ other, other ≠ mover →
      (next.pc other).weight threads ≤ (s.pc other).weight threads + raise

omit [BEq ι] in
theorem shifts_alone {threads : Nat} {s next : Threads τ ι} {mover : τ} {pc : Pc ι}
    (moved : next.pc = Function.update s.pc mover pc)
    (lower : pc.weight threads < (s.pc mover).weight threads) : Shifts threads s next mover := by
  refine ⟨0, ?_, ?_⟩
  · rw [moved, Function.update_self]
    exact lower
  · intro other different
    rw [moved, Function.update_of_ne different]
    exact Nat.le_refl _

omit [BEq ι] in
theorem shifts_notifying {threads : Nat} {s next : Threads τ ι} {mover : τ} {result : Return ι}
    (moved : ∀ thread, next.pc thread =
      (Function.update s.pc mover (.returning result) thread).notified)
    (charged : (s.pc mover).weight threads = threads + 2) : Shifts threads s next mover := by
  refine ⟨1, ?_, ?_⟩
  · rw [moved, Function.update_self, charged]
    change 1 + (threads - 1) * 1 < threads + 2
    omega
  · intro other different
    rw [moved, Function.update_of_ne different]
    exact Pc.weight_notified threads _

theorem inner_shifts {s next : Threads τ ι} {action : Action τ ι} {events : List (Event τ ι)}
    (threads : Nat) (inner : action.Inner) (stepped : s.step action = some (next, events)) :
    Shifts threads s next action.thread := by
  have did := step_cases stepped
  cases did with
  | invoked ready => exact inner.elim
  | woke ready => exact inner.elim
  | @added mover msg result kept shared ready computed =>
      refine shifts_alone rfl ?_
      change _ < (s.pc mover).weight threads
      rw [ready]
      cases result with
      | none =>
          change 1 < threads + 3
          omega
      | some code => exact Nat.lt_succ_self _
  | got ready computed may => exact shifts_alone rfl (ready.weight threads)
  | @slept mover args ready missing running =>
      refine shifts_alone rfl ?_
      change _ < (s.pc mover).weight threads
      rcases ready with ready | ready | ready
      · rw [ready]
        exact Nat.lt_succ_self _
      · rw [ready]
        exact Nat.lt_succ_self _
      · obtain ⟨msg, returning⟩ := lock_finds (.inl ready) stepped
        rw [setPc_pc, Function.update_self] at returning
        cases returning
  | @cleared mover ready =>
      refine shifts_alone rfl ?_
      change _ < (s.pc mover).weight threads
      rw [ready]
      exact Nat.lt_succ_self _
  | @stopped mover ready =>
      refine shifts_notifying (fun _ => rfl) ?_
      change (s.pc mover).weight threads = _
      rw [ready]
      rfl
  | @notified mover result ready =>
      refine shifts_notifying (fun _ => rfl) ?_
      change (s.pc mover).weight threads = _
      rw [ready]
      rfl
  | @timedOut mover args ready limited =>
      refine shifts_alone rfl ?_
      change _ < (s.pc mover).weight threads
      rcases ready with ready | ready
      · rw [ready]
        exact Nat.lt_succ_self _
      · rw [ready]
        exact Nat.lt_of_succ_lt (Nat.lt_succ_self _)
  | @returned mover result ready =>
      refine shifts_alone rfl ?_
      change _ < (s.pc mover).weight threads
      rw [ready]
      exact Nat.lt_succ_self _

theorem step_idle {s next : Threads τ ι} {action : Action τ ι} {events : List (Event τ ι)}
    (idle : s.pc action.thread = .idle) (stepped : s.step action = some (next, events)) :
    ∃ call, action = .call action.thread call := by
  cases action with
  | call thread call => exact ⟨call, rfl⟩
  | lock thread =>
      simp only [step, lockSection, show s.pc thread = .idle from idle, reduceCtorEq] at stepped
  | notify thread | spurious thread | timeout thread | ret thread =>
      simp only [step, show s.pc thread = .idle from idle, reduceCtorEq] at stepped

/-! ### What stays when no inner step is left -/

theorem inner_enabled {s : Threads τ ι} {thread : τ} {pc : Pc ι} (atPoint : s.pc thread = pc)
    (busy : pc ≠ .idle) (awake : ∀ args, pc ≠ .asleep args) :
    ∃ action, action.Inner ∧ action.thread = thread ∧ s.step action ≠ none := by
  cases pc with
  | idle => exact absurd rfl busy
  | asleep args => exact absurd rfl (awake args)
  | locking call =>
      refine ⟨.lock thread, trivial, rfl, ?_⟩
      simp only [step, lockSection, atPoint]
      cases call with
      | add | clear | stop => exact Option.some_ne_none _
      | get args =>
          simp only
          split <;> exact Option.some_ne_none _
  | notifying result =>
      refine ⟨.notify thread, trivial, rfl, ?_⟩
      simp only [step, atPoint]
      exact Option.some_ne_none _
  | woken args | expired args =>
      refine ⟨.lock thread, trivial, rfl, ?_⟩
      simp only [step, lockSection, atPoint]
      exact Option.some_ne_none _
  | returning result =>
      refine ⟨.ret thread, trivial, rfl, ?_⟩
      simp only [step, atPoint]
      exact Option.some_ne_none _

theorem timeout_enabled {s : Threads τ ι} {thread : τ} {args : Get ι}
    (asleep : s.pc thread = .asleep args) :
    s.step (.timeout thread) ≠ none ↔ args.timeoutMs ≠ infiniteTimeout := by
  simp only [step, asleep]
  split
  · rename_i infinite
    exact iff_of_false (not_not.mpr rfl) (not_not.mpr infinite)
  · rename_i limited
    exact iff_of_true (Option.some_ne_none _) limited

def Settled (s : Threads τ ι) : Prop :=
  ∀ thread, s.pc thread = .idle ∨
    ∃ args, s.pc thread = .asleep args ∧ args.timeoutMs = infiniteTimeout ∧
      s.shared.stopped = false ∧ ∀ msg ∈ s.shared.queue, args.matches msg = false

theorem blocked_settled {s : Threads τ ι} (wakeup : WakeupInvariant s)
    (blocked : Machine.Blocked machine Action.Inner s) : Settled s := by
  have asleepOrIdle : ∀ thread, s.pc thread = .idle ∨ ∃ args, s.pc thread = .asleep args := by
    intro thread
    by_cases busy : s.pc thread = .idle
    · exact .inl busy
    · right
      by_contra awake
      obtain ⟨action, inner, -, enabled⟩ :=
        inner_enabled rfl busy (fun args asleep => awake ⟨args, asleep⟩)
      exact enabled (blocked action inner)
  intro thread
  rcases asleepOrIdle thread with idle | ⟨args, asleep⟩
  · exact .inl idle
  · refine .inr ⟨args, asleep, ?_, ?_, ?_⟩
    · by_contra limited
      exact (timeout_enabled asleep).mpr limited (blocked (.timeout thread) trivial)
    · cases running : s.shared.stopped with
      | false => rfl
      | true => exact absurd asleep (wakeup.awakeAfterStop running thread args)
    · -- a matching message would be covered by a thread that is about to notify
      intro msg member
      cases matched : args.matches msg with
      | false => rfl
      | true =>
          obtain ⟨adder, result, kept, notifying⟩ :=
            wakeup.covered thread args asleep (.inr ⟨msg, member, matched⟩)
          rcases asleepOrIdle adder with idle | ⟨others, waits⟩
          · rw [idle] at notifying
            cases notifying
          · rw [waits] at notifying
            cases notifying

theorem settled_blocked {s : Threads τ ι} (settled : Settled s) :
    Machine.Blocked machine Action.Inner s := by
  intro action inner
  rcases settled action.thread with idle | ⟨args, asleep, infinite, -, -⟩
  · cases action with
    | call | spurious => exact inner.elim
    | lock thread => simp only [machine, step, lockSection, show s.pc thread = _ from idle]
    | notify thread | timeout thread | ret thread =>
        simp only [machine, step, show s.pc thread = _ from idle]
  · cases action with
    | call | spurious => exact inner.elim
    | lock thread => simp only [machine, step, lockSection, show s.pc thread = _ from asleep]
    | notify thread | ret thread => simp only [machine, step, show s.pc thread = _ from asleep]
    | timeout thread =>
        simp only [machine, step, show s.pc thread = _ from asleep, if_pos infinite]

/-! ### Whole runs -/

section

variable [Fintype τ]

def weight (s : Threads τ ι) : Nat := ∑ thread, (s.pc thread).weight (Fintype.card τ)

omit [DecidableEq τ] [BEq ι] in
theorem weight_le (s : Threads τ ι) :
    s.weight ≤ Fintype.card τ * (Fintype.card τ + 4) := by
  have bound := Finset.sum_le_card_nsmul Finset.univ
    (fun thread => (s.pc thread).weight (Fintype.card τ)) (Fintype.card τ + 4)
    (fun thread _ => Pc.weight_le _ _)
  rw [Finset.card_univ, smul_eq_mul] at bound
  exact bound

theorem inner_ranked (efd : LinxEventFd) (size : Int32) :
    (machine (τ := τ) (ι := ι)).Ranked (machine.Reachable (initial efd size)) Action.Inner
      (fun _ => true) weight where
  kept _ _ _ _ reached _ stepped := reached.step stepped
  lowered s action next events _ inner stepped := by
    obtain ⟨raise, own, others⟩ := inner_shifts (Fintype.card τ) inner stepped
    have lower := Machine.sum_rank_lt own others
    rw [Bool.toNat_true, Nat.add_comm]
    exact lower

/-- However they are scheduled, the calls that were made need so many steps and no
more; and a schedule comes to its end only where nothing is left to wait for. -/
theorem calls_settle {efd : LinxEventFd} {size : Int32} {s : Threads τ ι}
    (reached : machine.Reachable (initial efd size) s) :
    (∀ actions last events, (∀ action ∈ actions, action.Inner) →
      machine.run s actions = some (last, events) →
      actions.length ≤ Fintype.card τ * (Fintype.card τ + 4) ∧
        (Machine.Blocked machine Action.Inner last ↔ Settled last)) ∧
    ∃ actions last events, (∀ action ∈ actions, action.Inner) ∧
      machine.run s actions = some (last, events) ∧ Settled last := by
  have ranked := inner_ranked (τ := τ) (ι := ι) efd size
  constructor
  · intro actions last events inner ran
    obtain ⟨reachedLast, bound⟩ := ranked.run reached inner ran
    rw [List.countP_eq_length.mpr (fun _ _ => rfl)] at bound
    refine ⟨Nat.le_trans (Nat.le_of_add_right_le bound) (weight_le s), ?_, settled_blocked⟩
    exact blocked_settled (wakeup_reachable reachedLast)
  · obtain ⟨actions, last, events, inner, ran, reachedLast, blocked⟩ :=
      ranked.completes (fun _ _ => rfl) reached
    exact ⟨actions, last, events, inner, ran,
      blocked_settled (wakeup_reachable reachedLast) blocked⟩

end

theorem calls_settle_get_with_add :
    ∃ s : Threads Bool Nat, s.pc true = .asleep ⟨infiniteTimeout, [7], none⟩ ∧
      s.pc false = .locking (.add ⟨⟨8, []⟩, some 1⟩) ∧
      ∃ actions last events, (∀ action ∈ actions, action.Inner) ∧
        machine.run s actions = some (last, events) ∧ Settled last := by
  refine ⟨_, rfl, rfl, (@calls_settle _ _ _ _ _ ⟨3, 0⟩ 1 _
    ⟨[.call true (.get ⟨infiniteTimeout, [7], none⟩), .lock true,
      .call false (.add ⟨⟨8, []⟩, some 1⟩)], _, rfl⟩).2⟩

/-! ### Calls that nobody holds up -/

def stage : Pc ι → Nat
  | .idle => 0
  | .returning _ => 1
  | .notifying _ | .expired _ => 2
  | .locking _ | .woken _ | .asleep _ => 3

/-- In a call, and not going to sleep in it: the queue was stopped, or the call
does not wait. -/
def Prompt (stopped : Bool) : Pc ι → Prop
  | .idle | .asleep _ => False
  | .locking (.get args) => args.timeoutMs = immediateTimeout ∨ stopped = true
  | .woken _ => stopped = true
  | .locking (.add _) | .locking .clear | .locking .stop => True
  | .notifying _ | .expired _ | .returning _ => True

omit [DecidableEq τ] [BEq ι] in
theorem prompt_mono {before after : Bool} (stays : before = true → after = true) {pc : Pc ι}
    (prompt : Prompt before pc) : Prompt after pc := by
  cases pc with
  | idle | asleep | notifying | expired | returning => exact prompt
  | woken args => exact stays prompt
  | locking call =>
      cases call with
      | get args => exact prompt.imp_right stays
      | add | clear | stop => exact prompt

omit [DecidableEq τ] [BEq ι] in
theorem notified_prompt {stopped : Bool} {pc : Pc ι} (prompt : Prompt stopped pc) :
    pc.notified = pc := by
  cases pc with
  | asleep args => exact prompt.elim
  | idle | locking | notifying | woken | expired | returning => rfl

theorem own_prompt {s next : Threads τ ι} {action : Action τ ι} {events : List (Event τ ι)}
    (prompt : Prompt s.shared.stopped (s.pc action.thread))
    (inside : action ≠ .ret action.thread) (stepped : s.step action = some (next, events)) :
    Prompt s.shared.stopped (next.pc action.thread) ∧
      1 + stage (next.pc action.thread) ≤ stage (s.pc action.thread) := by
  have did := step_cases stepped
  cases did with
  | @invoked mover call ready =>
      change Prompt _ (s.pc mover) at prompt
      rw [ready] at prompt
      exact prompt.elim
  | @woke mover args ready =>
      change Prompt _ (s.pc mover) at prompt
      rw [ready] at prompt
      exact prompt.elim
  | returned ready => exact absurd rfl inside
  | @added mover msg result kept shared ready computed =>
      simp only [Action.thread, leave_pc, Function.update_self, ready]
      cases result with
      | none => exact ⟨trivial, Nat.le_succ _⟩
      | some code => exact ⟨trivial, Nat.le_refl _⟩
  | @got mover args msg shared ready computed may =>
      simp only [Action.thread, leave_pc, Function.update_self]
      refine ⟨trivial, ?_⟩
      rcases ready with ready | ready | ready
      · exact ready ▸ Nat.le_succ _
      · exact ready ▸ Nat.le_succ _
      · exact ready ▸ Nat.le_refl _
  | @slept mover args ready missing running =>
      change Prompt _ (s.pc mover) at prompt
      exfalso
      have last : s.pc mover = .expired args ∨
          (s.pc mover = .locking (.get args) ∧ args.timeoutMs = immediateTimeout) := by
        rcases ready with ready | ready | ready
        · rw [ready, running] at prompt
          exact .inr ⟨ready, prompt.resolve_right Bool.false_ne_true⟩
        · rw [ready, running] at prompt
          cases prompt
        · exact .inl ready
      obtain ⟨msg, returning⟩ := lock_finds last stepped
      rw [setPc_pc, Function.update_self] at returning
      cases returning
  | @cleared mover ready =>
      simp only [Action.thread, leave_pc, Function.update_self, ready]
      exact ⟨trivial, Nat.le_succ _⟩
  | @stopped mover ready =>
      simp only [Action.thread, notifyAll_pc, leave_pc, Function.update_self, ready]
      exact ⟨trivial, Nat.le_succ _⟩
  | @notified mover result ready =>
      simp only [Action.thread, notifyAll_pc, setPc_pc, Function.update_self, ready]
      exact ⟨trivial, Nat.le_refl _⟩
  | @timedOut mover args ready limited =>
      simp only [Action.thread, setPc_pc, Function.update_self]
      refine ⟨trivial, ?_⟩
      rcases ready with ready | ready
      · exact ready ▸ Nat.le_refl _
      · exact ready ▸ Nat.le_refl _

theorem other_prompt {s next : Threads τ ι} {action : Action τ ι} {events : List (Event τ ι)}
    {thread : τ} (prompt : Prompt s.shared.stopped (s.pc thread))
    (other : thread ≠ action.thread) (did : Did s action next events) :
    next.pc thread = s.pc thread := by
  rcases did_frame did other with same | notified
  · exact same
  · rw [notified, notified_prompt prompt]

theorem prompt_ranked (thread : τ) :
    (machine (τ := τ) (ι := ι)).Ranked (fun s => Prompt s.shared.stopped (s.pc thread))
      (fun action => action ≠ .ret thread) (fun action => decide (action.thread = thread))
      (fun s => stage (s.pc thread)) where
  kept s action next events prompt inside stepped := by
    have did := step_cases stepped
    refine prompt_mono (did_stays_stopped did) ?_
    by_cases own : action.thread = thread
    · subst own
      exact (own_prompt prompt inside stepped).1
    · rw [other_prompt prompt (Ne.symm own) did]
      exact prompt
  lowered s action next events prompt inside stepped := by
    by_cases own : action.thread = thread
    · subst own
      rw [decide_eq_true rfl, Bool.toNat_true]
      exact (own_prompt prompt inside stepped).2
    · rw [decide_eq_false own, Bool.toNat_false, Nat.zero_add,
        other_prompt prompt (Ne.symm own) (step_cases stepped)]

/-- An `add`, a `clear`, a `stop` and a `get` that does not wait return after at most
three steps of their own, and so does every call on a queue that was stopped;
whatever the other threads do, the next of these steps can be taken. -/
theorem prompt_calls_return {s last : Threads τ ι} {thread : τ}
    (prompt : Prompt s.shared.stopped (s.pc thread)) {actions : List (Action τ ι)}
    {events : List (Event τ ι)} (inside : ∀ action ∈ actions, action ≠ .ret thread)
    (ran : machine.run s actions = some (last, events)) :
    actions.countP (fun action => decide (action.thread = thread)) ≤ 2 ∧
      ∃ action, action.Inner ∧ action.thread = thread ∧ last.step action ≠ none := by
  obtain ⟨promptLast, bound⟩ := (prompt_ranked thread).run prompt inside ran
  have started : stage (s.pc thread) ≤ 3 := by
    cases s.pc thread <;> simp only [stage] <;> omega
  have unfinished : 1 ≤ stage (last.pc thread) := by
    cases atPoint : last.pc thread with
    | idle =>
        rw [atPoint] at promptLast
        exact promptLast.elim
    | locking | notifying | asleep | woken | expired | returning => simp only [stage]; omega
  refine ⟨by omega, inner_enabled rfl ?_ ?_⟩
  · intro idle
    rw [idle] at promptLast
    exact promptLast
  · intro args asleep
    rw [asleep] at promptLast
    exact promptLast

def addingOne : Threads Bool Nat :=
  (initial ⟨3, 0⟩ 1).setPc true (.locking (.add ⟨⟨8, []⟩, some 1⟩))

theorem prompt_calls_return_add :
    ∃ last, machine.run addingOne [.lock true] = some (last, [.committed true
        (.add ⟨⟨8, []⟩, some 1⟩) (.add (some 0) none)]) ∧
      ∃ action, action.Inner ∧ action.thread = true ∧ last.step action ≠ none := by
  refine ⟨_, rfl, (@prompt_calls_return _ _ _ _ addingOne _ true trivial [.lock true] _ ?_ rfl).2⟩
  rw [List.forall_mem_singleton]
  intro same
  cases same

end Threads

end LinxIpc.Queue
