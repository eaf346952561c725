import LinxIpc.Queue.Progress
import LinxIpc.Queue.Sections

/-!
The mutex of a `LinxQueue`, statement by statement.

Its holder can always take its next statement and has few of them before it; and
when nobody can move, nobody holds the mutex and all is settled.
-/

namespace LinxIpc.Queue

variable {τ ι : Type}

/-- The statements up to the unlock, this one included; `clearEvents` reads once
for every count of the descriptor. -/
def Stmt.cost (counter : Nat) : Stmt ι → Nat
  | .begin => counter + 5
  | .clearList => counter + 4
  | .drain _ _ => counter + 3
  | .push => 3
  | .write | .read _ | .notify => 2
  | .unlock _ => 1

def StmtAction.runs [DecidableEq τ] (thread : τ) : StmtAction τ ι → Bool
  | .statement mover => decide (mover = thread)
  | .acquire _ | .outside _ => false

def StmtAction.Inner : StmtAction τ ι → Prop
  | .acquire _ | .statement _ => True
  | .outside action => action.Inner

namespace Statements

def cost (s : Statements τ ι) (thread : τ) : Nat :=
  match s.point thread with
  | .inside _ stmt => stmt.cost s.shared.efd.counter
  | .outside _ => 0

theorem cost_inside {s : Statements τ ι} {thread : τ} {entered : Pc ι} {stmt : Stmt ι}
    (inside : s.point thread = .inside entered stmt) :
    s.cost thread = stmt.cost s.shared.efd.counter := by
  rw [cost, inside]

variable [DecidableEq τ]

@[simp]
theorem goto_cost (s : Statements τ ι) (shared : LinxQueue ι) (thread : τ) (entered : Pc ι)
    (stmt : Stmt ι) : (s.goto shared thread entered stmt).cost thread =
      stmt.cost shared.efd.counter :=
  cost_inside (Function.update_self ..)

theorem setOutside_cost (s : Statements τ ι) (thread : τ) (pc : Pc ι) (owner : Option τ) :
    ({ s.setOutside thread pc with owner := owner } : Statements τ ι).cost thread = 0 := by
  have outside : ({ s.setOutside thread pc with owner := owner } : Statements τ ι).point thread =
      .outside pc := Function.update_self ..
  rw [cost, outside]

variable [BEq ι]

/-! ### The holder of the mutex -/

theorem find_cost (s : Statements τ ι) (thread : τ) (entered : Pc ι) (args : Get ι) :
    (s.find thread entered args).cost thread ≤ 2 := by
  unfold find
  cases s.shared.queue.findIdx? args.matches with
  | some it => exact Nat.le_of_eq (goto_cost ..)
  | none => exact Nat.le_trans (Nat.le_of_eq (goto_cost ..)) (Nat.le_succ 1)

omit [DecidableEq τ] [BEq ι] in
theorem afterDrain_cost (counter : Nat) (entered : Pc ι) :
    (afterDrain entered).cost counter ≤ 2 := by
  unfold afterDrain
  split
  · exact Nat.le_refl _
  · exact Nat.le_succ _

theorem execute_cost {s next : Statements τ ι} {thread : τ} {entered : Pc ι} {stmt : Stmt ι}
    {emitted : List (StmtEvent τ ι)}
    (executed : s.execute thread entered stmt = some (next, emitted)) :
    1 + next.cost thread ≤ stmt.cost s.shared.efd.counter := by
  cases stmt with
  | begin =>
      simp only [execute] at executed
      simp only [Stmt.cost]
      split at executed
      case h_1 msg =>
        split at executed <;> cases executed <;> simp only [goto_cost, Stmt.cost] <;> omega
      case h_2 args | h_3 args | h_4 args =>
        cases executed
        have few := fun entered => s.find_cost thread entered args
        exact Nat.le_trans (Nat.add_le_add_left (few _) 1) (by omega)
      case h_5 | h_6 =>
        cases executed
        simp only [goto_cost, Stmt.cost]
        omega
      case h_7 => cases executed
  | push =>
      simp only [execute] at executed
      split at executed
      · split at executed <;> cases executed <;> simp only [goto_cost, Stmt.cost] <;> omega
      · cases executed
  | write =>
      simp only [execute] at executed
      cases executed
      simp only [goto_cost, Stmt.cost]
      omega
  | read msg =>
      simp only [execute] at executed
      split at executed
      case h_4 => cases executed
      all_goals
        cases executed
        simp only [goto_cost, Stmt.cost]
        omega
  | clearList =>
      simp only [execute] at executed
      cases executed
      simp only [goto_cost, Stmt.cost]
      omega
  | drain cleared reads =>
      have few := fun counter => afterDrain_cost counter entered
      simp only [execute] at executed
      split at executed
      · cases executed
        have two := few s.shared.efd.counter
        change 1 + _ ≤ s.shared.efd.counter + 3
        rw [goto_cost]
        omega
      · cases counted : s.shared.efd.counter with
        | zero =>
            simp only [LinxEventFd.kernelRead, counted] at executed
            cases executed
            rw [goto_cost]
            exact Nat.add_le_add_left (few _) 1
        | succ counter =>
            simp only [LinxEventFd.kernelRead, counted, if_true] at executed
            cases executed
            simp only [goto_cost, Stmt.cost]
            omega
  | notify =>
      simp only [execute] at executed
      cases executed
      simp only [goto_cost, Stmt.cost]
      omega
  | unlock pc =>
      simp only [execute] at executed
      cases executed
      rw [setOutside_cost, Stmt.cost]

theorem execute_enabled {s : Statements τ ι} {before : LinxQueue ι} (thread : τ) {entered : Pc ι}
    {stmt : Stmt ι} (partway : Partway before entered s.shared stmt) :
    s.execute thread entered stmt ≠ none := by
  generalize s.shared = shared at partway
  cases partway with
  | begin locks =>
      cases entered with
      | locking call =>
          cases call with
          | add msg =>
              simp only [execute]
              split <;> exact Option.some_ne_none _
          | get | clear | stop => exact Option.some_ne_none _
      | woken | expired => exact Option.some_ne_none _
      | idle | notifying | asleep | returning => cases locks
  | push ready room =>
      subst ready
      simp only [execute]
      split <;> exact Option.some_ne_none _
  | read ready found => rcases ready with rfl | rfl | rfl <;> exact Option.some_ne_none _
  | write | clearList | notify | unlock => exact Option.some_ne_none _
  | drain =>
      simp only [execute]
      split
      · exact Option.some_ne_none _
      · split <;> exact Option.some_ne_none _

omit [DecidableEq τ] in
theorem Follows.cost_free {s : Statements τ ι} {t : Threads τ ι} (follows : Follows s t)
    {thread : τ} (free : s.owner ≠ some thread) : s.cost thread = 0 := by
  rw [cost, follows.others thread free]

theorem Follows.owner_step {s next : Statements τ ι} {t : Threads τ ι} (follows : Follows s t)
    {thread : τ} {action : StmtAction τ ι} {emitted : List (StmtEvent τ ι)}
    (apart : action ≠ .acquire thread) (stepped : s.step action = some (next, emitted)) :
    (next.owner = some thread → s.owner = some thread) ∧
      (s.owner = some thread → action ≠ .statement thread → next.cost thread = s.cost thread) := by
  cases action with
  | acquire mover =>
      have different : mover ≠ thread := fun same => apart (congrArg _ same)
      simp only [step] at stepped
      split at stepped
      · rename_i pc free atPoint
        split at stepped
        · cases stepped
          refine ⟨fun owned => absurd (Option.some.inj owned) different, fun owned => ?_⟩
          rw [free] at owned
          cases owned
        · cases stepped
      · cases stepped
  | statement mover =>
      simp only [step] at stepped
      split at stepped
      · rename_i entered stmt inside
        obtain ⟨owned, -, partway⟩ := follows.owner_inside inside
        constructor
        · intro ownedNext
          rcases execute_advanced partway stepped with ⟨pc, rfl⟩ | ⟨-, later, advanced⟩
          · cases stepped
            cases ownedNext
          · exact advanced.owner.symm.trans ownedNext
        · intro ownedThread other
          rw [owned] at ownedThread
          exact absurd (congrArg _ (Option.some.inj ownedThread)) other
      · cases stepped
  | outside action =>
      have moved := stepOutside_cases stepped
      have keeps : ∀ mover old pc, s.point mover = .outside old → s.owner = some thread →
          (s.setOutside mover pc).point thread = s.point thread := by
        intro mover old pc outside owned
        obtain ⟨stmt, inside, -⟩ := follows.held thread owned
        refine setOutside_others s ?_ pc
        rintro rfl
        rw [outside] at inside
        cases inside
      cases moved with
      | call outside | spurious outside | timeout outside | ret outside =>
          refine ⟨id, fun owned _ => ?_⟩
          simp only [cost, keeps _ _ _ outside owned]
          rfl
      | @notify mover result outside =>
          refine ⟨id, fun owned _ => ?_⟩
          obtain ⟨stmt, inside, -⟩ := follows.held thread owned
          have heard : (s.setOutside mover (.returning result)).notifyAll.point thread =
              .inside (t.pc thread) stmt := by
            change ((s.setOutside mover (.returning result)).point thread).notified = _
            rw [keeps mover _ _ outside owned, inside]
            rfl
          rw [cost_inside heard, cost_inside inside]
          rfl

theorem cost_ranked (efd : LinxEventFd) (size : Int32) (thread : τ) :
    (machine (τ := τ) (ι := ι)).Ranked (machine.Reachable (initial efd size))
      (fun action => action ≠ .acquire thread) (StmtAction.runs thread)
      (fun s => s.cost thread) where
  kept _ _ _ _ reached _ stepped := reached.step stepped
  lowered s action next emitted reached apart stepped := by
    obtain ⟨actions, events, ran⟩ := reached
    obtain ⟨_, t, -, follows⟩ := run_sections ran
    obtain ⟨_, after, -, followsNext⟩ := step_answer follows stepped
    obtain ⟨kept, same⟩ := follows.owner_step apart stepped
    by_cases own : action = .statement thread
    · subst own
      have runs : StmtAction.runs thread (.statement thread : StmtAction τ ι) = true :=
        decide_eq_true rfl
      rw [runs, Bool.toNat_true]
      simp only [machine, step] at stepped
      split at stepped
      · rename_i entered stmt inside
        rw [cost_inside inside]
        exact execute_cost stepped
      · cases stepped
    · have others : StmtAction.runs thread action = false := by
        cases action with
        | statement mover => exact decide_eq_false fun same => own (congrArg _ same)
        | acquire | outside => rfl
      rw [others, Bool.toNat_false, Nat.zero_add]
      by_cases owned : s.owner = some thread
      · exact Nat.le_of_eq (same owned own)
      · rw [followsNext.cost_free (fun ownedNext => owned (kept ownedNext))]
        exact Nat.zero_le _

/-! ### Nobody is stuck -/

theorem Follows.enabled {s : Statements τ ι} {t : Threads τ ι} (follows : Follows s t)
    (free : s.owner = none) {action : Action τ ι} (inner : action.Inner)
    (enabled : t.step action ≠ none) :
    ∃ mapped : StmtAction τ ι, mapped.Inner ∧ s.step mapped ≠ none := by
  have seen : ∀ thread, s.point thread = .outside (t.pc thread) := by
    intro thread
    rw [follows.others thread (by simp [free]), announced_free free]
    rfl
  cases action with
  | call | spurious => exact inner.elim
  | lock thread =>
      have locks : (t.pc thread).locks = true := by
        cases atPoint : t.pc thread with
        | locking | woken | expired => rfl
        | idle | notifying | asleep | returning =>
            simp only [Threads.step, Threads.lockSection, atPoint, ne_eq,
              not_true_eq_false] at enabled
      refine ⟨.acquire thread, trivial, ?_⟩
      simp only [step, free, seen thread, if_pos locks]
      exact Option.some_ne_none _
  | notify thread =>
      refine ⟨.outside (.notify thread), trivial, ?_⟩
      simp only [step, stepOutside, seen thread]
      simp only [Threads.step] at enabled
      split at enabled
      · rename_i atPoint
        simp only [atPoint]
        exact Option.some_ne_none _
      · exact absurd rfl enabled
  | timeout thread =>
      refine ⟨.outside (.timeout thread), trivial, ?_⟩
      simp only [step, stepOutside, seen thread]
      simp only [Threads.step] at enabled
      split at enabled
      · rename_i atPoint
        split at enabled
        · exact absurd rfl enabled
        · rename_i limited
          simp only [atPoint, if_neg limited]
          exact Option.some_ne_none _
      · rename_i atPoint
        split at enabled
        · exact absurd rfl enabled
        · rename_i limited
          simp only [atPoint, if_neg limited]
          exact Option.some_ne_none _
      · exact absurd rfl enabled
  | ret thread =>
      refine ⟨.outside (.ret thread), trivial, ?_⟩
      simp only [step, stepOutside, seen thread]
      simp only [Threads.step] at enabled
      split at enabled
      · rename_i atPoint
        simp only [atPoint]
        exact Option.some_ne_none _
      · exact absurd rfl enabled

/-- The mutex is free, and every call has returned but for waits without a limit
for messages that are not there. -/
structure Resting (s : Statements τ ι) : Prop where
  free : s.owner = none
  waits : ∀ thread, s.point thread = .outside .idle ∨
    ∃ args, s.point thread = .outside (.asleep args) ∧ args.timeoutMs = infiniteTimeout ∧
      s.shared.stopped = false ∧ ∀ msg ∈ s.shared.queue, args.matches msg = false

theorem Follows.resting {s : Statements τ ι} {t : Threads τ ι} (follows : Follows s t)
    (wakeup : t.WakeupInvariant) (blocked : Machine.Blocked machine StmtAction.Inner s) :
    Resting s := by
  have free : s.owner = none := by
    cases owned : s.owner with
    | none => rfl
    | some owner =>
        obtain ⟨stmt, inside, partway⟩ := follows.held owner owned
        have still := blocked (.statement owner) trivial
        simp only [machine, step, inside] at still
        exact absurd still (execute_enabled owner partway)
  have settled : t.Settled := by
    refine Threads.blocked_settled wakeup ?_
    intro action inner
    by_contra enabled
    obtain ⟨mapped, mappedInner, moves⟩ := follows.enabled free inner enabled
    exact moves (blocked mapped mappedInner)
  refine ⟨free, fun thread => ?_⟩
  rw [follows.others thread (by simp [free]), announced_free free, follows.free free]
  rcases settled thread with idle | ⟨args, asleep, waits⟩
  · exact .inl (congrArg Point.outside idle)
  · exact .inr ⟨args, congrArg Point.outside asleep, waits⟩

/-- Whoever holds the mutex can go on, and unlocks it after so many statements;
where no thread can go on, nobody holds it and nobody waits in vain. -/
theorem mutex_given_back {efd : LinxEventFd} {size : Int32} {s : Statements τ ι}
    (reached : machine.Reachable (initial efd size) s) :
    (∀ thread actions last emitted, (∀ action ∈ actions, action ≠ .acquire thread) →
      machine.run s actions = some (last, emitted) → last.owner = some thread →
      actions.countP (StmtAction.runs thread) ≤ s.shared.efd.counter + 4 ∧
        last.step (.statement thread) ≠ none) ∧
    (Machine.Blocked machine StmtAction.Inner s → Resting s) := by
  constructor
  · intro thread actions last emitted apart ran owned
    obtain ⟨reachedLast, bound⟩ := (cost_ranked efd size thread).run reached apart ran
    obtain ⟨_, _, ranLast⟩ := reachedLast
    obtain ⟨_, t, -, follows⟩ := run_sections ranLast
    obtain ⟨stmt, inside, partway⟩ := follows.held thread owned
    have most : s.cost thread ≤ s.shared.efd.counter + 5 := by
      rw [cost]
      cases s.point thread with
      | outside pc => exact Nat.zero_le _
      | inside entered stmt => cases stmt <;> simp only [Stmt.cost] <;> omega
    have unfinished : 1 ≤ last.cost thread := by
      rw [cost_inside inside]
      cases stmt <;> simp only [Stmt.cost] <;> omega
    refine ⟨by omega, ?_⟩
    simp only [step, inside]
    exact execute_enabled thread partway
  · intro blocked
    obtain ⟨actions, events, ran⟩ := reached
    obtain ⟨locked, t, ranLocked, follows⟩ := run_sections ran
    exact follows.resting (Threads.wakeup_reachable ⟨locked, _, ranLocked⟩) blocked

theorem mutex_given_back_by_stop :
    ∃ s last : Statements Bool Nat, last.owner = some true ∧
      machine.run s [.statement true, .statement true] = some (last, []) ∧
      [StmtAction.statement true, .statement true].countP
          (StmtAction.runs (ι := Nat) true) ≤ s.shared.efd.counter + 4 ∧
      last.step (.statement true) ≠ none := by
  refine ⟨_, _, rfl, rfl, (@mutex_given_back _ _ _ _ ⟨3, 0⟩ 1 _
    ⟨[.outside (.call true .stop), .acquire true], _, rfl⟩).1 true _ _ _ ?_ rfl rfl⟩
  intro action member
  rcases List.mem_cons.mp member with rfl | member
  · intro same
    cases same
  · rw [List.mem_singleton.mp member]
    intro same
    cases same

end Statements

end LinxIpc.Queue
