import LinxIpc.Machine.Run
import Mathlib.Algebra.Group.Action.Defs
import Mathlib.Algebra.GroupWithZero.Nat
import Mathlib.Algebra.Order.BigOperators.Group.Finset

/-!
Progress of partial machines.

A rank that counted steps lower and no other allowed step raises bounds the
counted steps of every run, also where some steps feed it.  Where all allowed steps
are counted, every run of them ends in a state that allows no more.
-/

namespace Machine

variable {σ α ε : Type}

theorem Reachable.run {machine : Machine σ α ε} {start state last : σ} {actions : List α}
    {events : List ε} (reached : machine.Reachable start state)
    (ran : machine.run state actions = some (last, events)) : machine.Reachable start last := by
  obtain ⟨earlier, before, ranEarlier⟩ := reached
  exact ⟨earlier ++ actions, before ++ events, machine.run_append ranEarlier ran⟩

theorem Reachable.step {machine : Machine σ α ε} {start state next : σ} {action : α}
    {emitted : List ε} (reached : machine.Reachable start state)
    (stepped : machine.step state action = some (next, emitted)) :
    machine.Reachable start next :=
  reached.run (machine.run_single stepped)

/-- The allowed steps keep `holds`; among them the counted ones lower the rank, and
the others raise it by no more than they feed. -/
structure Fed (machine : Machine σ α ε) (holds : σ → Prop) (allowed : α → Prop)
    (counted : α → Bool) (feeds : α → Nat) (rank : σ → Nat) : Prop where
  kept : ∀ state action next emitted, holds state → allowed action →
    machine.step state action = some (next, emitted) → holds next
  lowered : ∀ state action next emitted, holds state → allowed action →
    machine.step state action = some (next, emitted) →
    (counted action).toNat + rank next ≤ rank state + feeds action

theorem countP_cons_toNat (marked : α → Bool) (action : α) (rest : List α) :
    (action :: rest).countP marked = rest.countP marked + (marked action).toNat := by
  rw [List.countP_cons]
  cases marked action with
  | false => rfl
  | true => rfl

theorem Fed.run {machine : Machine σ α ε} {holds : σ → Prop} {allowed : α → Prop}
    {counted : α → Bool} {feeds : α → Nat} {rank : σ → Nat}
    (fed : Fed machine holds allowed counted feeds rank) {start last : σ}
    {actions : List α} {events : List ε} (initially : holds start)
    (within : ∀ action ∈ actions, allowed action)
    (ran : machine.run start actions = some (last, events)) :
    holds last ∧ actions.countP counted + rank last ≤ rank start + (actions.map feeds).sum := by
  induction actions generalizing start events with
  | nil =>
      simp only [Machine.run, Option.some.injEq, Prod.mk.injEq] at ran
      obtain ⟨rfl, -⟩ := ran
      refine ⟨initially, ?_⟩
      rw [List.countP_nil, List.map_nil, List.sum_nil, Nat.zero_add, Nat.add_zero]
  | cons action rest ih =>
      obtain ⟨next, emitted, later, stepped, followed, -⟩ := machine.run_cons_inv ran
      rw [List.forall_mem_cons] at within
      have held := fed.kept _ _ _ _ initially within.1 stepped
      have lower := fed.lowered _ _ _ _ initially within.1 stepped
      obtain ⟨heldLast, bound⟩ := ih held within.2 followed
      refine ⟨heldLast, ?_⟩
      rw [countP_cons_toNat, List.map_cons, List.sum_cons]
      omega

theorem sum_portions (marked : α → Bool) (portion : Nat) (actions : List α) :
    (actions.map fun action => (marked action).toNat * portion).sum =
      actions.countP marked * portion := by
  induction actions with
  | nil => rw [List.map_nil, List.sum_nil, List.countP_nil, Nat.zero_mul]
  | cons action rest ih =>
      rw [List.map_cons, List.sum_cons, ih, countP_cons_toNat, Nat.add_mul, Nat.add_comm]

theorem sum_marked (marked : α → Bool) (actions : List α) :
    (actions.map fun action => (marked action).toNat).sum = actions.countP marked := by
  have portions := sum_portions marked 1 actions
  simp only [Nat.mul_one] at portions
  exact portions

/-- The allowed steps keep `holds`; among them the counted ones lower the rank,
and the others do not raise it. -/
structure Ranked (machine : Machine σ α ε) (holds : σ → Prop) (allowed : α → Prop)
    (counted : α → Bool) (rank : σ → Nat) : Prop where
  kept : ∀ state action next emitted, holds state → allowed action →
    machine.step state action = some (next, emitted) → holds next
  lowered : ∀ state action next emitted, holds state → allowed action →
    machine.step state action = some (next, emitted) →
    (counted action).toNat + rank next ≤ rank state

section Ranked

variable {machine : Machine σ α ε} {holds : σ → Prop} {allowed : α → Prop} {counted : α → Bool}
  {rank : σ → Nat}

theorem Ranked.run (ranked : Ranked machine holds allowed counted rank) {start last : σ}
    {actions : List α} {events : List ε} (initially : holds start)
    (within : ∀ action ∈ actions, allowed action)
    (ran : machine.run start actions = some (last, events)) :
    holds last ∧ actions.countP counted + rank last ≤ rank start := by
  have fed : Fed machine holds allowed counted (fun _ => 0) rank :=
    ⟨ranked.kept, ranked.lowered⟩
  obtain ⟨held, bound⟩ := fed.run initially within ran
  rw [List.map_const', List.sum_replicate, smul_eq_mul, Nat.mul_zero, Nat.add_zero] at bound
  exact ⟨held, bound⟩

def Blocked (machine : Machine σ α ε) (allowed : α → Prop) (state : σ) : Prop :=
  ∀ action, allowed action → machine.step state action = none

/-- Where every allowed step counts, some run of them cannot be continued. -/
theorem Ranked.completes (ranked : Ranked machine holds allowed counted rank)
    (counts : ∀ action, allowed action → counted action = true) {start : σ}
    (initially : holds start) :
    ∃ actions last events, (∀ action ∈ actions, allowed action) ∧
      machine.run start actions = some (last, events) ∧ holds last ∧
      Blocked machine allowed last := by
  generalize bound : rank start = height
  induction height using Nat.strongRecOn generalizing start with
  | ind height ih =>
      by_cases blocked : Blocked machine allowed start
      · exact ⟨[], start, [], List.forall_mem_nil _, rfl, initially, blocked⟩
      · obtain ⟨action, enabled⟩ := not_forall.mp blocked
        obtain ⟨permitted, moves⟩ := Classical.not_imp.mp enabled
        obtain ⟨⟨next, emitted⟩, stepped⟩ := Option.ne_none_iff_exists'.mp moves
        have lower := ranked.lowered _ _ _ _ initially permitted stepped
        rw [counts action permitted, Bool.toNat_true] at lower
        obtain ⟨rest, last, later, within, ran, held, ended⟩ := ih (rank next) (by omega)
          (ranked.kept _ _ _ _ initially permitted stepped) rfl
        exact ⟨action :: rest, last, emitted ++ later,
          List.forall_mem_cons.mpr ⟨permitted, within⟩, machine.run_cons_some stepped ran, held,
          ended⟩

end Ranked

/-! ### Some of the steps -/

def restrict (machine : Machine σ α ε) (allowed : σ → α → Bool) : Machine σ α ε where
  step state action := if allowed state action then machine.step state action else none

section restrict

variable {machine : Machine σ α ε} {allowed : σ → α → Bool}

theorem restrict_step {state next : σ} {action : α} {emitted : List ε} :
    (machine.restrict allowed).step state action = some (next, emitted) ↔
      allowed state action = true ∧ machine.step state action = some (next, emitted) :=
  Option.ite_none_right_eq_some

theorem restrict_enabled {state : σ} {action : α} (permitted : allowed state action = true)
    (enabled : machine.step state action ≠ none) :
    (machine.restrict allowed).step state action ≠ none := by
  simp only [restrict, permitted, if_true]
  exact enabled

theorem restrict_run {start last : σ} {actions : List α} {events : List ε}
    (ran : (machine.restrict allowed).run start actions = some (last, events)) :
    machine.run start actions = some (last, events) := by
  induction actions generalizing start events with
  | nil => exact ran
  | cons action rest ih =>
      obtain ⟨next, emitted, later, stepped, followed, rfl⟩ :=
        (machine.restrict allowed).run_cons_inv ran
      exact machine.run_cons_some (restrict_step.mp stepped).2 (ih followed)

theorem restrict_within {property : α → Prop}
    (implied : ∀ state action, allowed state action = true → property action) {start last : σ}
    {actions : List α} {events : List ε}
    (ran : (machine.restrict allowed).run start actions = some (last, events)) :
    ∀ action ∈ actions, property action := by
  induction actions generalizing start events with
  | nil => exact List.forall_mem_nil _
  | cons action rest ih =>
      obtain ⟨next, emitted, later, stepped, followed, -⟩ :=
        (machine.restrict allowed).run_cons_inv ran
      exact List.forall_mem_cons.mpr ⟨implied _ _ (restrict_step.mp stepped).1, ih followed⟩

end restrict

theorem sum_rank_lt {τ : Type} [Fintype τ] [DecidableEq τ] {before after : τ → Nat} {mover : τ}
    {raise : Nat} (own : after mover + (Fintype.card τ - 1) * raise < before mover)
    (others : ∀ party, party ≠ mover → after party ≤ before party + raise) :
    ∑ party, after party < ∑ party, before party := by
  have elsewhere : ∑ party ∈ Finset.univ.erase mover, after party ≤
      ∑ party ∈ Finset.univ.erase mover, (before party + raise) :=
    Finset.sum_le_sum fun party member => others party (Finset.ne_of_mem_erase member)
  rw [Finset.sum_add_distrib, Finset.sum_const, Finset.card_erase_of_mem (Finset.mem_univ mover),
    Finset.card_univ, smul_eq_mul] at elsewhere
  rw [← Finset.add_sum_erase _ after (Finset.mem_univ mover),
    ← Finset.add_sum_erase _ before (Finset.mem_univ mover)]
  omega

theorem sum_update {τ β : Type} [Fintype τ] [DecidableEq τ] (values : τ → β) (weight : β → Nat)
    (party : τ) (value : β) :
    ∑ other, weight (Function.update values party value other) + weight (values party) =
      ∑ other, weight (values other) + weight value := by
  have elsewhere : ∑ other ∈ Finset.univ.erase party,
        weight (Function.update values party value other) =
      ∑ other ∈ Finset.univ.erase party, weight (values other) := by
    refine Finset.sum_congr rfl ?_
    intro other member
    rw [Function.update_of_ne (Finset.ne_of_mem_erase member)]
  rw [← Finset.add_sum_erase _ _ (Finset.mem_univ party), elsewhere, Function.update_self,
    ← Finset.add_sum_erase _ (fun other => weight (values other)) (Finset.mem_univ party)]
  omega

end Machine
