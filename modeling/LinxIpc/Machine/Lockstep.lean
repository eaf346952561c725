import LinxIpc.Machine.Run

/-!
Two machines side by side: from related states the same action has the same
events.  Then the same actions run on both, and nobody who sees only the events
can tell the two apart.
-/

namespace Machine

variable {σ₁ σ₂ α ε : Type}

/-- From related states, every step of the one is a step of the other. -/
structure Lockstep (left : Machine σ₁ α ε) (right : Machine σ₂ α ε)
    (related : σ₁ → σ₂ → Prop) : Prop where
  forth : ∀ state other action next emitted, related state other →
    left.step state action = some (next, emitted) →
    ∃ otherNext, right.step other action = some (otherNext, emitted) ∧ related next otherNext
  back : ∀ state other action otherNext emitted, related state other →
    right.step other action = some (otherNext, emitted) →
    ∃ next, left.step state action = some (next, emitted) ∧ related next otherNext

variable {left : Machine σ₁ α ε} {right : Machine σ₂ α ε} {related : σ₁ → σ₂ → Prop}

theorem Lockstep.symm (lockstep : Lockstep left right related) :
    Lockstep right left (fun other state => related state other) where
  forth other state action otherNext emitted := lockstep.back state other action otherNext emitted
  back other state action next emitted := lockstep.forth state other action next emitted

theorem Lockstep.run (lockstep : Lockstep left right related) {state last : σ₁} {other : σ₂}
    {actions : List α} {events : List ε} (start : related state other)
    (ran : left.run state actions = some (last, events)) :
    ∃ otherLast, right.run other actions = some (otherLast, events) ∧ related last otherLast := by
  induction actions generalizing state other events with
  | nil =>
      simp only [Machine.run, Option.some.injEq, Prod.mk.injEq] at ran
      obtain ⟨rfl, rfl⟩ := ran
      exact ⟨other, rfl, start⟩
  | cons action rest ih =>
      obtain ⟨next, emitted, later, stepped, followed, rfl⟩ := left.run_cons_inv ran
      obtain ⟨otherNext, otherStepped, here⟩ := lockstep.forth _ _ _ _ _ start stepped
      obtain ⟨otherLast, otherRan, there⟩ := ih here followed
      exact ⟨otherLast, right.run_cons_some otherStepped otherRan, there⟩

theorem Lockstep.run_events (lockstep : Lockstep left right related) {state : σ₁} {other : σ₂}
    (start : related state other) (actions : List α) :
    (left.run state actions).map Prod.snd = (right.run other actions).map Prod.snd := by
  cases ran : left.run state actions with
  | some result =>
      obtain ⟨otherLast, otherRan, -⟩ := lockstep.run start ran
      rw [otherRan]
      rfl
  | none =>
      cases otherRan : right.run other actions with
      | none => rfl
      | some result =>
          obtain ⟨last, leftRan, -⟩ := lockstep.symm.run start otherRan
          rw [ran] at leftRan
          cases leftRan

end Machine
