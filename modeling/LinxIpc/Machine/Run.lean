import Mathlib.Data.List.Induction

/-!
Partial machines whose steps emit events, their finite runs, and the two rules
by which a property of one step becomes a property of every run: an invariant
over the history of a run, and a forward simulation between two machines.

An action names everything the environment chooses, so a machine is a partial
function and a run is determined by its start and its list of actions.
-/

/-- One step reads an action and either is not enabled or yields the next state
with the events it emits. -/
structure Machine (σ α ε : Type) where
  step : σ → α → Option (σ × List ε)

namespace Machine

variable {σ α ε : Type}

def run (machine : Machine σ α ε) : σ → List α → Option (σ × List ε)
  | state, [] => some (state, [])
  | state, action :: rest =>
      match machine.step state action with
      | none => none
      | some (next, emitted) =>
          match machine.run next rest with
          | none => none
          | some (last, later) => some (last, emitted ++ later)

theorem run_cons_some (machine : Machine σ α ε) {state next last : σ}
    {action : α} {rest : List α} {emitted later : List ε}
    (stepped : machine.step state action = some (next, emitted))
    (ran : machine.run next rest = some (last, later)) :
    machine.run state (action :: rest) = some (last, emitted ++ later) := by
  simp only [run, stepped, ran]

theorem run_cons_inv (machine : Machine σ α ε) {state last : σ}
    {action : α} {rest : List α} {events : List ε}
    (ran : machine.run state (action :: rest) = some (last, events)) :
    ∃ next emitted later,
      machine.step state action = some (next, emitted) ∧
      machine.run next rest = some (last, later) ∧ events = emitted ++ later := by
  cases stepped : machine.step state action with
  | none => simp only [run, stepped, reduceCtorEq] at ran
  | some first =>
      obtain ⟨next, emitted⟩ := first
      cases followed : machine.run next rest with
      | none => simp only [run, stepped, followed, reduceCtorEq] at ran
      | some final =>
          obtain ⟨finish, later⟩ := final
          simp only [run, stepped, followed, Option.some.injEq, Prod.mk.injEq] at ran
          obtain ⟨rfl, rfl⟩ := ran
          exact ⟨next, emitted, later, rfl, followed, rfl⟩

theorem run_append (machine : Machine σ α ε) {state middle last : σ}
    {front back : List α} {before after : List ε}
    (ranFront : machine.run state front = some (middle, before))
    (ranBack : machine.run middle back = some (last, after)) :
    machine.run state (front ++ back) = some (last, before ++ after) := by
  induction front generalizing state before with
  | nil =>
      simp only [run, Option.some.injEq, Prod.mk.injEq] at ranFront
      obtain ⟨rfl, rfl⟩ := ranFront
      exact ranBack
  | cons action rest ih =>
      obtain ⟨next, emitted, later, stepped, followed, rfl⟩ :=
        machine.run_cons_inv ranFront
      rw [List.append_assoc]
      exact machine.run_cons_some stepped (ih followed)

theorem run_append_inv (machine : Machine σ α ε) {state last : σ}
    {front back : List α} {events : List ε}
    (ran : machine.run state (front ++ back) = some (last, events)) :
    ∃ middle before after,
      machine.run state front = some (middle, before) ∧
      machine.run middle back = some (last, after) ∧ events = before ++ after := by
  induction front generalizing state events with
  | nil => exact ⟨state, [], events, rfl, ran, rfl⟩
  | cons action rest ih =>
      obtain ⟨next, emitted, later, stepped, followed, rfl⟩ :=
        machine.run_cons_inv ran
      obtain ⟨middle, before, after, ranFront, ranBack, rfl⟩ := ih followed
      exact ⟨middle, emitted ++ before, after,
        machine.run_cons_some stepped ranFront, ranBack,
        (List.append_assoc emitted before after).symm⟩

theorem run_single (machine : Machine σ α ε) {state next : σ} {action : α}
    {emitted : List ε} (stepped : machine.step state action = some (next, emitted)) :
    machine.run state [action] = some (next, emitted) := by
  simp only [run, stepped, List.append_nil]

theorem run_single_inv (machine : Machine σ α ε) {state next : σ} {action : α}
    {emitted : List ε} (ran : machine.run state [action] = some (next, emitted)) :
    machine.step state action = some (next, emitted) := by
  obtain ⟨middle, first, later, stepped, followed, rfl⟩ := machine.run_cons_inv ran
  simp only [run, Option.some.injEq, Prod.mk.injEq] at followed
  obtain ⟨rfl, rfl⟩ := followed
  rw [List.append_nil]
  exact stepped

/-- What holds of the empty history and is carried over one more allowed step
holds of every run of allowed actions.  The step case may use that the history so
far is a run. -/
theorem run_invariant_within (machine : Machine σ α ε) {start : σ} {allowed : α → Prop}
    {motive : List α → List ε → σ → Prop}
    (initially : motive [] [] start)
    (preserved : ∀ actions events state action next emitted,
      machine.run start actions = some (state, events) →
      motive actions events state → allowed action →
      machine.step state action = some (next, emitted) →
      motive (actions ++ [action]) (events ++ emitted) next)
    {actions : List α} {events : List ε} {state : σ}
    (within : ∀ action ∈ actions, allowed action)
    (ran : machine.run start actions = some (state, events)) :
    motive actions events state := by
  induction actions using List.reverseRecOn generalizing events state with
  | nil =>
      simp only [run, Option.some.injEq, Prod.mk.injEq] at ran
      obtain ⟨rfl, rfl⟩ := ran
      exact initially
  | append_singleton earlier action ih =>
      obtain ⟨middle, before, after, ranEarlier, ranLast, rfl⟩ :=
        machine.run_append_inv ran
      rw [List.forall_mem_append, List.forall_mem_singleton] at within
      exact preserved _ _ _ _ _ _ ranEarlier (ih within.1 ranEarlier) within.2
        (machine.run_single_inv ranLast)

theorem run_invariant (machine : Machine σ α ε) {start : σ}
    {motive : List α → List ε → σ → Prop}
    (initially : motive [] [] start)
    (preserved : ∀ actions events state action next emitted,
      machine.run start actions = some (state, events) →
      motive actions events state →
      machine.step state action = some (next, emitted) →
      motive (actions ++ [action]) (events ++ emitted) next)
    {actions : List α} {events : List ε} {state : σ}
    (ran : machine.run start actions = some (state, events)) :
    motive actions events state :=
  machine.run_invariant_within initially
    (fun _ _ _ _ _ _ ranSoFar held _ stepped => preserved _ _ _ _ _ _ ranSoFar held stepped)
    (fun _ _ => trivial) ran

def Causal (accounts : List ε → ε → Prop) (events : List ε) : Prop :=
  ∀ front event back, events = front ++ event :: back → accounts front event

theorem Causal.append {accounts : List ε → ε → Prop} {events emitted : List ε}
    (causal : Causal accounts events)
    (grows : ∀ front back event, accounts front event → accounts (front ++ back) event)
    (later : ∀ event ∈ emitted, accounts events event) : Causal accounts (events ++ emitted) := by
  intro front event back split
  rcases List.append_eq_append_iff.mp split with ⟨between, rfl, rfl⟩ | ⟨between, rfl, same⟩
  · exact grows events between event
      (later event (List.mem_append_right _ List.mem_cons_self))
  · cases between with
    | nil =>
        rw [List.nil_append] at same
        rw [List.append_nil] at later
        exact later event (same ▸ List.mem_cons_self)
    | cons first rest =>
        obtain ⟨rfl, -⟩ := List.cons.inj same
        exact causal front event rest rfl

def Reachable (machine : Machine σ α ε) (start state : σ) : Prop :=
  ∃ actions events, machine.run start actions = some (state, events)

theorem Reachable.refl (machine : Machine σ α ε) (start : σ) :
    machine.Reachable start start :=
  ⟨[], [], rfl⟩

theorem Reachable.invariant {machine : Machine σ α ε} {start state : σ}
    {motive : σ → Prop} (initially : motive start)
    (preserved : ∀ state action next emitted, motive state →
      machine.step state action = some (next, emitted) → motive next)
    (reached : machine.Reachable start state) : motive state := by
  obtain ⟨actions, events, ran⟩ := reached
  exact machine.run_invariant (motive := fun _ _ current => motive current) initially
    (fun _ _ current action next emitted _ held stepped =>
      preserved current action next emitted held stepped) ran

def Along (machine : Machine σ α ε) (meets : σ → α → Prop) : σ → List α → Prop
  | _, [] => True
  | state, action :: rest =>
      meets state action ∧
        ∀ next emitted, machine.step state action = some (next, emitted) →
          machine.Along meets next rest

theorem Along.cons {machine : Machine σ α ε} {meets : σ → α → Prop} {state next : σ}
    {action : α} {rest : List α} {emitted : List ε} (met : meets state action)
    (stepped : machine.step state action = some (next, emitted))
    (along : machine.Along meets next rest) : machine.Along meets state (action :: rest) := by
  refine ⟨met, ?_⟩
  intro other otherEmitted steppedOther
  rw [stepped] at steppedOther
  obtain ⟨rfl, rfl⟩ := Prod.mk.inj (Option.some.inj steppedOther)
  exact along

theorem Along.reached {machine : Machine σ α ε} {meets : σ → α → Prop} {start middle : σ}
    {front back : List α} {action : α} {events : List ε}
    (along : machine.Along meets start (front ++ action :: back))
    (ran : machine.run start front = some (middle, events)) : meets middle action := by
  induction front generalizing start events with
  | nil =>
      simp only [run, Option.some.injEq, Prod.mk.injEq] at ran
      obtain ⟨rfl, rfl⟩ := ran
      exact along.1
  | cons first rest ih =>
      obtain ⟨next, emitted, later, stepped, followed, rfl⟩ := machine.run_cons_inv ran
      exact ih (along.2 next emitted stepped) followed

theorem Along.invariant {machine : Machine σ α ε} {meets : σ → α → Prop} {motive : σ → Prop}
    (preserved : ∀ state action next emitted, motive state → meets state action →
      machine.step state action = some (next, emitted) → motive next)
    {start state : σ} {actions : List α} {events : List ε} (initially : motive start)
    (along : machine.Along meets start actions)
    (ran : machine.run start actions = some (state, events)) : motive state := by
  induction actions generalizing start events with
  | nil =>
      simp only [run, Option.some.injEq, Prod.mk.injEq] at ran
      obtain ⟨rfl, rfl⟩ := ran
      exact initially
  | cons action rest ih =>
      obtain ⟨next, emitted, later, stepped, followed, rfl⟩ := machine.run_cons_inv ran
      obtain ⟨met, others⟩ := along
      exact ih (preserved start action next emitted initially met stepped)
        (others next emitted stepped) followed

/-- Where an event is good exactly when its step meets the condition, the events
of a run are all good exactly when all its steps meet it. -/
theorem good_iff_along (machine : Machine σ α ε) {good : ε → Prop} {holds : σ → Prop}
    {allowed : α → Prop} {meets : σ → α → Prop}
    (preserved : ∀ state action next emitted, holds state → allowed action →
      machine.step state action = some (next, emitted) →
      holds next ∧ ((∀ event ∈ emitted, good event) ↔ meets state action))
    {start state : σ} {actions : List α} {events : List ε} (initially : holds start)
    (within : ∀ action ∈ actions, allowed action)
    (ran : machine.run start actions = some (state, events)) :
    (∀ event ∈ events, good event) ↔ machine.Along meets start actions := by
  induction actions generalizing start events with
  | nil =>
      simp only [run, Option.some.injEq, Prod.mk.injEq] at ran
      obtain ⟨rfl, rfl⟩ := ran
      exact ⟨fun _ => trivial, fun _ => nofun⟩
  | cons action rest ih =>
      obtain ⟨next, emitted, later, stepped, followed, rfl⟩ := machine.run_cons_inv ran
      obtain ⟨held, here⟩ := preserved start action next emitted initially
        (within action List.mem_cons_self) stepped
      have there := ih held (fun other member => within other (List.mem_cons_of_mem action member))
        followed
      rw [List.forall_mem_append, here, there]
      constructor
      · rintro ⟨met, along⟩
        exact .cons met stepped along
      · rintro ⟨met, along⟩
        exact ⟨met, along next emitted stepped⟩

/-- Forward simulation: every step of `low` is answered by a run of `high` that
emits the same visible events and restores the relation. -/
structure Simulation {σ₁ σ₂ α₁ α₂ ε₁ ε₂ : Type} (low : Machine σ₁ α₁ ε₁)
    (high : Machine σ₂ α₂ ε₂) (visible : List ε₁ → List ε₂) where
  related : σ₁ → σ₂ → Prop
  visibleNil : visible [] = []
  visibleAppend : ∀ left right, visible (left ++ right) = visible left ++ visible right
  answered : ∀ state action next emitted other, related state other →
    low.step state action = some (next, emitted) →
    ∃ actions otherNext, high.run other actions = some (otherNext, visible emitted) ∧
      related next otherNext

theorem Simulation.run_answered {σ₁ σ₂ α₁ α₂ ε₁ ε₂ : Type} {low : Machine σ₁ α₁ ε₁}
    {high : Machine σ₂ α₂ ε₂} {visible : List ε₁ → List ε₂}
    (simulation : Simulation low high visible) {start state : σ₁} {other : σ₂}
    {actions : List α₁} {events : List ε₁} (related : simulation.related start other)
    (ran : low.run start actions = some (state, events)) :
    ∃ otherActions otherState,
      high.run other otherActions = some (otherState, visible events) ∧
      simulation.related state otherState := by
  induction actions generalizing start other events with
  | nil =>
      simp only [run, Option.some.injEq, Prod.mk.injEq] at ran
      obtain ⟨rfl, rfl⟩ := ran
      exact ⟨[], other, by rw [simulation.visibleNil]; rfl, related⟩
  | cons action rest ih =>
      obtain ⟨next, emitted, later, stepped, followed, rfl⟩ := low.run_cons_inv ran
      obtain ⟨first, middle, ranFirst, relatedNext⟩ :=
        simulation.answered start action next emitted other related stepped
      obtain ⟨second, finish, ranSecond, relatedLast⟩ := ih relatedNext followed
      refine ⟨first ++ second, finish, ?_, relatedLast⟩
      rw [simulation.visibleAppend]
      exact high.run_append ranFirst ranSecond

def Answers {σ₁ σ₂ α₂ ε₂ : Type} (high : Machine σ₂ α₂ ε₂) (permitted : α₂ → Prop)
    (related : σ₁ → σ₂ → Prop) (other : σ₂) (next : σ₁) (events : List ε₂) : Prop :=
  ∃ actions otherNext, (∀ action ∈ actions, permitted action) ∧
    high.run other actions = some (otherNext, events) ∧ related next otherNext

theorem run_answered_within {σ₁ σ₂ α₁ α₂ ε₁ ε₂ : Type} {low : Machine σ₁ α₁ ε₁}
    {high : Machine σ₂ α₂ ε₂} {visible : List ε₁ → List ε₂} {allowed : α₁ → Prop}
    {permitted : α₂ → Prop} {related : σ₁ → σ₂ → Prop} {start : σ₁} {other : σ₂}
    (visibleNil : visible [] = [])
    (visibleAppend : ∀ left right, visible (left ++ right) = visible left ++ visible right)
    (initially : related start other)
    (answered : ∀ state reached action next emitted otherActions otherEvents,
      (∀ action ∈ otherActions, permitted action) →
      high.run other otherActions = some (reached, otherEvents) →
      related state reached → allowed action → low.step state action = some (next, emitted) →
      high.Answers permitted related reached next (visible emitted))
    {actions : List α₁} {events : List ε₁} {state : σ₁}
    (within : ∀ action ∈ actions, allowed action)
    (ran : low.run start actions = some (state, events)) :
    high.Answers permitted related other state (visible events) := by
  refine low.run_invariant_within
    (motive := fun _ events state => high.Answers permitted related other state (visible events))
    ⟨[], other, List.forall_mem_nil _, by rw [visibleNil]; rfl, initially⟩ ?_ within ran
  intro _ events state action next emitted _ held isAllowed stepped
  obtain ⟨earlier, reached, before, ranEarlier, relatedState⟩ := held
  obtain ⟨later, last, after, ranLater, relatedNext⟩ := answered state reached action next emitted
    earlier _ before ranEarlier relatedState isAllowed stepped
  refine ⟨earlier ++ later, last, List.forall_mem_append.mpr ⟨before, after⟩, ?_, relatedNext⟩
  rw [visibleAppend]
  exact high.run_append ranEarlier ranLater

end Machine
