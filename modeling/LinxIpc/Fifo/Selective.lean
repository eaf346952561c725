import Mathlib.Data.List.Basic
import Mathlib.Data.List.Induction

/-!
A bounded first-in first-out store read selectively: a reader takes the
earliest stored value that passes its own test and leaves the others in place.

The store is a list and every operation is atomic.  Readers are named by an
arbitrary type, and `accepts` says which values a reader takes.
-/

namespace SelectiveFifo

variable {α κ : Type}

inductive Op (α κ : Type) where
  | offer (value : α)
  | take (reader : κ)
  | clear

inductive Response (α : Type) where
  | offered (accepted : Bool)
  | taken (value : Option α)
  | cleared
  deriving DecidableEq

def admitted? : Op α κ × Response α → Option α
  | (.offer value, .offered true) => some value
  | _ => none

def handed? : Op α κ × Response α → Option (κ × α)
  | (.take reader, .taken (some value)) => some (reader, value)
  | _ => none

def apply (accepts : κ → α → Bool) (capacity : Nat) (store : List α) :
    Op α κ → List α × Response α
  | .offer value =>
      if store.length < capacity then (store ++ [value], .offered true)
      else (store, .offered false)
  | .take reader =>
      (store.eraseP (accepts reader), .taken (store.find? (accepts reader)))
  | .clear => ([], .cleared)

theorem apply_within {accepts : κ → α → Bool} {capacity : Nat} {store : List α}
    (within : store.length ≤ capacity) (op : Op α κ) :
    (apply accepts capacity store op).1.length ≤ capacity := by
  cases op with
  | offer value =>
      by_cases room : store.length < capacity
      · rw [apply, if_pos room, List.length_append, List.length_singleton]
        exact room
      · rw [apply, if_neg room]
        exact within
  | take reader => exact Nat.le_trans List.length_eraseP_le within
  | clear => exact Nat.zero_le capacity

def replay (accepts : κ → α → Bool) (capacity : Nat) :
    List α → List (Op α κ) → List α × List (Response α)
  | store, [] => (store, [])
  | store, op :: rest =>
      let (next, response) := apply accepts capacity store op
      let (last, responses) := replay accepts capacity next rest
      (last, response :: responses)

theorem replay_append (accepts : κ → α → Bool) (capacity : Nat)
    (store : List α) (front back : List (Op α κ)) :
    replay accepts capacity store (front ++ back) =
      let (middle, before) := replay accepts capacity store front
      let (last, after) := replay accepts capacity middle back
      (last, before ++ after) := by
  induction front generalizing store with
  | nil => rfl
  | cons op rest ih => simp only [List.cons_append, replay, ih]

theorem replay_snoc (accepts : κ → α → Bool) (capacity : Nat)
    {store middle : List α} {ops : List (Op α κ)} {responses : List (Response α)}
    (replayed : replay accepts capacity store ops = (middle, responses))
    (op : Op α κ) :
    replay accepts capacity store (ops ++ [op]) =
      ((apply accepts capacity middle op).1,
        responses ++ [(apply accepts capacity middle op).2]) := by
  rw [replay_append, replayed]
  rfl

theorem replay_length (accepts : κ → α → Bool) (capacity : Nat) (store : List α)
    (ops : List (Op α κ)) : (replay accepts capacity store ops).2.length = ops.length := by
  induction ops generalizing store with
  | nil => rfl
  | cons op rest ih => simp only [replay, List.length_cons, ih]

theorem zip_replay_snoc (accepts : κ → α → Bool) (capacity : Nat) (store : List α)
    (ops : List (Op α κ)) (op : Op α κ) :
    (ops ++ [op]).zip (replay accepts capacity store (ops ++ [op])).2 =
      ops.zip (replay accepts capacity store ops).2 ++
        [(op, (apply accepts capacity (replay accepts capacity store ops).1 op).2)] := by
  rw [replay_snoc accepts capacity rfl op,
    List.zip_append (replay_length accepts capacity store ops).symm]
  rfl

/-- A successful take removes exactly one value, and nothing that stood before
it passes the reader's test. -/
theorem take_some {passes : α → Bool} {store : List α} {value : α}
    (found : store.find? passes = some value) :
    ∃ front back, store = front ++ value :: back ∧ passes value = true ∧
      (∀ earlier ∈ front, passes earlier = false) ∧
      store.eraseP passes = front ++ back := by
  obtain ⟨passed, front, back, rfl, before⟩ := List.find?_eq_some_iff_append.mp found
  have skipped : ∀ earlier ∈ front, passes earlier = false := by
    intro earlier member
    simpa using before earlier member
  refine ⟨front, back, rfl, passed, skipped, ?_⟩
  rw [List.eraseP_append_right]
  · rw [List.eraseP_cons_of_pos passed]
  · intro earlier member
    simp only [skipped earlier member, Bool.false_eq_true, not_false_eq_true]

theorem take_none {passes : α → Bool} {store : List α}
    (missing : store.find? passes = none) : store.eraseP passes = store := by
  apply List.eraseP_of_forall_not
  intro value member
  exact List.find?_eq_none.mp missing value member

theorem filter_take {passes : α → Bool} {store : List α} {value : α}
    (found : store.find? passes = some value) :
    store.filter passes = value :: (store.eraseP passes).filter passes := by
  obtain ⟨front, back, rfl, passed, before, erased⟩ := take_some found
  have dropped : front.filter passes = [] := by
    apply List.filter_eq_nil_iff.mpr
    intro earlier member
    simp only [before earlier member, Bool.false_eq_true, not_false_eq_true]
  rw [erased, List.filter_append, List.filter_append, dropped,
    List.filter_cons_of_pos passed]
  rfl

/-- As long as nothing is cleared and all readers apply one test, the values
handed out and those still stored are, in order, the admitted ones that pass. -/
theorem replay_filter {accepts : κ → α → Bool} (capacity : Nat) {passes : α → Bool}
    {ops : List (Op α κ)}
    (same : ∀ op ∈ ops, op ≠ .clear ∧ ∀ reader, op = .take reader → accepts reader = passes) :
    ((ops.zip (replay accepts capacity [] ops).2).filterMap handed?).map Prod.snd ++
        (replay accepts capacity [] ops).1.filter passes =
      ((ops.zip (replay accepts capacity [] ops).2).filterMap admitted?).filter passes := by
  induction ops using List.reverseRecOn with
  | nil => rfl
  | append_singleton earlier op ih =>
      rw [List.forall_mem_append, List.forall_mem_singleton] at same
      obtain ⟨sameEarlier, notClear, sameTest⟩ := same
      have before := ih sameEarlier
      rw [zip_replay_snoc, replay_snoc accepts capacity rfl op]
      generalize (replay accepts capacity [] earlier).1 = store at before ⊢
      simp only [List.filterMap_append, List.map_append, List.filter_append]
      rw [← before]
      cases op with
      | clear => exact absurd rfl notClear
      | offer value =>
          by_cases room : store.length < capacity
          · simp [apply, room, List.filterMap_cons, handed?, admitted?]
          · simp [apply, room, List.filterMap_cons, handed?, admitted?]
      | take reader =>
          have test := sameTest reader rfl
          cases found : store.find? (accepts reader) with
          | none =>
              have unchanged := take_none found
              simp [apply, found, unchanged, List.filterMap_cons, handed?, admitted?]
          | some value =>
              rw [test] at found
              have split := filter_take found
              simp [apply, found, List.filterMap_cons, handed?, admitted?, split, test]

end SelectiveFifo
