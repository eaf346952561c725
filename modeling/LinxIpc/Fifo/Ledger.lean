import Mathlib.Data.List.Induction
import LinxIpc.Fifo.Selective

/-!
The history of a selective store.  Every accepted value gets the number of its
acceptance, and the ledger follows it to one of three places: still stored,
delivered to a reader, or discarded by a clear.

The ledger is computed from the operations alone; `replay_queued` and
`replay_delivered` say that it follows the store and the responses.
-/

namespace SelectiveFifo

variable {α κ : Type}

abbrev Stamped (α : Type) := Nat × α

structure Ledger (α κ : Type) where
  accepted : List α
  queued : List (Stamped α)
  delivered : List (Stamped α × κ)
  discarded : List (Stamped α)

namespace Ledger

def empty : Ledger α κ :=
  { accepted := [], queued := [], delivered := [], discarded := [] }

def wants (accepts : κ → α → Bool) (reader : κ) (entry : Stamped α) : Bool :=
  accepts reader entry.2

def apply (accepts : κ → α → Bool) (capacity : Nat) (ledger : Ledger α κ) :
    Op α κ → Ledger α κ
  | .offer value =>
      if ledger.queued.length < capacity then
        { ledger with
          accepted := ledger.accepted ++ [value]
          queued := ledger.queued ++ [(ledger.accepted.length, value)] }
      else ledger
  | .take reader =>
      match ledger.queued.find? (wants accepts reader) with
      | none => ledger
      | some entry =>
          { ledger with
            queued := ledger.queued.eraseP (wants accepts reader)
            delivered := ledger.delivered ++ [(entry, reader)] }
  | .clear =>
      { ledger with queued := [], discarded := ledger.discarded ++ ledger.queued }

def replay (accepts : κ → α → Bool) (capacity : Nat) (ops : List (Op α κ)) :
    Ledger α κ :=
  ops.foldl (apply accepts capacity) empty

theorem replay_snoc (accepts : κ → α → Bool) (capacity : Nat)
    (ops : List (Op α κ)) (op : Op α κ) :
    replay accepts capacity (ops ++ [op]) =
      (replay accepts capacity ops).apply accepts capacity op := by
  simp only [replay, List.foldl_append, List.foldl_cons, List.foldl_nil]

def places (ledger : Ledger α κ) : List (Stamped α) :=
  ledger.queued ++ ledger.delivered.map Prod.fst ++ ledger.discarded

def Settled (ledger : Ledger α κ) (stamp : Nat) : Prop :=
  stamp ∈ ledger.delivered.map (fun record => record.1.1) ∨
    stamp ∈ ledger.discarded.map Prod.fst

structure Valid (accepts : κ → α → Bool) (ledger : Ledger α κ) : Prop where
  conserved : (ledger.places.map Prod.fst).Perm (List.range ledger.accepted.length)
  values : ∀ entry ∈ ledger.places, ledger.accepted[entry.1]? = some entry.2
  ordered : ledger.queued.Pairwise (fun left right => left.1 < right.1)
  wanted : ∀ record ∈ ledger.delivered, wants accepts record.2 record.1 = true
  passed : ∀ record ∈ ledger.delivered, ∀ entry ∈ ledger.queued,
    wants accepts record.2 entry = true → record.1.1 < entry.1
  inOrder : ledger.delivered.Pairwise (fun left right =>
    wants accepts left.2 right.1 = true → left.1.1 < right.1.1)

theorem Valid.empty (accepts : κ → α → Bool) :
    Valid accepts (Ledger.empty : Ledger α κ) where
  conserved := List.Perm.refl []
  values := by intro entry member; cases member
  ordered := List.Pairwise.nil
  wanted := by intro record member; cases member
  passed := by intro record member; cases member
  inOrder := List.Pairwise.nil

theorem Valid.stamp_lt {accepts : κ → α → Bool} {ledger : Ledger α κ}
    (valid : Valid accepts ledger) {entry : Stamped α}
    (member : entry ∈ ledger.places) : entry.1 < ledger.accepted.length := by
  have stamped : entry.1 ∈ ledger.places.map Prod.fst := List.mem_map_of_mem member
  exact List.mem_range.mp (valid.conserved.subset stamped)

theorem mem_places_queued {ledger : Ledger α κ} {entry : Stamped α}
    (member : entry ∈ ledger.queued) : entry ∈ ledger.places := by
  simp only [places, List.mem_append, member, true_or]

theorem mem_places_delivered {ledger : Ledger α κ} {record : Stamped α × κ}
    (member : record ∈ ledger.delivered) : record.1 ∈ ledger.places := by
  have moved : record.1 ∈ ledger.delivered.map Prod.fst := List.mem_map_of_mem member
  simp only [places, List.mem_append, moved, or_true, true_or]

/-! ### One operation keeps the ledger valid -/

theorem Valid.offer {accepts : κ → α → Bool} {capacity : Nat} {ledger : Ledger α κ}
    (valid : Valid accepts ledger) (value : α) :
    Valid accepts (ledger.apply accepts capacity (.offer value)) := by
  by_cases room : ledger.queued.length < capacity
  · simp only [apply, if_pos room]
    refine ⟨?_, ?_, ?_, valid.wanted, ?_, valid.inOrder⟩
    · -- the new stamp is the next number, and moves to the end of the places
      have shape : (((ledger.queued ++ [(ledger.accepted.length, value)]) ++
          ledger.delivered.map Prod.fst ++ ledger.discarded).map Prod.fst).Perm
          (ledger.places.map Prod.fst ++ [ledger.accepted.length]) := by
        simp only [places, List.map_append, List.map_cons, List.map_nil, List.append_assoc]
        apply List.Perm.append_left
        exact List.perm_append_comm.trans (by simp only [List.append_assoc]; exact List.Perm.refl _)
      simp only [List.length_append, List.length_cons, List.length_nil,
        Nat.zero_add, List.range_succ]
      exact shape.trans (valid.conserved.append_right _)
    · intro entry member
      simp only [places, List.mem_append, List.mem_cons, List.not_mem_nil, or_false] at member
      have older : entry ∈ ledger.places →
          (ledger.accepted ++ [value])[entry.1]? = some entry.2 := by
        intro present
        rw [List.getElem?_append_left (valid.stamp_lt present)]
        exact valid.values entry present
      rcases member with ((stored | rfl) | moved) | dropped
      · exact older (mem_places_queued stored)
      · exact List.getElem?_concat_length
      · exact older (by simp only [places, List.mem_append, moved, or_true, true_or])
      · exact older (by simp only [places, List.mem_append, dropped, or_true])
    · apply List.pairwise_append.mpr
      refine ⟨valid.ordered, List.pairwise_singleton _ _, ?_⟩
      intro left leftMember right rightMember
      obtain rfl := List.mem_singleton.mp rightMember
      exact valid.stamp_lt (mem_places_queued leftMember)
    · intro record recorded entry member wanted
      rcases List.mem_append.mp member with stored | fresh
      · exact valid.passed record recorded entry stored wanted
      · obtain rfl := List.mem_singleton.mp fresh
        exact valid.stamp_lt (mem_places_delivered recorded)
  · simp only [apply, if_neg room]
    exact valid

theorem Valid.clear {accepts : κ → α → Bool} {capacity : Nat} {ledger : Ledger α κ}
    (valid : Valid accepts ledger) :
    Valid accepts (ledger.apply accepts capacity .clear) := by
  have same : (ledger.apply accepts capacity .clear).places.Perm ledger.places := by
    simp only [apply, places, List.nil_append, List.append_assoc]
    rw [← List.append_assoc (List.map Prod.fst ledger.delivered)]
    exact List.perm_append_comm
  refine ⟨(same.map Prod.fst).trans valid.conserved, ?_, List.Pairwise.nil, valid.wanted, ?_,
    valid.inOrder⟩
  · intro entry member
    exact valid.values entry (same.subset member)
  · intro record _ entry member
    cases member

theorem apply_take_some {accepts : κ → α → Bool} (capacity : Nat) {ledger : Ledger α κ}
    {reader : κ} {entry : Stamped α}
    (found : ledger.queued.find? (wants accepts reader) = some entry) :
    ledger.apply accepts capacity (.take reader) =
      { ledger with
        queued := ledger.queued.eraseP (wants accepts reader)
        delivered := ledger.delivered ++ [(entry, reader)] } := by
  simp only [apply, found]

theorem Valid.take {accepts : κ → α → Bool} {capacity : Nat} {ledger : Ledger α κ}
    (valid : Valid accepts ledger) (reader : κ) :
    Valid accepts (ledger.apply accepts capacity (.take reader)) := by
  cases found : ledger.queued.find? (wants accepts reader) with
  | none =>
      simp only [apply, found]
      exact valid
  | some entry =>
      rw [apply_take_some capacity found]
      obtain ⟨front, back, split, wanted, before, erased⟩ := take_some found
      have ordered := valid.ordered
      rw [split] at ordered
      have behind : ∀ later ∈ back, entry.1 < later.1 :=
        (List.pairwise_cons.mp (List.pairwise_append.mp ordered).2.1).1
      have same : (places { ledger with
          queued := ledger.queued.eraseP (wants accepts reader)
          delivered := ledger.delivered ++ [(entry, reader)] }).Perm ledger.places := by
        rw [places, places, erased, split]
        simp only [List.map_append, List.map_cons, List.map_nil, List.append_assoc,
          List.cons_append, List.nil_append]
        apply List.Perm.append_left
        rw [← List.append_assoc]
        refine List.perm_middle.trans ?_
        rw [List.append_assoc]
      refine ⟨(same.map Prod.fst).trans valid.conserved, ?_,
        valid.ordered.sublist List.eraseP_sublist, ?_, ?_, ?_⟩
      · intro moved member
        exact valid.values moved (same.subset member)
      · intro record recorded
        rcases List.mem_append.mp recorded with old | fresh
        · exact valid.wanted record old
        · obtain rfl := List.mem_singleton.mp fresh
          exact wanted
      · -- what the new delivery left behind was refused by its reader or is younger
        rw [erased]
        intro record recorded later member laterWanted
        rcases List.mem_append.mp recorded with old | fresh
        · have stored : later ∈ ledger.queued := by
            rw [split]
            rcases List.mem_append.mp member with inFront | inBack
            · exact List.mem_append_left _ inFront
            · exact List.mem_append_right _ (List.mem_cons_of_mem _ inBack)
          exact valid.passed record old later stored laterWanted
        · obtain rfl := List.mem_singleton.mp fresh
          rcases List.mem_append.mp member with inFront | inBack
          · rw [before later inFront] at laterWanted
            cases laterWanted
          · exact behind later inBack
      · -- every earlier delivery was made while this entry was stored, or before it came
        apply List.pairwise_append.mpr
        refine ⟨valid.inOrder, List.pairwise_singleton _ _, ?_⟩
        intro left leftMember right rightMember leftWanted
        obtain rfl := List.mem_singleton.mp rightMember
        exact valid.passed left leftMember entry (List.mem_of_find?_eq_some found) leftWanted

theorem Valid.apply {accepts : κ → α → Bool} {capacity : Nat} {ledger : Ledger α κ}
    (valid : Valid accepts ledger) (op : Op α κ) :
    Valid accepts (ledger.apply accepts capacity op) := by
  cases op with
  | offer value => exact valid.offer value
  | take reader => exact valid.take reader
  | clear => exact valid.clear

theorem replay_valid (accepts : κ → α → Bool) (capacity : Nat) (ops : List (Op α κ)) :
    Valid accepts (replay accepts capacity ops) := by
  induction ops using List.reverseRecOn with
  | nil => exact Valid.empty accepts
  | append_singleton earlier op ih =>
      rw [replay_snoc]
      exact ih.apply op

/-- When a take delivers an entry, every value accepted before it that the
reader also accepts has left the store already. -/
theorem Valid.no_overtaking {accepts : κ → α → Bool} {ledger : Ledger α κ}
    (valid : Valid accepts ledger) {reader : κ} {entry : Stamped α}
    (found : ledger.queued.find? (wants accepts reader) = some entry)
    {stamp : Nat} {value : α} (earlier : stamp < entry.1)
    (atStamp : ledger.accepted[stamp]? = some value)
    (accepted : accepts reader value = true) : ledger.Settled stamp := by
  obtain ⟨front, back, split, _wanted, before, _erased⟩ := take_some found
  have inRange : stamp ∈ List.range ledger.accepted.length := by
    rw [List.mem_range]
    exact (List.getElem?_eq_some_iff.mp atStamp).1
  have placed := valid.conserved.symm.subset inRange
  obtain ⟨other, member, rfl⟩ := List.mem_map.mp placed
  have sameValue : other.2 = value := by
    have known := valid.values other member
    rw [atStamp] at known
    exact (Option.some.inj known).symm
  simp only [places, List.mem_append] at member
  rcases member with (stored | moved) | dropped
  · -- still stored and accepted: it would have been found first
    exfalso
    rw [split] at stored
    rcases List.mem_append.mp stored with inFront | later
    · have refused := before other inFront
      rw [wants, sameValue, accepted] at refused
      cases refused
    · have ordered := valid.ordered
      rw [split] at ordered
      rcases List.mem_cons.mp later with rfl | inBack
      · exact Nat.lt_irrefl _ earlier
      · have after := (List.pairwise_cons.mp (List.pairwise_append.mp ordered).2.1).1 other inBack
        omega
  · left
    obtain ⟨record, recorded, rfl⟩ := List.mem_map.mp moved
    exact List.mem_map.mpr ⟨record, recorded, rfl⟩
  · right
    exact List.mem_map_of_mem dropped

/-! ### The ledger follows the store -/

private theorem stored_take (accepts : κ → α → Bool) (reader : κ)
    (queued : List (Stamped α)) :
    (queued.map Prod.snd).eraseP (accepts reader) =
        (queued.eraseP (wants accepts reader)).map Prod.snd ∧
      (queued.map Prod.snd).find? (accepts reader) =
        (queued.find? (wants accepts reader)).map Prod.snd := by
  constructor
  · rw [List.eraseP_map]
    rfl
  · rw [List.find?_map]
    rfl

theorem apply_queued (accepts : κ → α → Bool) (capacity : Nat)
    (ledger : Ledger α κ) (op : Op α κ) :
    (ledger.apply accepts capacity op).queued.map Prod.snd =
      (SelectiveFifo.apply accepts capacity (ledger.queued.map Prod.snd) op).1 := by
  cases op with
  | offer value =>
      by_cases room : ledger.queued.length < capacity
      · simp only [apply, SelectiveFifo.apply, List.length_map, if_pos room,
          List.map_append, List.map_cons, List.map_nil]
      · simp only [apply, SelectiveFifo.apply, List.length_map, if_neg room]
  | take reader =>
      simp only [SelectiveFifo.apply, (stored_take accepts reader ledger.queued).1]
      cases found : ledger.queued.find? (wants accepts reader) with
      | none => simp only [apply, found, take_none found]
      | some entry => simp only [apply, found]
  | clear => rfl

theorem apply_delivered (accepts : κ → α → Bool) (capacity : Nat)
    (ledger : Ledger α κ) (op : Op α κ) :
    (ledger.apply accepts capacity op).delivered.map (fun record => (record.2, record.1.2)) =
      ledger.delivered.map (fun record => (record.2, record.1.2)) ++
        (handed? (op, (SelectiveFifo.apply accepts capacity
          (ledger.queued.map Prod.snd) op).2)).toList := by
  cases op with
  | offer value =>
      by_cases room : ledger.queued.length < capacity
      · simp only [apply, if_pos room, handed?, Option.toList_none, List.append_nil]
      · simp only [apply, if_neg room, handed?, Option.toList_none, List.append_nil]
  | take reader =>
      simp only [SelectiveFifo.apply, (stored_take accepts reader ledger.queued).2]
      cases found : ledger.queued.find? (wants accepts reader) with
      | none =>
          simp only [apply, found, Option.map_none, handed?, Option.toList_none,
            List.append_nil]
      | some entry =>
          simp only [apply, found, List.map_append, List.map_cons, List.map_nil,
            Option.map_some, handed?, Option.toList_some]
  | clear =>
      simp only [apply, handed?, Option.toList_none, List.append_nil]

theorem apply_accepted (accepts : κ → α → Bool) (capacity : Nat)
    (ledger : Ledger α κ) (op : Op α κ) :
    (ledger.apply accepts capacity op).accepted =
      ledger.accepted ++
        (admitted? (op, (SelectiveFifo.apply accepts capacity
          (ledger.queued.map Prod.snd) op).2)).toList := by
  cases op with
  | offer value =>
      by_cases room : ledger.queued.length < capacity
      · simp only [apply, SelectiveFifo.apply, List.length_map, if_pos room, admitted?,
          Option.toList_some]
      · simp only [apply, SelectiveFifo.apply, List.length_map, if_neg room, admitted?,
          Option.toList_none, List.append_nil]
  | take reader =>
      cases found : ledger.queued.find? (wants accepts reader) with
      | none => simp only [apply, found, admitted?, Option.toList_none, List.append_nil]
      | some entry => simp only [apply, found, admitted?, Option.toList_none, List.append_nil]
  | clear =>
      simp only [apply, admitted?, Option.toList_none, List.append_nil]

theorem replay_queued (accepts : κ → α → Bool) (capacity : Nat) (ops : List (Op α κ)) :
    (replay accepts capacity ops).queued.map Prod.snd =
      (SelectiveFifo.replay accepts capacity [] ops).1 := by
  induction ops using List.reverseRecOn with
  | nil => rfl
  | append_singleton earlier op ih =>
      rw [replay_snoc, apply_queued, ih, SelectiveFifo.replay_snoc accepts capacity rfl op]

private theorem filterMap_single {β γ : Type} (f : β → Option γ) (item : β) :
    [item].filterMap f = (f item).toList := by
  cases found : f item <;> simp only [List.filterMap_cons, found, List.filterMap_nil] <;> rfl

theorem replay_delivered (accepts : κ → α → Bool) (capacity : Nat) (ops : List (Op α κ)) :
    (replay accepts capacity ops).delivered.map (fun record => (record.2, record.1.2)) =
      (ops.zip (SelectiveFifo.replay accepts capacity [] ops).2).filterMap handed? := by
  induction ops using List.reverseRecOn with
  | nil => rfl
  | append_singleton earlier op ih =>
      rw [replay_snoc, apply_delivered, ih, replay_queued, zip_replay_snoc,
        List.filterMap_append, filterMap_single]

theorem replay_accepted (accepts : κ → α → Bool) (capacity : Nat) (ops : List (Op α κ)) :
    (replay accepts capacity ops).accepted =
      (ops.zip (SelectiveFifo.replay accepts capacity [] ops).2).filterMap admitted? := by
  induction ops using List.reverseRecOn with
  | nil => rfl
  | append_singleton earlier op ih =>
      rw [replay_snoc, apply_accepted, ih, replay_queued, zip_replay_snoc,
        List.filterMap_append, filterMap_single]

end Ledger

end SelectiveFifo
