import Mathlib.Tactic.ByContra

/-!
Values compared by a key and a content, where a wildcard on either side leaves
only the keys to compare.

Such a comparison is reflexive and symmetric.  It is transitive except across a
wildcard that stands between two different contents.
-/

/-- What a comparison sees of a value. -/
structure Wildcard (α κ β : Type) where
  key : α → κ
  content : α → β
  wild : α → Prop

namespace Wildcard

variable {α κ β : Type} (view : Wildcard α κ β)

def Agrees (left right : α) : Prop :=
  view.key left = view.key right ∧
    (view.wild left ∨ view.wild right ∨ view.content left = view.content right)

/-- The middle one agrees with both sides only because it is a wildcard. -/
def Bridges (left middle right : α) : Prop :=
  view.wild middle ∧ ¬ view.wild left ∧ ¬ view.wild right ∧
    view.content left ≠ view.content right

variable {view}

theorem agrees_refl (value : α) : view.Agrees value value := ⟨rfl, .inr (.inr rfl)⟩

theorem Agrees.symm {left right : α} (agrees : view.Agrees left right) :
    view.Agrees right left := by
  obtain ⟨sameKey, wild | wild | sameContent⟩ := agrees
  · exact ⟨sameKey.symm, .inr (.inl wild)⟩
  · exact ⟨sameKey.symm, .inl wild⟩
  · exact ⟨sameKey.symm, .inr (.inr sameContent.symm)⟩

theorem agrees_comm (left right : α) : view.Agrees left right ↔ view.Agrees right left :=
  ⟨Agrees.symm, Agrees.symm⟩

/-- Two steps of agreement make one exactly if they do not cross a bridge. -/
theorem Agrees.trans_iff {left middle right : α} (first : view.Agrees left middle)
    (second : view.Agrees middle right) :
    view.Agrees left right ↔ ¬ view.Bridges left middle right := by
  constructor
  · rintro ⟨-, wild | wild | sameContent⟩ ⟨-, leftPlain, rightPlain, different⟩
    · exact leftPlain wild
    · exact rightPlain wild
    · exact different sameContent
  · intro noBridge
    refine ⟨first.1.trans second.1, ?_⟩
    by_contra apart
    rw [not_or, not_or] at apart
    obtain ⟨leftPlain, rightPlain, different⟩ := apart
    refine noBridge ⟨?_, leftPlain, rightPlain, different⟩
    by_contra middlePlain
    have toMiddle := (first.2.resolve_left leftPlain).resolve_left middlePlain
    have fromMiddle := (second.2.resolve_left middlePlain).resolve_left rightPlain
    exact different (toMiddle.trans fromMiddle)

/-! ### Comparing objects -/

def Sees {σ : Type} (view : Wildcard α κ β) (value : σ → α) (equal : σ → σ → Bool) : Prop :=
  ∀ this other, equal this other = true ↔ view.Agrees (value this) (value other)

section Sees

variable {σ : Type} {value : σ → α} {equal : σ → σ → Bool}

theorem Sees.refl (sees : view.Sees value equal) (this : σ) : equal this this = true :=
  (sees this this).mpr (agrees_refl _)

theorem Sees.comm (sees : view.Sees value equal) (this other : σ) :
    equal this other = equal other this := by
  rw [Bool.eq_iff_iff, sees, sees, agrees_comm]

theorem Sees.trans_iff (sees : view.Sees value equal) {a b c : σ} (first : equal a b = true)
    (second : equal b c = true) :
    equal a c = true ↔ ¬ view.Bridges (value a) (value b) (value c) := by
  rw [sees] at first second ⊢
  exact first.trans_iff second

end Sees

end Wildcard
