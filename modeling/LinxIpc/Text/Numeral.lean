import Mathlib.Data.Nat.Digits.Lemmas

/-!
Numerals: the digits of a number without leading zeros, the number that a list of
digits stands for, and readers that undo a writer entry by entry.
-/

namespace Numeral

def numeral (base number : Nat) : List Nat :=
  if number = 0 then [0] else (Nat.digits base number).reverse

def value (base : Nat) (digits : List Nat) : Nat :=
  digits.foldl (fun number digit => number * base + digit) 0

/-- Zero is written with one digit, and no other number begins with it. -/
structure Canonical (base : Nat) (digits : List Nat) : Prop where
  small : ∀ digit ∈ digits, digit < base
  nonempty : digits ≠ []
  leading : digits.head? = some 0 → digits = [0]

theorem value_eq_ofDigits (base : Nat) (digits : List Nat) :
    value base digits = Nat.ofDigits base digits.reverse := by
  rw [value, Nat.ofDigits_eq_foldr, List.foldr_reverse]
  congr 1
  funext number digit
  rw [Nat.mul_comm, Nat.add_comm]
  rfl

theorem canonical_numeral {base : Nat} (large : 1 < base) (number : Nat) :
    Canonical base (numeral base number) := by
  rw [numeral]
  split
  · refine ⟨?_, List.cons_ne_nil _ _, fun _ => rfl⟩
    rw [List.forall_mem_singleton]
    exact Nat.lt_of_succ_lt large
  · rename_i positive
    have present := Nat.digits_ne_nil_iff_ne_zero (b := base).mpr positive
    refine ⟨?_, fun empty => present (List.reverse_eq_nil_iff.mp empty), ?_⟩
    · intro digit member
      exact Nat.digits_lt_base large (List.mem_reverse.mp member)
    · intro zero
      rw [List.head?_reverse, List.getLast?_eq_some_getLast present] at zero
      exact absurd (Option.some.inj zero) (Nat.getLast_digit_ne_zero base positive)

theorem value_numeral (base number : Nat) : value base (numeral base number) = number := by
  rw [numeral]
  split
  · rename_i zero
    rw [zero]
    simp only [value, List.foldl_cons, List.foldl_nil, Nat.zero_mul, Nat.add_zero]
  · rw [value_eq_ofDigits, List.reverse_reverse, Nat.ofDigits_digits]

/-- Among the lists of digits that stand for a number, the one without leading
zeros is its numeral. -/
theorem eq_numeral {base : Nat} (large : 1 < base) {digits : List Nat}
    (canonical : Canonical base digits) : digits = numeral base (value base digits) := by
  rw [numeral, value_eq_ofDigits]
  by_cases zero : digits.head? = some 0
  · rw [canonical.leading zero]
    rfl
  · have leading : ∀ present : digits.reverse ≠ [], digits.reverse.getLast present ≠ 0 := by
      intro present isZero
      refine zero ?_
      rw [← List.getLast?_reverse, List.getLast?_eq_some_getLast present, isZero]
    have same := Nat.digits_ofDigits base large digits.reverse
      (fun digit member => canonical.small digit (List.mem_reverse.mp member)) leading
    split
    · rename_i nothing
      rw [nothing, Nat.digits_zero] at same
      exact absurd (List.reverse_eq_nil_iff.mp same.symm) canonical.nonempty
    · rw [same, List.reverse_reverse]

theorem toDigits_eq_numeral {base : Nat} (large : 1 < base) (number : Nat) :
    Nat.toDigits base number = (numeral base number).map Nat.digitChar := by
  induction number using Nat.strong_induction_on with
  | _ number ih =>
      rw [Nat.toDigits_eq_if large]
      split
      · rename_i single
        rw [numeral]
        split
        · rename_i zero
          rw [zero]
          rfl
        · rename_i positive
          rw [Nat.digits_of_lt base number positive single]
          rfl
      · rename_i several
        have positive : number ≠ 0 := by omega
        have front : number / base ≠ 0 :=
          Nat.pos_iff_ne_zero.mp (Nat.div_pos (Nat.not_lt.mp several) (Nat.lt_of_succ_lt large))
        rw [ih _ (Nat.div_lt_self (Nat.pos_of_ne_zero positive) large), numeral, if_neg front,
          numeral, if_neg positive, Nat.digits_eq_cons_digits_div large positive,
          List.reverse_cons, List.map_append, List.map_singleton]

theorem mapM_eq_some_iff {α β : Type} {read : α → Option β} {write : β → α} {good : β → Prop}
    (inverse : ∀ entry value, read entry = some value ↔ good value ∧ entry = write value)
    (entries : List α) (values : List β) :
    entries.mapM read = some values ↔
      (∀ value ∈ values, good value) ∧ entries = values.map write := by
  induction entries generalizing values with
  | nil =>
      rw [List.mapM_nil]
      constructor
      · intro none
        cases none
        exact ⟨List.forall_mem_nil _, rfl⟩
      · rintro ⟨-, empty⟩
        rw [List.map_eq_nil_iff.mp empty.symm]
        rfl
  | cons entry rest ih =>
      rw [List.mapM_cons]
      constructor
      · intro all
        obtain ⟨value, first, others⟩ := Option.bind_eq_some_iff.mp all
        obtain ⟨later, following, same⟩ := Option.bind_eq_some_iff.mp others
        cases same
        obtain ⟨goodFirst, rfl⟩ := (inverse entry value).mp first
        obtain ⟨goodLater, rfl⟩ := (ih later).mp following
        exact ⟨List.forall_mem_cons.mpr ⟨goodFirst, goodLater⟩, rfl⟩
      · rintro ⟨allGood, written⟩
        cases values with
        | nil => cases written
        | cons value later =>
            rw [List.map_cons, List.cons.injEq] at written
            rw [List.forall_mem_cons] at allGood
            have first := (inverse entry value).mpr ⟨allGood.1, written.1⟩
            have following := (ih later).mpr ⟨allGood.2, written.2⟩
            rw [first, following]
            rfl

end Numeral
