import Mathlib.Data.List.Basic

/-!
Arrays of fixed size that are written in place.

A write that does not stay inside the array has no result.
-/

namespace Buffer

variable {β : Type}

def write (buffer : List β) (offset : Nat) (items : List β) : Option (List β) :=
  if offset + items.length ≤ buffer.length then
    some (buffer.take offset ++ items ++ buffer.drop (offset + items.length))
  else none

theorem write_of_le {buffer : List β} {offset : Nat} {items : List β}
    (inside : offset + items.length ≤ buffer.length) :
    write buffer offset items =
      some (buffer.take offset ++ items ++ buffer.drop (offset + items.length)) :=
  if_pos inside

theorem write_isSome_iff (buffer : List β) (offset : Nat) (items : List β) :
    (write buffer offset items).isSome = true ↔ offset + items.length ≤ buffer.length := by
  rw [write]
  split
  · rename_i inside
    exact ⟨fun _ => inside, fun _ => rfl⟩
  · rename_i outside
    constructor
    · intro impossible
      cases impossible
    · intro inside
      exact absurd inside outside

theorem length_write {buffer written : List β} {offset : Nat} {items : List β}
    (wrote : write buffer offset items = some written) : written.length = buffer.length := by
  have inside := (write_isSome_iff buffer offset items).mp (by rw [wrote]; rfl)
  rw [write_of_le inside] at wrote
  obtain rfl := Option.some.inj wrote
  rw [List.length_append, List.length_append, List.length_take, List.length_drop]
  omega

theorem write_zero {buffer items : List β} (inside : items.length ≤ buffer.length) :
    write buffer 0 items = some (items ++ buffer.drop items.length) := by
  rw [write_of_le (by omega), List.take_zero, List.nil_append, Nat.zero_add]

theorem write_next {front back items : List β} (inside : items.length ≤ back.length) :
    write (front ++ back) front.length items =
      some (front ++ items ++ back.drop items.length) := by
  rw [write_of_le (by rw [List.length_append]; omega), List.take_left]
  rw [List.drop_append, List.drop_eq_nil_of_le (by omega), List.nil_append, Nat.add_sub_cancel_left]

end Buffer
