import Mathlib.Data.List.Nodup
import Mathlib.Data.List.Perm.Basic

/-!
Handles that a system gives out and takes back, and who has to give them back.

To close a handle that is not open is recorded: the system may have given it to
somebody else by then.
-/

namespace Custody

variable {η : Type}

structure Table (η : Type) where
  opened : List η
  misclosed : List η

namespace Table

def take (handle : η) (table : Table η) : Table η :=
  { table with opened := handle :: table.opened }

def close [DecidableEq η] (handle : η) (table : Table η) : Table η :=
  if handle ∈ table.opened then { table with opened := table.opened.erase handle }
  else { table with misclosed := handle :: table.misclosed }

/-- Each of these handles is open and has one owner, no other is open, and none was
closed by somebody who did not own it. -/
structure Owned (table : Table η) (owned : List η) : Prop where
  settled : table.misclosed = []
  accounts : table.opened.Perm owned
  single : owned.Nodup

variable {table : Table η} {handle : η} {owned rest : List η}

theorem Owned.perm (held : table.Owned owned) (same : owned.Perm rest) : table.Owned rest :=
  ⟨held.settled, held.accounts.trans same, same.nodup_iff.mp held.single⟩

theorem Owned.mem_iff (held : table.Owned owned) : handle ∈ table.opened ↔ handle ∈ owned :=
  held.accounts.mem_iff

theorem Owned.take (held : table.Owned owned) (fresh : handle ∉ table.opened) :
    (table.take handle).Owned (handle :: owned) := by
  refine ⟨held.settled, held.accounts.cons handle, ?_⟩
  rw [List.nodup_cons, ← held.mem_iff]
  exact ⟨fresh, held.single⟩

theorem Owned.close [DecidableEq η] (held : table.Owned (handle :: rest)) :
    (table.close handle).Owned rest := by
  have opened : handle ∈ table.opened := held.mem_iff.mpr List.mem_cons_self
  rw [Table.close, if_pos opened]
  refine ⟨held.settled, ?_, (List.nodup_cons.mp held.single).2⟩
  have fewer := held.accounts.erase handle
  rwa [List.erase_cons_head] at fewer

theorem Owned.disjoint (held : table.Owned (owned ++ rest)) (mine : handle ∈ owned) :
    handle ∉ rest :=
  List.disjoint_of_nodup_append held.single mine

end Table

end Custody
