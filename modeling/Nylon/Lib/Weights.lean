import Mathlib.Algebra.GroupWithZero.Nat
import Nylon.Lib.RangeLoop

/-!
Sums over the entries of a table, and how they change when an entry is replaced or
removed.
-/

namespace Lib.Table

variable {κ α : Type}

/-- The sum of the weights of all entries. -/
def total (w : α → Nat) (m : Table κ α) : Nat :=
  (m.entries.map fun e => w e.2).sum

variable [DecidableEq κ]

/-- The weight of the entry of a key, zero if there is none. -/
def weightAt (w : α → Nat) (m : Table κ α) (k : κ) : Nat :=
  ((m.lookup k).map w).getD 0

variable (w : α → Nat) (m : Table κ α) (k : κ)

theorem total_congr {m m' : Table κ α} (h : ∀ k, m.lookup k = m'.lookup k) :
    total w m = total w m' :=
  ((perm_of_lookup h).map _).sum_nat

theorem total_insert_erase (v : α) : total w (m.insert k v) = w v + total w (m.erase k) := by
  change ((⟨k, v⟩ :: m.entries.kerase k).map fun e : Σ _ : κ, α => w e.2).sum = _
  rw [List.map_cons, List.sum_cons]
  rfl

theorem total_erase : total w (m.erase k) + weightAt w m k = total w m := by
  unfold weightAt
  cases hk : m.lookup k with
  | none =>
    apply total_congr
    intro k'
    rw [lookup_erase_eq]
    split
    · next heq => rw [heq, hk]
    · rfl
  | some v =>
    have hsame : total w m = total w (m.insert k v) := by
      apply total_congr
      intro k'
      rw [lookup_insert_eq]
      split
      · next heq => rw [heq, hk]
      · rfl
    rw [hsame, total_insert_erase]
    exact Nat.add_comm _ _

theorem total_insert (v : α) : total w (m.insert k v) + weightAt w m k = w v + total w m := by
  rw [total_insert_erase, Nat.add_assoc, total_erase]

end Lib.Table
