import Mathlib.Data.List.Basic
import Mathlib.Data.List.Perm.Basic
import Mathlib.Tactic

/-!
Grouping of entries by a key. A grouping lists every key once, together with the
entries of that key in their original order.
-/

namespace Lib.Grouping

variable {β κ : Type}

/-- The entries of a list of groups, group after group. -/
def flatten (groups : List (κ × List β)) : List (β × κ) :=
  groups.flatMap fun group => group.2.map fun value => (value, group.1)

@[simp] theorem flatten_nil : flatten ([] : List (κ × List β)) = [] := rfl

@[simp] theorem flatten_cons (group : κ × List β) (groups : List (κ × List β)) :
    flatten (group :: groups) = group.2.map (fun value => (value, group.1)) ++ flatten groups :=
  rfl

variable [DecidableEq κ]

/-- The values with the key, in order. -/
def membersOf (key : κ) (entries : List (β × κ)) : List β :=
  (entries.filter fun entry => entry.2 = key).map Prod.fst

structure IsGrouping (entries : List (β × κ)) (groups : List (κ × List β)) : Prop where
  nodup : (groups.map Prod.fst).Nodup
  members : ∀ group ∈ groups, group.2 = membersOf group.1 entries ∧ group.2 ≠ []
  perm : (flatten groups).Perm entries

theorem membersOf_cons (key : κ) (entry : β × κ) (entries : List (β × κ)) :
    membersOf key (entry :: entries) =
      if entry.2 = key then entry.1 :: membersOf key entries else membersOf key entries := by
  unfold membersOf
  by_cases h : entry.2 = key <;> simp [h]

/-- Leaving out another key does not change the values of a key. -/
theorem membersOf_filter_ne {key other : κ} (h : key ≠ other) (entries : List (β × κ)) :
    membersOf key (entries.filter fun entry => entry.2 ≠ other) = membersOf key entries := by
  unfold membersOf
  rw [List.filter_filter]
  congr 1
  apply List.filter_congr
  intro entry _
  by_cases hkey : entry.2 = key <;> simp [hkey, h]

theorem membersOf_map_pair (key : κ) (entries : List (β × κ)) :
    (membersOf key entries).map (fun value => (value, key)) =
      entries.filter fun entry => entry.2 = key := by
  unfold membersOf
  rw [List.map_map]
  conv_rhs => rw [← List.map_id (entries.filter _)]
  apply List.map_congr_left
  intro entry hentry
  have hkey : entry.2 = key := by simpa using (List.mem_filter.mp hentry).2
  rw [Function.comp_apply, id, ← hkey]

theorem IsGrouping.nil : IsGrouping ([] : List (β × κ)) [] :=
  ⟨List.nodup_nil, by simp, .refl _⟩

/-- The entries of one key can be taken out as the first group. -/
theorem IsGrouping.cons {key : κ} {entries : List (β × κ)} {groups : List (κ × List β)} (value : β)
    (h : IsGrouping (entries.filter fun entry => entry.2 ≠ key) groups) :
    IsGrouping ((value, key) :: entries) ((key, value :: membersOf key entries) :: groups) := by
  have hother : ∀ group ∈ groups, group.1 ≠ key := by
    rintro group hgroup rfl
    obtain ⟨hmembers, hne⟩ := h.members group hgroup
    apply hne
    rw [hmembers, membersOf, List.filter_filter, List.map_eq_nil_iff, List.filter_eq_nil_iff]
    simp
  constructor
  · rw [List.map_cons, List.nodup_cons]
    refine ⟨?_, h.nodup⟩
    rw [List.mem_map]
    rintro ⟨group, hgroup, heq⟩
    exact hother group hgroup heq
  · intro group hgroup
    rcases List.mem_cons.mp hgroup with rfl | hgroup
    · exact ⟨by rw [membersOf_cons, if_pos rfl], by simp⟩
    · obtain ⟨hmembers, hne⟩ := h.members group hgroup
      refine ⟨?_, hne⟩
      rw [hmembers, membersOf_filter_ne (hother group hgroup), membersOf_cons,
        if_neg (hother group hgroup).symm]
  · rw [flatten_cons, List.map_cons, List.cons_append, membersOf_map_pair]
    refine List.Perm.cons _ ((h.perm.append_left _).trans ?_)
    simpa using List.filter_append_perm (fun entry => decide (entry.2 = key)) entries

end Lib.Grouping
