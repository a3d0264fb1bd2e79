import Mathlib.Data.List.Pairwise
import Mathlib.Data.List.Sort
import Mathlib.Data.List.Forall2
import Mathlib.Data.List.MinMax

/-!
Sorting two lists of related elements. If a relation survives an exchange, as being
within a distance of each other does, it holds between elements of the same rank once
both lists are sorted. The first least element of a list is found through an image of
the list.
-/

namespace Lib

open List

variable {α β : Type} [LinearOrder α] [LinearOrder β]

/-- Two related pairs in opposite orders are related crosswise. -/
def Exchanges (R : α → β → Prop) : Prop :=
  ∀ a a' b b', a ≤ a' → b' ≤ b → R a b → R a' b' → R a b' ∧ R a' b

variable {R : α → β → Prop}

theorem orderedInsert_least {a : α} {as : List α} (h : (a :: as).Pairwise (· ≤ ·)) :
    as.orderedInsert (· ≤ ·) a = a :: as := by
  cases as with
  | nil => rfl
  | cons a' as => exact orderedInsert_cons_of_le _ _ (rel_of_pairwise_cons h mem_cons_self)

theorem Exchanges.orderedInsert (hR : Exchanges R) {a : α} {b : β} {as : List α}
    {bs : List β} (has : as.Pairwise (· ≤ ·)) (hbs : bs.Pairwise (· ≤ ·)) (hab : R a b)
    (h : Forall₂ R as bs) :
    Forall₂ R (as.orderedInsert (· ≤ ·) a) (bs.orderedInsert (· ≤ ·) b) := by
  induction h generalizing a b with
  | nil => exact .cons hab .nil
  | @cons a' b' as bs hfirst hrest ih =>
    rcases le_or_gt a a' with ha | ha <;> rcases le_or_gt b b' with hb | hb
    · rw [orderedInsert_cons_of_le _ _ ha, orderedInsert_cons_of_le _ _ hb]
      exact .cons hab (.cons hfirst hrest)
    · -- the second list goes on with what it held, the first one with what is inserted
      obtain ⟨hleft, hright⟩ := hR a a' b b' ha hb.le hab hfirst
      rw [orderedInsert_cons_of_le _ _ ha, orderedInsert_of_not_le _ _ hb.not_ge,
        ← orderedInsert_least has]
      exact .cons hleft (ih has.of_cons hbs.of_cons hright)
    · obtain ⟨hleft, hright⟩ := hR a' a b' b ha.le hb hfirst hab
      rw [orderedInsert_of_not_le _ _ ha.not_ge, orderedInsert_cons_of_le _ _ hb,
        ← orderedInsert_least hbs]
      exact .cons hleft (ih has.of_cons hbs.of_cons hright)
    · rw [orderedInsert_of_not_le _ _ ha.not_ge, orderedInsert_of_not_le _ _ hb.not_ge]
      exact .cons hfirst (ih has.of_cons hbs.of_cons hab)

theorem Exchanges.insertionSort (hR : Exchanges R) {as : List α} {bs : List β}
    (h : Forall₂ R as bs) :
    Forall₂ R (as.insertionSort (· ≤ ·)) (bs.insertionSort (· ≤ ·)) := by
  induction h with
  | nil => exact .nil
  | cons hfirst _ ih =>
    exact hR.orderedInsert (pairwise_insertionSort _ _) (pairwise_insertionSort _ _) hfirst ih

/-- Values of a sorted list are ordered as their indices. -/
theorem getElem?_le_of_sorted {l : List α} (h : l.Pairwise (· ≤ ·)) {i j : Nat} {a b : α}
    (hij : i ≤ j) (ha : l[i]? = some a) (hb : l[j]? = some b) : a ≤ b := by
  obtain ⟨hi, rfl⟩ := List.getElem?_eq_some_iff.mp ha
  obtain ⟨hj, rfl⟩ := List.getElem?_eq_some_iff.mp hb
  exact h.rel_get_of_le (a := ⟨i, hi⟩) (b := ⟨j, hj⟩) hij

theorem argmin_map {γ δ : Type} (l : List γ) (g : γ → δ) (f : δ → α) :
    (l.map g).argmin f = (l.argmin fun c => f (g c)).map g := by
  unfold List.argmin
  rw [foldl_map]
  change foldl _ (Option.map g none) _ = _
  apply foldl_hom (Option.map g)
  intro cur c
  cases cur with
  | none => rfl
  | some cur =>
    change (if f (g c) < f (g cur) then _ else _) =
      Option.map g (if f (g c) < f (g cur) then _ else _)
    split <;> rfl

end Lib
