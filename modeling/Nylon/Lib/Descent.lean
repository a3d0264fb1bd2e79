import Mathlib.Logic.Relation
import Mathlib.Order.Basic

/-!
Acyclicity of a changing graph by ordered labels. Every node carries a label
from a preorder and labels never increase along an edge. When one node replaces
its out-edges, and every new edge leads strictly below the node's own label,
no cycle can appear, although the labels along the old edges may all be equal.
-/

namespace Lib.Descent

open Relation

variable {N D : Type*}

def Acyclic (E : N → N → Prop) : Prop :=
  ∀ a, ¬ TransGen E a a

/-- A path of the new graph either avoids the out-edges of `a`, and then it was
there before, or it passes through `a`. -/
theorem path_avoids_or_visits {E E' : N → N → Prop} (a : N)
    (hkeep : ∀ x y, x ≠ a → E' x y → E x y) {x y : N}
    (hpath : TransGen E' x y) :
    TransGen E x y ∨ (ReflTransGen E' x a ∧ TransGen E' a y) := by
  induction hpath with
  | @single y hedge =>
    by_cases hx : x = a
    · subst hx
      exact Or.inr ⟨.refl, .single hedge⟩
    · exact Or.inl (.single (hkeep x y hx hedge))
  | @tail y z hpath hedge ih =>
    by_cases hy : y = a
    · subst hy
      exact Or.inr ⟨hpath.to_reflTransGen, .single hedge⟩
    · rcases ih with hold | ⟨hto, hfrom⟩
      · exact Or.inl (hold.tail (hkeep y z hy hedge))
      · exact Or.inr ⟨hto, hfrom.tail hedge⟩

variable [Preorder D]

/-- Everything from which `a` can still be reached is labelled at least like
`a`: an edge out of `a` itself needs no argument, all others are old. -/
theorem label_le_of_reaches {E E' : N → N → Prop} {label : N → D} (a : N)
    (hlabel : ∀ x y, E x y → label y ≤ label x)
    (hkeep : ∀ x y, x ≠ a → E' x y → E x y) {x : N}
    (hpath : ReflTransGen E' x a) : label a ≤ label x := by
  induction hpath using ReflTransGen.head_induction_on with
  | refl => exact le_refl _
  | @head x y hedge _ ih =>
    by_cases hx : x = a
    · subst hx
      exact le_refl _
    · exact ih.trans (hlabel x y (hkeep x y hx hedge))

/-- Replacing the out-edges of `a` by edges that lead strictly below the label
of `a` keeps the graph acyclic. -/
theorem acyclic_replace {E E' : N → N → Prop} {label : N → D} (a : N) (hacyclic : Acyclic E)
    (hlabel : ∀ x y, E x y → label y ≤ label x)
    (hkeep : ∀ x y, x ≠ a → E' x y → E x y)
    (hnew : ∀ y, E' a y → label y < label a) : Acyclic E' := by
  intro x hcycle
  rcases path_avoids_or_visits a hkeep hcycle with hold | ⟨hto, hfrom⟩
  · exact hacyclic x hold
  · have hloop : TransGen E' a a := hfrom.trans_left hto
    obtain ⟨y, hedge, hback⟩ := TransGen.head'_iff.mp hloop
    have hle := label_le_of_reaches a hlabel hkeep hback
    exact absurd (hnew y hedge) (not_lt_of_ge hle)

end Lib.Descent
