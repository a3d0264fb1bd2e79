import Mathlib.Algebra.Order.Archimedean.Basic
import Mathlib.Algebra.Order.Field.Basic
import Mathlib.Data.List.MinMax
import Mathlib.Order.Lattice.Nat
import Mathlib.Order.WellFounded

/-!
Iterations that come to rest. The first rule is for a system that is ranked in a
well-founded order: if the rank never grows and falls with every step that is not
quiet, then only finitely many steps are not quiet. The second part is about maps
that move every value towards a target by a fixed factor, as an exponential
average does: each value is below a given bound above the target after finitely
many steps, and the number of steps that are left is a rank. The last rule is for
systems that take the cheapest of several things: ties go to the first one.
-/

namespace Lib.Settling

section Rank

variable {ρ : Type} [Preorder ρ] [WellFoundedLT ρ]

/-- A rank that never grows and falls with every step that is not quiet. -/
theorem eventually_quiet (rank : ℕ → ρ) {quiet : ℕ → Prop}
    (hrest : ∀ k, quiet k → rank (k + 1) ≤ rank k)
    (hmove : ∀ k, ¬ quiet k → rank (k + 1) < rank k) :
    ∃ K, ∀ k, K ≤ k → quiet k := by
  have hantitone : Antitone rank := by
    apply antitone_nat_of_succ_le
    intro k
    by_cases h : quiet k
    · exact hrest k h
    · exact (hmove k h).le
  obtain ⟨_, ⟨K, rfl⟩, hmin⟩ :=
    wellFounded_lt.has_min (Set.range rank) ⟨rank 0, Set.mem_range_self 0⟩
  refine ⟨K, fun k hk => ?_⟩
  by_contra h
  exact hmin (rank (k + 1)) (Set.mem_range_self _) ((hmove k h).trans_le (hantitone hk))

end Rank

section Approach

variable {𝕜 : Type} [Field 𝕜] [LinearOrder 𝕜] [IsStrictOrderedRing 𝕜]
  {next : 𝕜 → 𝕜} {target factor : 𝕜}

/-- One step shrinks the distance to the target by the factor. -/
def Approaches (next : 𝕜 → 𝕜) (target factor : 𝕜) : Prop :=
  ∀ x, |next x - target| ≤ factor * |x - target|

theorem Approaches.iterate (h : Approaches next target factor) (hfactor : 0 ≤ factor)
    (x : 𝕜) (j : ℕ) : |next^[j] x - target| ≤ factor ^ j * |x - target| := by
  induction j with
  | zero => simp
  | succ j ih =>
    rw [Function.iterate_succ_apply']
    calc |next (next^[j] x) - target| ≤ factor * |next^[j] x - target| := h _
      _ ≤ factor * (factor ^ j * |x - target|) := mul_le_mul_of_nonneg_left ih hfactor
      _ = factor ^ (j + 1) * |x - target| := by rw [pow_succ']; ring

/-- Every value gets below a bound that the target is below. -/
theorem Approaches.exists_lt [Archimedean 𝕜] (h : Approaches next target factor)
    (hfactor : 0 ≤ factor) (hone : factor < 1) {bound : 𝕜} (hbound : target < bound)
    (x : 𝕜) : ∃ j, next^[j] x < bound := by
  have hdist : 0 < |x - target| + 1 := by positivity
  obtain ⟨j, hj⟩ := exists_pow_lt_of_lt_one (div_pos (sub_pos.mpr hbound) hdist) hone
  refine ⟨j, ?_⟩
  have hpow : factor ^ j * (|x - target| + 1) < bound - target := (lt_div_iff₀ hdist).mp hj
  have hle : factor ^ j * |x - target| ≤ factor ^ j * (|x - target| + 1) :=
    mul_le_mul_of_nonneg_left (by linarith) (pow_nonneg hfactor j)
  have hnear := (le_abs_self _).trans (h.iterate hfactor x j)
  linarith

/-- A value below such a bound stays there. -/
theorem Approaches.lt_of_lt (h : Approaches next target factor) (hone : factor < 1)
    {bound x : 𝕜} (hbound : target < bound) (hx : x < bound)
    (hbetween : x ≤ target → next x ≤ target) : next x < bound := by
  rcases le_or_gt x target with hbelow | habove
  · exact (hbetween hbelow).trans_lt hbound
  · have hstep := (le_abs_self _).trans (h x)
    rw [abs_of_pos (sub_pos.mpr habove)] at hstep
    have hshrink : factor * (x - target) ≤ x - target :=
      mul_le_of_le_one_left (sub_pos.mpr habove).le hone.le
    linarith

end Approach

section StepsBelow

variable {α : Type} [LT α] (next : α → α) (bound : α)

/-- The number of steps until a value is below the bound. -/
noncomputable def stepsBelow (x : α) : ℕ := sInf {j | next^[j] x < bound}

variable {next bound}

theorem stepsBelow_eq_zero {x : α} (h : x < bound) : stepsBelow next bound x = 0 :=
  Nat.sInf_eq_zero.mpr (Or.inl h)

theorem stepsBelow_next_lt {x : α} (hreaches : ∃ j, next^[j] x < bound)
    (hx : ¬ x < bound) : stepsBelow next bound (next x) < stepsBelow next bound x := by
  have hmem : next^[stepsBelow next bound x] x < bound := Nat.sInf_mem hreaches
  cases hsteps : stepsBelow next bound x with
  | zero =>
    rw [hsteps] at hmem
    exact absurd hmem hx
  | succ j =>
    rw [hsteps, Function.iterate_succ_apply] at hmem
    exact Nat.lt_succ_of_le (Nat.sInf_le hmem)

/-- If the values below the bound stay there, the number never grows. -/
theorem stepsBelow_next_le {x : α} (hreaches : ∃ j, next^[j] x < bound)
    (hstays : x < bound → next x < bound) :
    stepsBelow next bound (next x) ≤ stepsBelow next bound x := by
  by_cases hx : x < bound
  · rw [stepsBelow_eq_zero (hstays hx)]
    exact Nat.zero_le _
  · exact (stepsBelow_next_lt hreaches hx).le

end StepsBelow

/-- The element that is taken comes before all others that are as good. -/
theorem argmin_first {α β : Type} [LinearOrder β] {f : α → β} {l : List α}
    {before : α → α → Prop} (hl : l.Pairwise before) {m a : α} (hm : m ∈ l.argmin f)
    (ha : a ∈ l) : a = m ∨ f m < f a ∨ f m = f a ∧ before m a := by
  classical
  rcases (List.le_of_mem_argmin ha hm).lt_or_eq with hlt | heq
  · exact Or.inr (Or.inl hlt)
  · rcases (List.index_of_argmin hm ha heq.ge).lt_or_eq with hbefore | hsame
    · refine Or.inr (Or.inr ⟨heq, ?_⟩)
      have horder := List.pairwise_iff_getElem.mp hl _ _
        (List.idxOf_lt_length_of_mem (List.argmin_mem hm))
        (List.idxOf_lt_length_of_mem ha) hbefore
      simpa only [List.getElem_idxOf] using horder
    · exact Or.inl ((List.idxOf_inj ha).mp hsame.symm)

end Lib.Settling
