import Mathlib.Data.List.MinMax
import Mathlib.Data.Prod.Lex

/-!
Comparison functions that return a negative number, zero or a positive one, as `cmp.Compare`
of Go. Comparing by one criterion after the other is comparing the keys in the
lexicographic order. The first least element of a list heads the list once it is sorted
stably.
-/

namespace Lib

open List

section Compare

variable {α β : Type} [LinearOrder α] [LinearOrder β]

/-- `cmp.Compare`. -/
def compareOf (a b : α) : Int :=
  if a < b then -1 else if b < a then 1 else 0

theorem compareOf_eq_zero_iff {a b : α} : compareOf a b = 0 ↔ a = b := by
  unfold compareOf
  rcases lt_trichotomy a b with h | h | h
  · simp [h, h.ne]
  · simp [h]
  · simp [h, h.not_gt, h.ne']

theorem compareOf_neg_iff {a b : α} : compareOf a b < 0 ↔ a < b := by
  unfold compareOf
  rcases lt_trichotomy a b with h | h | h
  · simp [h]
  · simp [h]
  · simp [h, h.not_gt]

theorem compareOf_nonpos_iff {a b : α} : compareOf a b ≤ 0 ↔ a ≤ b := by
  rw [le_iff_lt_or_eq, le_iff_lt_or_eq, compareOf_neg_iff, compareOf_eq_zero_iff]

theorem compareOf_swap (a b : α) : compareOf b a = -compareOf a b := by
  unfold compareOf
  rcases lt_trichotomy a b with h | h | h
  · simp [h, h.not_gt]
  · simp [h]
  · simp [h, h.not_gt]

/-- The second criterion decides where the first one does not. -/
theorem compareOf_toLex (a a' : α) (b b' : β) : compareOf (toLex (a, b)) (toLex (a', b')) =
      if compareOf a a' ≠ 0 then compareOf a a' else compareOf b b' := by
  unfold compareOf
  simp only [Prod.Lex.toLex_lt_toLex]
  rcases lt_trichotomy a a' with h | h | h
  · simp [h]
  · simp [h]
  · simp [h, h.not_gt, h.ne']

end Compare

section FirstLeast

variable {α β : Type} [LinearOrder β] {f : α → β} {l : List α}

/-- If some elements come before all others in the order, the first least element is found
among them. -/
theorem argmin_filter {p : α → Bool}
    (hbelow : ∀ a ∈ l, ∀ b ∈ l, p a = true → p b = false → f a < f b)
    (hsome : l.filter p ≠ []) : (l.filter p).argmin f = l.argmin f := by
  induction l with
  | nil => exact absurd rfl hsome
  | cons a l ih =>
    have hrest : l.filter p ≠ [] → (l.filter p).argmin f = l.argmin f :=
      ih fun x hx y hy => hbelow x (mem_cons_of_mem _ hx) y (mem_cons_of_mem _ hy)
    cases hp : p a with
    | true =>
      rw [filter_cons_of_pos hp, argmin_cons, argmin_cons]
      by_cases hempty : l.filter p = []
      · rw [hempty, argmin_nil]
        cases hleast : l.argmin f with
        | none => rfl
        | some c =>
          have hc : c ∈ l := argmin_mem hleast
          have hout : p c = false := by
            simpa using filter_eq_nil_iff.mp hempty c hc
          have hlt := hbelow a mem_cons_self c (mem_cons_of_mem _ hc) hp hout
          simp only [if_neg hlt.not_gt]
      · rw [hrest hempty]
    | false =>
      rw [filter_cons_of_neg (by rw [hp]; exact Bool.false_ne_true)] at hsome ⊢
      rw [hrest hsome, argmin_cons]
      cases hleast : l.argmin f with
      | none =>
        rw [← hrest hsome, argmin_eq_none] at hleast
        exact absurd hleast hsome
      | some c =>
        rw [← hrest hsome] at hleast
        obtain ⟨hc, hin⟩ := mem_filter.mp (argmin_mem hleast)
        have hlt := hbelow c (mem_cons_of_mem _ hc) a mem_cons_self hin hp
        simp only [if_pos hlt]

theorem argmin_congr {γ : Type} [LinearOrder γ] {g : α → γ}
    (h : ∀ a ∈ l, ∀ b ∈ l, f a < f b ↔ g a < g b) : l.argmin f = l.argmin g := by
  induction l with
  | nil => rw [argmin_nil, argmin_nil]
  | cons a l ih =>
    rw [argmin_cons, argmin_cons,
      ih fun x hx y hy => h x (mem_cons_of_mem _ hx) y (mem_cons_of_mem _ hy)]
    cases hleast : l.argmin g with
    | none => rfl
    | some c =>
      exact if_congr (h c (mem_cons_of_mem _ (argmin_mem hleast)) a mem_cons_self) rfl rfl

/-- The first least element is less than those before it, and not greater than those after
it. -/
theorem argmin_eq_some_iff_append {a : α} :
    l.argmin f = some a ↔ ∃ front back, l = front ++ a :: back ∧ (∀ b ∈ front, f a < f b) ∧
      ∀ b ∈ back, f a ≤ f b := by
  induction l with
  | nil => simp
  | cons b l ih =>
    rw [argmin_cons]
    constructor
    · intro hleast
      cases hrest : l.argmin f with
      | none =>
        rw [argmin_eq_none] at hrest
        subst hrest
        cases hleast
        exact ⟨[], [], rfl, nofun, nofun⟩
      | some c =>
        rw [hrest] at hleast
        by_cases hlt : f c < f b
        · simp only [if_pos hlt] at hleast
          cases hleast
          obtain ⟨front, back, rfl, hfront, hback⟩ := ih.mp hrest
          exact ⟨b :: front, back, rfl, forall_mem_cons.mpr ⟨hlt, hfront⟩, hback⟩
        · simp only [if_neg hlt] at hleast
          cases hleast
          refine ⟨[], l, rfl, nofun, fun d hd => ?_⟩
          exact (not_lt.mp hlt).trans (le_of_mem_argmin hd hrest)
    · rintro ⟨front, back, hsplit, hfront, hback⟩
      cases front with
      | nil =>
        cases hsplit
        cases hrest : l.argmin f with
        | none => rfl
        | some c => exact if_neg (hback c (argmin_mem hrest)).not_gt
      | cons d front =>
        cases hsplit
        obtain ⟨hd, hfront⟩ := forall_mem_cons.mp hfront
        rw [ih.mpr ⟨front, back, rfl, hfront, hback⟩]
        exact if_pos hd

/-- One iteration of a scan that keeps the first least element and its value. -/
theorem argmin_concat_of_best {best : Option α} {value : β}
    (hbest : best = l.argmin f) (hvalue : ∀ b ∈ best, value = f b) (a : α) [DecidableEq α] :
    (if best = none ∨ f a < value then some a else best) = (l ++ [a]).argmin f ∧
      ∀ b ∈ (if best = none ∨ f a < value then some a else best),
        (if best = none ∨ f a < value then f a else value) = f b := by
  rw [argmin_concat, ← hbest]
  cases best with
  | none => simp
  | some c =>
    rw [hvalue c rfl]
    by_cases hlt : f a < f c
    · simp [hlt]
    · simp [hlt]

/-- A second criterion does not change the first least element, if that one is least by it
among those that are equal by the first. -/
theorem argmin_toLex_iff {γ : Type} [LinearOrder γ] {g : α → γ} {a : α} (h : l.argmin f = some a) :
    l.argmin (fun b => toLex (f b, g b)) = some a ↔ ∀ b ∈ l, f b = f a → g a ≤ g b := by
  constructor
  · intro hboth b hb heq
    have hle := le_of_mem_argmin hb hboth
    rw [Prod.Lex.toLex_le_toLex] at hle
    obtain hlt | ⟨_, hle⟩ := hle
    · exact absurd hlt heq.symm.not_lt
    · exact hle
  · intro hties
    obtain ⟨front, back, rfl, hfront, hback⟩ := argmin_eq_some_iff_append.mp h
    refine argmin_eq_some_iff_append.mpr ⟨front, back, rfl, fun b hb => ?_, fun b hb => ?_⟩
    · exact Prod.Lex.toLex_lt_toLex.mpr (.inl (hfront b hb))
    · rw [Prod.Lex.toLex_le_toLex]
      obtain hlt | heq := (hback b hb).lt_or_eq
      · exact .inl hlt
      · exact .inr ⟨heq, hties b (by simp [hb]) heq.symm⟩

theorem head?_mergeSort (l : List α) : (l.mergeSort fun a b => f a ≤ f b).head? = l.argmin f := by
  have htrans : ∀ a b c : α, decide (f a ≤ f b) = true → decide (f b ≤ f c) = true →
      decide (f a ≤ f c) = true := by
    intro a b c hab hbc
    exact decide_eq_true ((of_decide_eq_true hab).trans (of_decide_eq_true hbc))
  have htotal : ∀ a b : α, (decide (f a ≤ f b) || decide (f b ≤ f a)) = true := by
    intro a b
    simpa using le_total (f a) (f b)
  induction l with
  | nil => rw [mergeSort_nil, head?_nil, argmin_nil]
  | cons a l ih =>
    obtain ⟨front, back, hsort, hrest, hfront⟩ := mergeSort_cons htrans htotal a l
    rw [argmin_cons, ← ih, hsort, hrest]
    cases front with
    | nil =>
      cases back with
      | nil => rfl
      | cons b back =>
        -- the list is sorted, so that the new element comes before its first one
        have hsorted := pairwise_mergeSort htrans htotal (a :: l)
        rw [hsort] at hsorted
        have hle := of_decide_eq_true (rel_of_pairwise_cons hsorted mem_cons_self)
        exact (if_neg hle.not_gt).symm
    | cons b front =>
      have hlt : f b < f a := by simpa using hfront b mem_cons_self
      exact (if_pos hlt).symm

end FirstLeast

end Lib
