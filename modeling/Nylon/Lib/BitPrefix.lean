import Mathlib.Data.BitVec
import Mathlib.Tactic

/-!
Prefixes of bit strings: agreement on the first bits, clearing of the bits after
a prefix, and the number of leading zeros as a bound on the agreement.
-/

namespace Lib.BitPrefix

variable {w n : Nat} {x a b : BitVec w}

/-- The two strings have the same first `n` bits. -/
def Agree (n : Nat) (a b : BitVec w) : Prop :=
  ∀ i < n, a.getMsbD i = b.getMsbD i

/-- The string with everything after its first `n` bits cleared. -/
def mask (n : Nat) (x : BitVec w) : BitVec w :=
  (x >>> (w - n)) <<< (w - n)

def leadingZeros (x : BitVec w) : Nat :=
  (List.range w).findIdx x.getMsbD

theorem Agree.symm (h : Agree n a b) : Agree n b a :=
  fun i hi => (h i hi).symm

theorem Agree.trans {c : BitVec w} (h : Agree n a b) (h' : Agree n b c) : Agree n a c :=
  fun i hi => (h i hi).trans (h' i hi)

theorem Agree.le {m : Nat} (h : Agree n a b) (hle : m ≤ n) : Agree m a b :=
  fun i hi => h i (by omega)

theorem agree_succ_iff : Agree (n + 1) a b ↔ Agree n a b ∧ a.getMsbD n = b.getMsbD n := by
  constructor
  · exact fun h => ⟨h.le (by omega), h n (by omega)⟩
  · rintro ⟨h, hn⟩ i hi
    rcases Nat.lt_succ_iff_lt_or_eq.mp hi with hi | rfl
    · exact h i hi
    · exact hn

theorem getMsbD_mask (x : BitVec w) (hn : n ≤ w) (i : Nat) :
    (mask n x).getMsbD i = (decide (i < n) && x.getMsbD i) := by
  unfold mask
  rw [BitVec.getMsbD_shiftLeft, BitVec.getMsbD_ushiftRight]
  by_cases hi : i < n
  · have hlt : i + (w - n) < w := by omega
    simp [hi, hlt]
  · have hge : ¬ i + (w - n) < w := by omega
    simp [hi, hge]

theorem mask_agree (x : BitVec w) (hn : n ≤ w) : Agree n (mask n x) x := by
  intro i hi
  simp [getMsbD_mask x hn, hi]

theorem mask_eq_mask_iff (hn : n ≤ w) : mask n a = mask n b ↔ Agree n a b := by
  constructor
  · intro h
    exact (mask_agree a hn).symm.trans (h ▸ mask_agree b hn)
  · intro h
    apply BitVec.eq_of_getMsbD_eq
    intro i _
    rw [getMsbD_mask a hn, getMsbD_mask b hn]
    by_cases hi : i < n
    · rw [h i hi]
    · simp [hi]

theorem mask_mask (x : BitVec w) (hn : n ≤ w) : mask n (mask n x) = mask n x :=
  (mask_eq_mask_iff hn).mpr (mask_agree x hn)

theorem le_leadingZeros_iff (hn : n ≤ w) :
    n ≤ leadingZeros x ↔ ∀ i < n, x.getMsbD i = false := by
  constructor
  · intro h i hi
    simpa using List.not_of_lt_findIdx (Nat.lt_of_lt_of_le hi h)
  · intro h
    unfold leadingZeros
    by_contra hlt
    have hlen : (List.range w).findIdx x.getMsbD < (List.range w).length := by
      rw [List.length_range]
      omega
    have hset := List.findIdx_getElem (w := hlen)
    rw [List.getElem_range, h _ (by omega)] at hset
    cases hset

/-- The leading zeros of the difference count the bits two strings share. -/
theorem le_leadingZeros_xor_iff (hn : n ≤ w) : n ≤ leadingZeros (a ^^^ b) ↔ Agree n a b := by
  rw [le_leadingZeros_iff hn]
  refine forall_congr' fun i => imp_congr_right fun _ => ?_
  simp [BitVec.getMsbD_xor]

theorem getMsbD_ne_of_leadingZeros_lt (h : leadingZeros (a ^^^ b) < w) :
    a.getMsbD (leadingZeros (a ^^^ b)) ≠ b.getMsbD (leadingZeros (a ^^^ b)) := by
  intro heq
  have hagree := (le_leadingZeros_xor_iff h.le).mp (le_refl (leadingZeros (a ^^^ b)))
  have hle := (le_leadingZeros_xor_iff h).mpr (agree_succ_iff.mpr ⟨hagree, heq⟩)
  omega

end Lib.BitPrefix
