import Nylon.State.Routing

/-!
Metric and sequence number arithmetic (`core/utils.go`). Metrics saturate at
`INFM` and `INF` absorbs. Sequence numbers are compared modulo `2 ^ 16`; inside
a window shorter than `2 ^ 15` this comparison is the order of the offsets
from the start of the window.
-/

namespace Nylon.Core

open State

instance : LinearOrder Metric where
  le_refl := UInt32.le_refl
  le_trans _ _ _ := UInt32.le_trans
  le_antisymm _ _ := UInt32.le_antisymm
  le_total := UInt32.le_total
  lt_iff_le_not_ge a b := by
    rw [UInt32.not_le]
    exact ⟨fun h => ⟨UInt32.le_of_lt h, h⟩, fun h => h.2⟩
  toDecidableLE := inferInstance
  toDecidableLT := inferInstance

def addMetric (a b : Metric) : Metric :=
  if a = INF ∨ b = INF then INF
  else UInt32.ofNat (min INFM.toNat (a.toNat + b.toNat))

def seqnoLt (a b : UInt16) : Bool :=
  let x := b - a
  0 < x && x < 32768

def seqnoLe (a b : UInt16) : Bool := a == b || seqnoLt a b

def seqnoGt (a b : UInt16) : Bool := !seqnoLe a b

def seqnoGe (a b : UInt16) : Bool := !seqnoLt a b

theorem INF_toNat : INF.toNat = 2 ^ 32 - 1 := rfl

theorem INFM_toNat : INFM.toNat = 2 ^ 32 - 2 := rfl

theorem ne_INF_iff (m : Metric) : m ≠ INF ↔ m.toNat ≤ 2 ^ 32 - 2 := by
  rw [← UInt32.toNat_inj.ne, INF_toNat]
  have := m.toNat_lt
  omega

theorem le_INF (m : Metric) : m ≤ INF := by
  rw [UInt32.le_iff_toNat_le, INF_toNat]
  have := m.toNat_lt
  omega

theorem lt_INF_iff (m : Metric) : m < INF ↔ m ≠ INF := by
  rw [ne_INF_iff, UInt32.lt_iff_toNat_lt, INF_toNat]
  omega

/-- Two finite metrics add up exactly, as long as the sum stays below `INFM`. -/
theorem addMetric_toNat {a b : Metric} (ha : a ≠ INF) (hb : b ≠ INF) :
    (addMetric a b).toNat = min INFM.toNat (a.toNat + b.toNat) := by
  have hbound : min INFM.toNat (a.toNat + b.toNat) < 2 ^ 32 := by
    rw [INFM_toNat]
    omega
  simp only [addMetric, ha, hb, or_self, if_false]
  exact UInt32.toNat_ofNat_of_lt' hbound

theorem addMetric_eq_INF_iff (a b : Metric) : addMetric a b = INF ↔ a = INF ∨ b = INF := by
  constructor
  · intro h
    by_contra hfinite
    push Not at hfinite
    have hsum := addMetric_toNat hfinite.1 hfinite.2
    rw [h, INF_toNat, INFM_toNat] at hsum
    omega
  · intro h
    simp [addMetric, h]

theorem addMetric_ne_INF_iff (a b : Metric) : addMetric a b ≠ INF ↔ a ≠ INF ∧ b ≠ INF := by
  rw [Ne, addMetric_eq_INF_iff, not_or]

theorem le_addMetric_right (a b : Metric) : b ≤ addMetric a b := by
  by_cases h : a = INF ∨ b = INF
  · rw [(addMetric_eq_INF_iff a b).mpr h]
    exact le_INF b
  · push Not at h
    have hb := (ne_INF_iff b).mp h.2
    rw [UInt32.le_iff_toNat_le, addMetric_toNat h.1 h.2, INFM_toNat]
    omega

/-- The position of a sequence number in the window that starts at `base`. -/
def seqnoOffset (base seqno : UInt16) : Nat := (seqno - base).toNat

def InWindow (base seqno : UInt16) : Prop := seqnoOffset base seqno < 2 ^ 15

instance (base seqno : UInt16) : Decidable (InWindow base seqno) :=
  inferInstanceAs (Decidable (_ < _))

theorem seqnoOffset_inj {base a b : UInt16} : seqnoOffset base a = seqnoOffset base b ↔ a = b := by
  unfold seqnoOffset
  rw [UInt16.toNat_inj, UInt16.sub_left_inj]

theorem seqnoLt_iff_offset {base a b : UInt16} (ha : InWindow base a) (hb : InWindow base b) :
    seqnoLt a b = true ↔ seqnoOffset base a < seqnoOffset base b := by
  unfold InWindow seqnoOffset at *
  simp only [seqnoLt, Bool.and_eq_true, decide_eq_true_eq]
  rw [UInt16.lt_iff_toNat_lt, UInt16.lt_iff_toNat_lt]
  simp only [UInt16.toNat_sub, UInt16.toNat_ofNat] at *
  have := a.toNat_lt
  have := b.toNat_lt
  have := base.toNat_lt
  omega

end Nylon.Core
