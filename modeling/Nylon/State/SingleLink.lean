import Nylon.State.LinkCost

/-!
The cost of a neighbour with a single active link. `LinkCost` couples the losses of the two
directions, and a single link stands for both of them; so its loss, which was measured
over the round trip, is counted twice.
-/

namespace Nylon.State

open Lib List

/-- The expected delivery time with a loss. -/
def expectedTime (t : CostTunables) (base : Time) (p : ℚ) : Time :=
  base + truncate ((base + t.lossRetxFloor : Time) * (p / (1 - p)))

theorem etxMetric_eq (t : CostTunables) (base : Time) {p : ℚ} (hp : 0 ≤ p) :
    etxMetric base p t = durationToMetric (expectedTime t base p) := by
  unfold etxMetric expectedTime
  split
  · next hle =>
      have hzero : p = 0 := le_antisymm hle hp
      simp [hzero, truncate]
  · rfl

theorem truncate_mono {q r : ℚ} (hq : 0 ≤ q) (hqr : q ≤ r) : truncate q ≤ truncate r := by
  rw [truncate_of_nonneg hq, truncate_of_nonneg (hq.trans hqr)]
  exact Int.floor_le_floor hqr

section

variable {t : CostTunables} {base : Time} (hbase : 0 ≤ base) (hfloor : 0 ≤ t.lossRetxFloor)

include hbase hfloor

theorem expectedTime_mono {p q : ℚ} (hp : 0 ≤ p) (hpq : p ≤ q) (hq : q < 1) :
    expectedTime t base p ≤ expectedTime t base q := by
  have hsum : (0 : ℚ) ≤ (base + t.lossRetxFloor : Time) := by exact_mod_cast add_nonneg hbase hfloor
  have hodds : p / (1 - p) ≤ q / (1 - q) := by
    rw [div_le_div_iff₀ (by linarith) (by linarith)]
    nlinarith
  have hodds' : 0 ≤ p / (1 - p) := div_nonneg hp (by linarith)
  unfold expectedTime
  have hextra := truncate_mono (mul_nonneg hsum hodds') (mul_le_mul_of_nonneg_left hodds hsum)
  exact Int.add_le_add_left hextra base

theorem expectedTime_nonneg {p : ℚ} (hp : 0 ≤ p) (hp' : p < 1) : 0 ≤ expectedTime t base p := by
  have hzero : expectedTime t base 0 = base := by simp [expectedTime, truncate]
  have hmono := expectedTime_mono hbase hfloor le_rfl hp hp'
  rw [hzero] at hmono
  exact hbase.trans hmono

end

theorem toNat_ofInt32 {x : Int} (h : 0 ≤ x) (h' : x < 2 ^ 32) :
    ((UInt32.ofInt x).toNat : Int) = x := by
  unfold UInt32.ofInt
  rw [Int.emod_eq_of_lt h h', UInt32.toNat_ofNat_of_lt', Int.toNat_of_nonneg h]
  show x.toNat < 2 ^ 32
  omega

theorem toNat_ofInt64 {x : Int} (h : 0 ≤ x) (h' : x < 2 ^ 64) :
    ((UInt64.ofInt x).toNat : Int) = x := by
  unfold UInt64.ofInt
  rw [Int.emod_eq_of_lt h h', UInt64.toNat_ofNat_of_lt', Int.toNat_of_nonneg h]
  show x.toNat < 2 ^ 64
  omega

theorem microseconds_nonneg {d : Time} (hd : 0 ≤ d) : 0 ≤ microseconds d :=
  Int.tdiv_nonneg hd (by decide)

theorem microseconds_le {d : Time} (hd : 0 ≤ d) : microseconds d ≤ d :=
  Int.tdiv_le_self 1000 hd

theorem toNat_durationToMetric {d : Time} (hd : 0 ≤ d) (hmax : d ≠ maxInt64) :
    ((durationToMetric d).toNat : Int) = min (microseconds d) INFM.toNat := by
  have hINF : (INF.toNat : Int) = 4294967295 := rfl
  have hINFM : (INFM.toNat : Int) = 4294967294 := rfl
  have hmicro := microseconds_nonneg hd
  rw [durationToMetric, if_neg hmax, toNat_ofInt32]
  · omega
  · omega
  · omega

/-- What is charged for a duration and a cost. -/
theorem toNat_addMetricCost {d c : Time} (hd : 0 ≤ d) (hc : 0 ≤ c) (hc' : c ≤ maxInt64) :
    ((addMetricCost (durationToMetric d) c).toNat : Int) =
      if d = maxInt64 then (INF.toNat : Int)
      else min (microseconds d + microseconds c) INFM.toNat := by
  by_cases hmax : d = maxInt64
  · rw [if_pos hmax, durationToMetric, if_pos hmax, addMetricCost, if_pos rfl]
  · have hINFM : (INFM.toNat : Int) = 4294967294 := rfl
    have hmetric := toNat_durationToMetric hd hmax
    have hne : durationToMetric d ≠ INF := by
      intro heq
      have hINF : (INF.toNat : Int) = 4294967295 := rfl
      rw [heq] at hmetric
      omega
    have hmicro := microseconds_nonneg hd
    have hcost := microseconds_nonneg hc
    have hcost' : microseconds c < 2 ^ 63 :=
      (microseconds_le hc).trans_lt (lt_of_le_of_lt hc' (by decide))
    have hcost64 := toNat_ofInt64 hcost (by omega)
    rw [if_neg hmax, addMetricCost, if_neg hne, UInt64.toNat_toUInt32, UInt64.toNat_min,
      UInt64.toNat_add, UInt32.toNat_toUInt64, UInt32.toNat_toUInt64]
    omega

/-- The same is charged for two durations, exactly if they have the same whole microseconds
or already the shorter one is beyond the greatest metric. -/
theorem addMetricCost_eq_iff {d e c : Time} (hd : 0 ≤ d) (hde : d ≤ e) (hc : 0 ≤ c)
    (hc' : c ≤ maxInt64) :
    addMetricCost (durationToMetric e) c = addMetricCost (durationToMetric d) c ↔
      d = e ∨ d ≠ maxInt64 ∧ e ≠ maxInt64 ∧
        (microseconds d = microseconds e ∨
          (INFM.toNat : Int) ≤ microseconds d + microseconds c) := by
  have hINF : (INF.toNat : Int) = 4294967295 := rfl
  have hINFM : (INFM.toNat : Int) = 4294967294 := rfl
  have hcharged := toNat_addMetricCost hd hc hc'
  have hcharged' := toNat_addMetricCost (hd.trans hde) hc hc'
  have hmono : microseconds d ≤ microseconds e := Int.tdiv_le_tdiv (by decide) hde
  rw [← UInt32.toNat_inj]
  by_cases hmax : d = maxInt64 <;> by_cases hmax' : e = maxInt64
  · exact iff_of_true (by rw [hmax, hmax']) (.inl (hmax.trans hmax'.symm))
  · rw [if_pos hmax] at hcharged
    rw [if_neg hmax'] at hcharged'
    refine iff_of_false (by omega) ?_
    rintro (heq | ⟨hne, _⟩)
    · exact hmax' (heq.symm.trans hmax)
    · exact hne hmax
  · rw [if_neg hmax] at hcharged
    rw [if_pos hmax'] at hcharged'
    refine iff_of_false (by omega) ?_
    rintro (heq | ⟨_, hne, _⟩)
    · exact hmax (heq.trans hmax')
    · exact hne hmax'
  · rw [if_neg hmax] at hcharged
    rw [if_neg hmax'] at hcharged'
    constructor
    · intro heq
      exact .inr ⟨hmax, hmax', by omega⟩
    · rintro (rfl | ⟨_, _, hsame⟩)
      · rfl
      · omega

theorem active_of_only {eps : List Endpoint} {nep : MeasuredLink}
    (honly : eps.filter Endpoint.isActive = [.nylon nep]) : nep.active = true := by
  have hmem : Endpoint.nylon nep ∈ eps.filter Endpoint.isActive := by
    rw [honly]
    exact mem_singleton_self _
  exact (mem_filter.mp hmem).2

/-- The only active link of a neighbour stands for both directions. -/
theorem linkCost_single {eps : List Endpoint} {nep : MeasuredLink} {delays : Time × Time}
    (honly : eps.filter Endpoint.isActive = [.nylon nep]) (hready : nep.relDelays = some delays) :
    linkCost eps = coupledCost nep nep := by
  have hlinks : readyLinks eps = [nep] := by
    obtain ⟨scores, hscores⟩ := dirScores_of_delays hready
    have hmap : (readyLinks eps).map Endpoint.nylon = [nep].map Endpoint.nylon := by
      rw [← filter_ready, honly,
        filter_cons_of_pos (by simp [Endpoint.outboundScore, hscores]), filter_nil]
      rfl
    exact map_injective_iff.mpr (fun _ _ => Endpoint.nylon.inj) hmap
  have hsome : readyLinks eps ≠ [] := by
    rw [hlinks]
    exact cons_ne_nil _ _
  obtain ⟨outEp, inEp, _, hout, hin, hcost⟩ := linkCost_eq hsome
  rw [hlinks, argmin_singleton] at hout hin
  cases hout
  cases hin
  exact hcost

/-- With a single active link the cost is the metric of the link with its transport cost,
exactly if counting the loss a second time does not show in the metric. -/
theorem linkCost_single_iff {eps : List Endpoint} {nep : MeasuredLink} {out inb : Time}
    (honly : eps.filter Endpoint.isActive = [.nylon nep])
    (hready : nep.relDelays = some (out, inb)) (hping : out + inb ≠ 0)
    (hloss : 0 ≤ nep.lossRate) (hclamped : nep.lossRate ≤ nep.t.lossCap)
    (hcap : nep.t.lossCap < 1) (hfloor : 0 ≤ nep.t.lossRetxFloor)
    (hcost : 0 ≤ nep.endpointCost) (hcost' : nep.endpointCost ≤ maxInt64) :
    let base := max (out + inb) minLinkDelay
    let once := expectedTime nep.t base nep.lossRate
    let twice := expectedTime nep.t base
      (min (1 - (1 - nep.lossRate) * (1 - nep.lossRate)) nep.t.lossCap)
    linkCost eps = addMetricCost nep.metric nep.endpointCost ↔
      once = twice ∨ once ≠ maxInt64 ∧ twice ≠ maxInt64 ∧
        (microseconds once = microseconds twice ∨
          (INFM.toNat : Int) ≤ microseconds once + microseconds nep.endpointCost) := by
  intro base once twice
  have hactive := active_of_only honly
  have hbase : 0 ≤ base := le_max_of_le_right (by decide)
  have hboth : nep.lossRate ≤ min (1 - (1 - nep.lossRate) * (1 - nep.lossRate)) nep.t.lossCap :=
    le_min (by nlinarith) hclamped
  have hboth' : min (1 - (1 - nep.lossRate) * (1 - nep.lossRate)) nep.t.lossCap < 1 :=
    (min_le_right _ _).trans_lt hcap
  have honce : nep.metric = durationToMetric once := by
    unfold MeasuredLink.metric MeasuredLink.stabilizedPing
    rw [hactive, hready]
    simp only [Bool.not_true, Bool.false_eq_true, if_false, if_neg hping]
    exact etxMetric_eq nep.t base hloss
  have htwice : linkCost eps = addMetricCost (durationToMetric twice) nep.endpointCost := by
    rw [linkCost_single honly hready, coupledCost]
    simp only [hready, Option.getD_some, min_eq_left hclamped]
    rw [etxMetric_eq _ _ (hloss.trans hboth)]
  rw [htwice, honce]
  exact addMetricCost_eq_iff
    (expectedTime_nonneg hbase hfloor hloss (hclamped.trans_lt hcap))
    (expectedTime_mono hbase hfloor hloss hboth hboth') hcost hcost'

/-- A link of which the loss has reached the cap. -/
def saturatedLink : MeasuredLink := {lossyLink with lossRate := defaultCostTunables.lossCap}

/-- A loss of the cap is not counted twice. -/
theorem linkCost_single_iff_saturated :
    [Endpoint.nylon saturatedLink].filter Endpoint.isActive = [.nylon saturatedLink] ∧
      0 < saturatedLink.lossRate ∧ linkCost [.nylon saturatedLink] =
        addMetricCost saturatedLink.metric saturatedLink.endpointCost := by
  have honly : [Endpoint.nylon saturatedLink].filter Endpoint.isActive =
      [.nylon saturatedLink] := rfl
  refine ⟨honly, by decide +kernel, (linkCost_single_iff honly rfl (by decide)
    (by decide +kernel) (by decide +kernel) (by decide +kernel) (by decide) (by decide)
    (by decide)).mpr (.inl ?_)⟩
  decide +kernel

/-- A link with a loss of ten percent is advertised with a loss of nineteen percent. -/
theorem linkCost_counts_loss_twice :
    [Endpoint.nylon lossyLink].filter Endpoint.isActive = [.nylon lossyLink] ∧
      linkCost [.nylon lossyLink] = 55555 ∧
      addMetricCost lossyLink.metric lossyLink.endpointCost = 40000 := by
  decide +kernel

end Nylon.State
