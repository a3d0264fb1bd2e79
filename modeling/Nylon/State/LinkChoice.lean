import Nylon.Lib.Compare
import Nylon.Polyamide.FakeTCP
import Nylon.State.LinkDelays
import Nylon.State.TrimmedWindow

/-!
The choice among the links of a neighbour (`CompareEndpoints`, `BestEndpoint` and the metrics
of `state/endpoint.go`, and the list that `syncWireGuardEndpoints` of
`core/nylon_wireguard.go` sorts). A link appears as the readings that these functions take
of it, which do not change from one of their calls to the next as long as the clock and the
measurement stand still.
-/

namespace Nylon.State

open Lib List

/-- What the cost of links reads of the tunables. -/
structure CostTunables extends DelayTunables where
  tcpCost : Time
  udpCost : Time
  deriving DecidableEq

/-- The readings of a `NylonEndpoint`. -/
structure MeasuredLink where
  linkId : LinkId
  t : CostTunables
  active : Bool
  relDelays : Option (Time × Time)
  lossRate : ℚ
  transport : Polyamide.Transport
  deriving DecidableEq

/-- A link, or an endpoint of another kind, of which only the activity and the metric are
known. -/
inductive Endpoint where
  | nylon (nep : MeasuredLink)
  | other (active : Bool) (metric : Metric)
  deriving DecidableEq

def minLinkDelay : Time := 50 * 1000

def warmupDelay : Time := 1000000000

def maxInt64 : Int := 2 ^ 63 - 1

def microseconds (d : Time) : Int := d.tdiv 1000

def durationToMetric (d : Time) : Metric :=
  if d = maxInt64 then INF
  else UInt32.ofInt (min (microseconds d) (INF.toNat - 1))

/-- The expected time with retransmissions. -/
def etxMetric (base : Time) (p : ℚ) (t : CostTunables) : Metric :=
  if p ≤ 0 then durationToMetric base
  else
    let factor := p / (1 - p)
    durationToMetric (base + truncate ((base + t.lossRetxFloor : Time) * factor))

def addMetricCost (metric : Metric) (cost : Time) : Metric :=
  if metric = INF then INF
  else (min (metric.toUInt64 + UInt64.ofInt (microseconds cost)) INFM.toUInt64).toUInt32

namespace MeasuredLink

variable (u : MeasuredLink)

def dirScores : Option (Time × Time) :=
  match u.relDelays with
  | none => none
  | some (out, inb) =>
    let p := min u.lossRate u.t.lossCap
    let pen := if 0 < p then truncate ((out + inb + u.t.lossRetxFloor : Time) * p / (1 - p))
      else 0
    some (out + pen, inb + pen)

def stabilizedPing : Time :=
  match u.relDelays with
  | none => 0
  | some (out, inb) => out + inb

def metric : Metric :=
  if !u.active then INF
  else
    let base := if u.stabilizedPing = 0 then warmupDelay else u.stabilizedPing
    etxMetric (max base minLinkDelay) u.lossRate u.t

def endpointCost : Time :=
  match u.transport with
  | .fakeTCP => u.t.tcpCost
  | .udp => u.t.udpCost

end MeasuredLink

namespace Endpoint

def isActive : Endpoint → Bool
  | .nylon nep => nep.active
  | .other active _ => active

/-- The score is zero as long as the link is not ready, apart from the cost. -/
def outboundScore : Endpoint → Time × Bool
  | .nylon nep =>
    match nep.dirScores with
    | none => (0 + nep.endpointCost, false)
    | some (out, _) => (out + nep.endpointCost, true)
  | .other _ _ => (0, false)

def effectiveEndpointMetric : Endpoint → Metric
  | .nylon nep => addMetricCost nep.metric nep.endpointCost
  | .other _ metric => metric

end Endpoint

def cmpBool (a b : Bool) : Int :=
  if a = b then 0 else if a then -1 else 1

def compareEndpoints (a b : Endpoint) : Int :=
  let c := cmpBool a.isActive b.isActive
  if c ≠ 0 then c
  else
    let (aOut, aOk) := a.outboundScore
    let (bOut, bOk) := b.outboundScore
    let c := cmpBool aOk bOk
    if c ≠ 0 then c
    else if aOk ∧ aOut ≠ bOut then compareOf aOut bOut
    else compareOf a.effectiveEndpointMetric.toNat b.effectiveEndpointMetric.toNat

def bestEndpoint (eps : List Endpoint) : Option Endpoint :=
  eps.foldl
    (fun best link =>
      if !link.isActive then best
      else match best with
        | none => some link
        | some best => if compareEndpoints link best < 0 then some link else some best)
    none

/-- The links as `syncWireGuardEndpoints` hands them over, sorted by
`slices.SortStableFunc`. -/
def sortedEndpoints (eps : List Endpoint) : List Endpoint :=
  eps.mergeSort fun a b => compareEndpoints a b ≤ 0

section Readings

variable (t : CostTunables) (now : Time) (id : LinkId) (transport : Polyamide.Transport)
  {f f' : DelayFilter} {value : Time}

end Readings

/-- The four criteria of a comparison. -/
def Endpoint.rank (ep : Endpoint) : Bool ×ₗ Bool ×ₗ Time ×ₗ Nat :=
  toLex (!ep.isActive, toLex (!ep.outboundScore.2,
    toLex (if ep.outboundScore.2 then ep.outboundScore.1 else 0, ep.effectiveEndpointMetric.toNat)))

theorem cmpBool_eq (a b : Bool) : cmpBool a b = compareOf (!a) (!b) := by
  cases a <;> cases b <;> decide

/-- The chain of criteria compares the ranks. -/
theorem compareEndpoints_eq (a b : Endpoint) : compareEndpoints a b = compareOf a.rank b.rank := by
  unfold compareEndpoints Endpoint.rank
  obtain ⟨aOut, aOk⟩ := a.outboundScore
  obtain ⟨bOut, bOk⟩ := b.outboundScore
  simp only [compareOf_toLex, ← cmpBool_eq]
  -- the scores only decide where both links are ready
  cases aOk <;> cases bOk
  · simp [cmpBool, compareOf_eq_zero_iff]
  · simp [cmpBool]
  · simp [cmpBool]
  · simp [cmpBool, compareOf_eq_zero_iff]

theorem bestEndpoint_eq (eps : List Endpoint) :
    bestEndpoint eps = (eps.filter Endpoint.isActive).argmin Endpoint.rank := by
  unfold bestEndpoint List.argmin
  rw [foldl_filter]
  congr 1
  funext best link
  cases link.isActive with
  | false => rfl
  | true =>
    cases best with
    | none => rfl
    | some best =>
      show (if compareEndpoints link best < 0 then _ else _) =
        if link.rank < best.rank then _ else _
      rw [compareEndpoints_eq]
      exact if_congr compareOf_neg_iff rfl rfl

theorem sortedEndpoints_eq (eps : List Endpoint) :
    sortedEndpoints eps = eps.mergeSort fun a b => a.rank ≤ b.rank := by
  unfold sortedEndpoints
  congr 1
  funext a b
  rw [compareEndpoints_eq]
  exact decide_eq_decide.mpr compareOf_nonpos_iff

theorem rank_lt_of_active {a b : Endpoint} (ha : a.isActive = true) (hb : b.isActive = false) :
    a.rank < b.rank := by
  unfold Endpoint.rank
  rw [Prod.Lex.toLex_lt_toLex, ha, hb]
  exact .inl Bool.false_lt_true

/-- The comparison is a total order on links up to links that compare equal, and whenever a
link is active, the best link is the first one of the sorted list. -/
theorem bestEndpoint_heads_list (eps : List Endpoint) : (∀ a, compareEndpoints a a = 0) ∧
      (∀ a b, compareEndpoints b a = -compareEndpoints a b) ∧
      (∀ a b, compareEndpoints a b ≤ 0 ∨ compareEndpoints b a ≤ 0) ∧
      (∀ a b c, compareEndpoints a b ≤ 0 → compareEndpoints b c ≤ 0 → compareEndpoints a c ≤ 0) ∧
      ((∃ link ∈ eps, link.isActive = true) →
        ∃ best, bestEndpoint eps = some best ∧ (sortedEndpoints eps).head? = some best) := by
  simp only [compareEndpoints_eq, compareOf_nonpos_iff]
  refine ⟨fun a => compareOf_eq_zero_iff.mpr rfl, fun a b => compareOf_swap _ _,
    fun a b => le_total _ _, fun a b c => le_trans, ?_⟩
  rintro ⟨link, hlink, hactive⟩
  have hsome : eps.filter Endpoint.isActive ≠ [] :=
    ne_nil_of_mem (mem_filter.mpr ⟨hlink, hactive⟩)
  obtain ⟨best, hbest⟩ := Option.ne_none_iff_exists'.mp
    (mt (argmin_eq_none (f := Endpoint.rank)).mp hsome)
  refine ⟨best, (bestEndpoint_eq eps).trans hbest, ?_⟩
  rw [sortedEndpoints_eq, head?_mergeSort,
    ← argmin_filter (fun a _ b _ => rank_lt_of_active) hsome, hbest]

end Nylon.State
