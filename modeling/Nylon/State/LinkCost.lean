import Nylon.State.LinkChoice

/-!
The cost of a neighbour that is advertised (`LinkCost` of `state/endpoint.go`). One scan over
the links finds the best link in each direction. It takes the first of several links with
the same outbound score, where `BestEndpoint` decides by the metric; and it counts the loss
of a link in both directions, where the metric of a link counts it once.
-/

namespace Nylon.State

open Lib List

structure CostScan where
  outEp : Option MeasuredLink
  inEp : Option MeasuredLink
  bestOut : Time
  bestIn : Time
  haveActive : Bool
  deriving DecidableEq

namespace CostScan

def start : CostScan := ⟨none, none, 0, 0, false⟩

def visit (s : CostScan) (ep : Endpoint) : CostScan :=
  if !ep.isActive then s
  else
    let s := {s with haveActive := true}
    match ep with
    | .other _ _ => s
    | .nylon nep =>
      match nep.dirScores with
      | none => s
      | some (out, inb) =>
        let outScore := out + nep.endpointCost
        let s :=
          if s.outEp = none ∨ outScore < s.bestOut then
            {s with outEp := some nep, bestOut := outScore}
          else s
        if s.inEp = none ∨ inb < s.bestIn then {s with inEp := some nep, bestIn := inb}
        else s

end CostScan

/-- The cost of sending on one link and receiving on another. -/
def coupledCost (outEp inEp : MeasuredLink) : Metric :=
  let outRel := (outEp.relDelays.getD (0, 0)).1
  let inRel := (inEp.relDelays.getD (0, 0)).2
  let base := max (outRel + inRel) minLinkDelay
  let t := outEp.t
  let pOut := min outEp.lossRate t.lossCap
  let pIn := min inEp.lossRate t.lossCap
  let p := min (1 - (1 - pOut) * (1 - pIn)) t.lossCap
  addMetricCost (etxMetric base p t) outEp.endpointCost

def linkCost (eps : List Endpoint) : Metric :=
  let s := eps.foldl CostScan.visit .start
  if !s.haveActive then INF
  else
    match s.outEp, s.inEp with
    | some outEp, some inEp => coupledCost outEp inEp
    | _, _ =>
      match bestEndpoint eps with
      | none => INF
      | some best => best.effectiveEndpointMetric

namespace MeasuredLink

/-- The link is active and measured in both directions. -/
def ready (u : MeasuredLink) : Bool := u.active && u.relDelays.isSome

def outScore (u : MeasuredLink) : Time := (u.dirScores.getD (0, 0)).1 + u.endpointCost

def inScore (u : MeasuredLink) : Time := (u.dirScores.getD (0, 0)).2

end MeasuredLink

def Endpoint.readyLink : Endpoint → Option MeasuredLink
  | .nylon nep => if nep.ready then some nep else none
  | .other _ _ => none

theorem readyLink_eq_some {ep : Endpoint} {nep : MeasuredLink} :
    ep.readyLink = some nep ↔ ep = .nylon nep ∧ nep.active = true ∧
      ∃ delays, nep.relDelays = some delays := by
  cases ep with
  | other active metric => simp [Endpoint.readyLink]
  | nylon nep' =>
    rw [Endpoint.nylon.injEq, Endpoint.readyLink, Option.ite_none_right_eq_some,
      Option.some.injEq, MeasuredLink.ready, Bool.and_eq_true_iff, Option.isSome_iff_exists]
    constructor
    · rintro ⟨⟨hactive, hdelays⟩, rfl⟩
      exact ⟨rfl, hactive, hdelays⟩
    · rintro ⟨rfl, hactive, hdelays⟩
      exact ⟨⟨hactive, hdelays⟩, rfl⟩

def readyLinks (eps : List Endpoint) : List MeasuredLink := eps.filterMap Endpoint.readyLink

/-- What the scan has found. -/
structure Scanned (eps : List Endpoint) (s : CostScan) : Prop where
  outEp : s.outEp = (readyLinks eps).argmin MeasuredLink.outScore
  inEp : s.inEp = (readyLinks eps).argmin MeasuredLink.inScore
  bestOut : ∀ nep ∈ s.outEp, s.bestOut = nep.outScore
  bestIn : ∀ nep ∈ s.inEp, s.bestIn = nep.inScore
  haveActive : s.haveActive = eps.any Endpoint.isActive

theorem visit_notReady {ep : Endpoint} (h : ep.readyLink = none) (s : CostScan) :
    s.visit ep = {s with haveActive := s.haveActive || ep.isActive} := by
  unfold CostScan.visit
  cases hactive : ep.isActive with
  | false => simp
  | true =>
    cases ep with
    | other active metric => simp
    | nylon nep =>
      have hdelays : nep.relDelays = none := by
        have hactive' : nep.active = true := hactive
        simpa [Endpoint.readyLink, MeasuredLink.ready, hactive'] using h
      simp [MeasuredLink.dirScores, hdelays]

theorem dirScores_of_delays {nep : MeasuredLink} {delays : Time × Time}
    (h : nep.relDelays = some delays) : ∃ scores, nep.dirScores = some scores := by
  unfold MeasuredLink.dirScores
  rw [h]
  exact ⟨_, rfl⟩

theorem visit_ready {ep : Endpoint} {nep : MeasuredLink} (h : ep.readyLink = some nep)
    (s : CostScan) :
    s.visit ep = ⟨if s.outEp = none ∨ nep.outScore < s.bestOut then some nep else s.outEp,
        if s.inEp = none ∨ nep.inScore < s.bestIn then some nep else s.inEp,
        if s.outEp = none ∨ nep.outScore < s.bestOut then nep.outScore else s.bestOut,
        if s.inEp = none ∨ nep.inScore < s.bestIn then nep.inScore else s.bestIn, true⟩ := by
  obtain ⟨rfl, hactive, delays, hdelays⟩ := readyLink_eq_some.mp h
  obtain ⟨scores, hscores⟩ := dirScores_of_delays hdelays
  unfold CostScan.visit
  simp only [Endpoint.isActive, hactive, Bool.not_true, Bool.false_eq_true, if_false, hscores,
    MeasuredLink.outScore, MeasuredLink.inScore, Option.getD_some]
  split <;> split <;> simp_all

theorem scanned_run (eps : List Endpoint) : Scanned eps (eps.foldl CostScan.visit .start) := by
  induction eps using List.reverseRecOn with
  | nil =>
    have hlinks : readyLinks [] = [] := rfl
    rw [foldl_nil]
    refine ⟨?_, ?_, ?_, ?_, rfl⟩
    · rw [hlinks, argmin_nil, CostScan.start]
    · rw [hlinks, argmin_nil, CostScan.start]
    · intro nep hnep
      exact absurd hnep (Option.not_mem_none nep)
    · intro nep hnep
      exact absurd hnep (Option.not_mem_none nep)
  | append_singleton eps ep ih =>
    rw [foldl_append, foldl_cons, foldl_nil]
    cases hready : ep.readyLink with
    | none =>
      have hlinks : readyLinks (eps ++ [ep]) = readyLinks eps := by
        simp [readyLinks, hready]
      rw [visit_notReady hready]
      refine ⟨?_, ?_, ih.bestOut, ih.bestIn, ?_⟩
      · rw [hlinks]
        exact ih.outEp
      · rw [hlinks]
        exact ih.inEp
      · simp [ih.haveActive]
    | some nep =>
      have hlinks : readyLinks (eps ++ [ep]) = readyLinks eps ++ [nep] := by
        simp [readyLinks, hready]
      have hactive : ep.isActive = true := by
        obtain ⟨rfl, hactive, _⟩ := readyLink_eq_some.mp hready
        exact hactive
      obtain ⟨hout, houtScore⟩ := argmin_concat_of_best ih.outEp ih.bestOut nep
      obtain ⟨hin, hinScore⟩ := argmin_concat_of_best ih.inEp ih.bestIn nep
      rw [visit_ready hready]
      refine ⟨?_, ?_, houtScore, hinScore, ?_⟩
      · rw [hlinks]
        exact hout
      · rw [hlinks]
        exact hin
      · simp [hactive]

theorem mem_readyLinks {eps : List Endpoint} {nep : MeasuredLink} :
    nep ∈ readyLinks eps ↔ .nylon nep ∈ eps ∧ nep.active = true ∧
      ∃ delays, nep.relDelays = some delays := by
  unfold readyLinks
  rw [mem_filterMap]
  constructor
  · rintro ⟨ep, hep, hready⟩
    obtain ⟨rfl, hboth⟩ := readyLink_eq_some.mp hready
    exact ⟨hep, hboth⟩
  · rintro ⟨hep, hboth⟩
    exact ⟨_, hep, readyLink_eq_some.mpr ⟨rfl, hboth⟩⟩

/-- The score of a link, and the metric that decides between equal scores. -/
def MeasuredLink.preference (nep : MeasuredLink) : Time ×ₗ Nat :=
  toLex (nep.outScore, (Endpoint.nylon nep).effectiveEndpointMetric.toNat)

theorem rank_of_ready {nep : MeasuredLink} (hactive : nep.active = true)
    {delays : Time × Time} (hdelays : nep.relDelays = some delays) :
    (Endpoint.nylon nep).rank = toLex (false, toLex (false, nep.preference)) := by
  obtain ⟨scores, hscores⟩ := dirScores_of_delays hdelays
  have hscore : (Endpoint.nylon nep).outboundScore = (nep.outScore, true) := by
    simp only [Endpoint.outboundScore, MeasuredLink.outScore, hscores, Option.getD_some]
  unfold Endpoint.rank
  rw [hscore]
  simp only [Endpoint.isActive, hactive, Bool.not_true, if_true]
  rfl

theorem readyLink_isSome (ep : Endpoint) :
    ep.readyLink.isSome = (ep.isActive && ep.outboundScore.2) := by
  cases ep with
  | other active metric => simp [Endpoint.readyLink, Endpoint.outboundScore]
  | nylon nep =>
    cases hdelays : nep.relDelays <;> cases hactive : nep.active <;>
      simp [Endpoint.readyLink, Endpoint.isActive, Endpoint.outboundScore, MeasuredLink.ready,
        MeasuredLink.dirScores, hdelays, hactive]

theorem filter_ready (eps : List Endpoint) :
    (eps.filter Endpoint.isActive).filter (fun ep => ep.outboundScore.2) =
      (readyLinks eps).map Endpoint.nylon := by
  rw [filter_filter]
  induction eps with
  | nil => rfl
  | cons ep eps ih =>
    have hsome := readyLink_isSome ep
    rw [Bool.and_comm] at hsome
    unfold readyLinks
    cases hready : ep.readyLink with
    | none =>
      rw [hready] at hsome
      rw [filter_cons, ← hsome, filterMap_cons_none hready]
      exact ih
    | some nep =>
      rw [hready] at hsome
      rw [filter_cons, ← hsome, filterMap_cons_some hready, map_cons,
        ← (readyLink_eq_some.mp hready).1]
      exact congrArg (ep :: ·) ih

theorem rank_lt_of_ready {a b : Endpoint} (hactive : a.isActive = b.isActive)
    (ha : a.outboundScore.2 = true) (hb : b.outboundScore.2 = false) : a.rank < b.rank := by
  unfold Endpoint.rank
  rw [Prod.Lex.toLex_lt_toLex, Prod.Lex.toLex_lt_toLex, hactive, ha, hb]
  exact .inr ⟨rfl, .inl Bool.false_lt_true⟩

/-- A ready link comes before the others. -/
theorem bestEndpoint_ready {eps : List Endpoint} (h : readyLinks eps ≠ []) : bestEndpoint eps =
      ((readyLinks eps).argmin MeasuredLink.preference).map Endpoint.nylon := by
  have hpreference : (readyLinks eps).argmin (fun nep => (Endpoint.nylon nep).rank) =
      (readyLinks eps).argmin MeasuredLink.preference := by
    refine argmin_congr fun a ha b hb => ?_
    obtain ⟨_, hactive, _, hdelays⟩ := mem_readyLinks.mp ha
    obtain ⟨_, hactive', _, hdelays'⟩ := mem_readyLinks.mp hb
    rw [rank_of_ready hactive hdelays, rank_of_ready hactive' hdelays']
    simp [Prod.Lex.toLex_lt_toLex]
  rw [bestEndpoint_eq, ← argmin_filter (p := fun ep => ep.outboundScore.2) ?_ ?_, filter_ready,
    argmin_map, hpreference]
  · intro a ha b hb haready hbready
    have hactive : a.isActive = b.isActive :=
      (mem_filter.mp ha).2.trans (mem_filter.mp hb).2.symm
    exact rank_lt_of_ready hactive haready hbready
  · rw [filter_ready]
    exact fun hnil => h (map_eq_nil_iff.mp hnil)

/-- The link that is charged for the outbound direction, and the one for the inbound
direction. -/
theorem linkCost_eq {eps : List Endpoint} (h : readyLinks eps ≠ []) :
    ∃ outEp inEp, (eps.foldl CostScan.visit .start).outEp = some outEp ∧
      (readyLinks eps).argmin MeasuredLink.outScore = some outEp ∧
      (readyLinks eps).argmin MeasuredLink.inScore = some inEp ∧
      linkCost eps = coupledCost outEp inEp := by
  have hscan := scanned_run eps
  obtain ⟨outEp, hout⟩ := Option.ne_none_iff_exists'.mp
    (mt (argmin_eq_none (f := MeasuredLink.outScore)).mp h)
  obtain ⟨inEp, hin⟩ := Option.ne_none_iff_exists'.mp
    (mt (argmin_eq_none (f := MeasuredLink.inScore)).mp h)
  have hactive : (eps.foldl CostScan.visit .start).haveActive = true := by
    rw [hscan.haveActive]
    obtain ⟨hmem, hactive, _⟩ := mem_readyLinks.mp (argmin_mem hout)
    exact any_eq_true.mpr ⟨_, hmem, hactive⟩
  refine ⟨outEp, inEp, hscan.outEp.trans hout, hout, hin, ?_⟩
  unfold linkCost
  simp only [hactive, hscan.outEp, hscan.inEp, hout, hin]
  rfl

/-- No link with the least outbound score is preferred to the first of them. -/
def FirstPreferred (links : List MeasuredLink) : Prop :=
  ∀ front first back, links = front ++ first :: back →
    (∀ other ∈ front, first.outScore < other.outScore) →
    (∀ other ∈ back, first.outScore ≤ other.outScore) →
    ∀ other ∈ back, other.outScore = first.outScore →
      (Endpoint.nylon first).effectiveEndpointMetric.toNat ≤
        (Endpoint.nylon other).effectiveEndpointMetric.toNat

/-- The link that is charged for the outbound direction is the one that is used, exactly if
the first of the links with the least outbound score is not worse than the others by the
metric. -/
theorem linkCost_charges_best_iff {eps : List Endpoint} {link : MeasuredLink}
    {delays : Time × Time} (hlink : .nylon link ∈ eps) (hactive : link.active = true)
    (hready : link.relDelays = some delays) :
    ∃ outEp inEp, (eps.foldl CostScan.visit .start).outEp = some outEp ∧
      linkCost eps = coupledCost outEp inEp ∧
      (bestEndpoint eps = some (.nylon outEp) ↔ FirstPreferred (readyLinks eps)) := by
  have h : readyLinks eps ≠ [] :=
    ne_nil_of_mem (mem_readyLinks.mpr ⟨hlink, hactive, _, hready⟩)
  obtain ⟨outEp, inEp, hscan, hout, _, hcost⟩ := linkCost_eq h
  refine ⟨outEp, inEp, hscan, hcost, ?_⟩
  obtain ⟨front, back, hlinks, hfront, hback⟩ := argmin_eq_some_iff_append.mp hout
  have hbest : bestEndpoint eps = some (.nylon outEp) ↔
      (readyLinks eps).argmin MeasuredLink.preference = some outEp := by
    rw [bestEndpoint_ready h]
    simp
  rw [hbest]
  unfold MeasuredLink.preference
  rw [argmin_toLex_iff hout]
  constructor
  · intro hties front' first back' hsplit hfront' hback' other hother heq
    have hfirst : some outEp = some first :=
      hout.symm.trans (argmin_eq_some_iff_append.mpr ⟨front', back', hsplit, hfront', hback'⟩)
    cases hfirst
    exact hties other (by rw [hsplit]; simp [hother]) heq
  · intro hpreferred other hother heq
    rw [hlinks, mem_append, mem_cons] at hother
    obtain hother | rfl | hother := hother
    · exact absurd heq (hfront other hother).ne'
    · exact le_rfl
    · exact hpreferred front outEp back hlinks hfront hback other hother heq

def defaultCostTunables : CostTunables where
  toDelayTunables := defaultDelayTunables
  tcpCost := 0
  udpCost := 0

/-- A link with a loss of ten percent, and the outbound score of the next one. -/
def lossyLink : MeasuredLink :=
  ⟨1, defaultCostTunables, true, some (8000000, 18000000), 1 / 10, .udp⟩

def cleanLink : MeasuredLink :=
  ⟨2, defaultCostTunables, true, some (22000000, 2000000), 0, .udp⟩

/-- Of the two links with equal outbound scores, the one that is used is visited first. -/
theorem linkCost_charges_best_iff_tied :
    let eps := [Endpoint.nylon cleanLink, .nylon lossyLink]
    cleanLink.dirScores.map Prod.fst = lossyLink.dirScores.map Prod.fst ∧
      ∃ inEp, (eps.foldl CostScan.visit .start).outEp = some cleanLink ∧
        linkCost eps = coupledCost cleanLink inEp ∧
        bestEndpoint eps = some (.nylon cleanLink) ∧ FirstPreferred (readyLinks eps) := by
  intro eps
  have hscan : (eps.foldl CostScan.visit .start).outEp = some cleanLink := by decide +kernel
  have hbest : bestEndpoint eps = some (.nylon cleanLink) := by decide +kernel
  obtain ⟨outEp, inEp, hout, hcost, hiff⟩ :=
    @linkCost_charges_best_iff eps cleanLink _ mem_cons_self rfl rfl
  obtain rfl : cleanLink = outEp := Option.some.inj (hscan.symm.trans hout)
  exact ⟨by decide +kernel, inEp, hscan, hcost, hbest, hiff.mp hbest⟩

/-- The clean link is used, and the delay and the loss of the other one are advertised. -/
theorem linkCost_charges_other_link : let eps := [Endpoint.nylon lossyLink, .nylon cleanLink]
    bestEndpoint eps = some (.nylon cleanLink) ∧
      (eps.foldl CostScan.visit .start).outEp = some lossyLink ∧
      linkCost eps = 22222 ∧ coupledCost cleanLink cleanLink = 24000 := by
  decide +kernel

end Nylon.State
