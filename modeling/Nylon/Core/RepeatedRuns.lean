import Nylon.Core.Hysteresis
import Nylon.Core.OwnSource
import Nylon.Core.SourceTable

/-!
What one run of `computeRoutes` does to an entry when nothing but the runs
themselves changes the state. A run keeps the links, the costs and the stored
routes and moves the smoothed metrics and the feasibility distances. A neighbour
route that it selects stays usable for the next run, because the stored metric is
smaller than the announced one. For each kind of prefix, advertised by the node
itself or not, the entry after the run is one of a few.
-/

namespace Nylon.Core

open State Netip Lib

def afterRun (s : RouterState) (route : Neighbour × NeighRoute) : Neighbour × NeighRoute :=
  (smoothNeighbour s route.1, smoothRoute s route.1 route.2)

/-- No neighbour that an own advertisement leads to offers the node's own source
for that prefix. -/
def NoEcho (s : RouterState) : Prop :=
  ∀ p adv, s.advertised.lookup p = some adv → ∀ n ∈ s.neighbours, n.id = adv.nodeId →
    ∀ st ∈ n.routes.lookup p, st.nodeId ≠ s.id

instance (s : RouterState) : Decidable (NoEcho s) :=
  inferInstanceAs (Decidable (∀ p adv, s.advertised.lookup p = some adv → _))

/-- The costs of every route with a finite total add up to less than `INFM`. -/
def CostsBounded (s : RouterState) : Prop :=
  ∀ n ∈ s.neighbours, ∀ p st, n.routes.lookup p = some st → totalCost s (n, st) ≠ INF →
    n.linkCost.toNat + s.hopCost.toNat + s.transitCost.toNat + st.metric.toNat < INFM.toNat

instance (s : RouterState) : Decidable (CostsBounded s) :=
  inferInstanceAs (Decidable
    (∀ n ∈ s.neighbours, ∀ p st, n.routes.lookup p = some st → _))

/-- What repeated runs rely on and keep. -/
structure Settleable (s : RouterState) : Prop where
  keyed : Keyed s
  distinct : (neighbourIds s).Nodup
  noEcho : NoEcho s
  hopCost : 1 ≤ s.hopCost
  alphaPos : 0 < s.metricSmoothingAlpha
  alphaLe : s.metricSmoothingAlpha ≤ 1
  costs : CostsBounded s

section OneRun

variable {s : RouterState} {now : Time} {p : Prefix} {route : Neighbour × NeighRoute}

@[simp] theorem hasLink_computeRoutes (s : RouterState) (now : Time) (id : NodeId) :
    hasLink (computeRoutes s now).1 id = hasLink s id := by
  rw [computeRoutes_state]
  simp only [hasLink, bestEndpoints, List.foldl_map, smoothNeighbour_id, smoothNeighbour_active]

@[simp] theorem totalCost_afterRun (s : RouterState) (now : Time) (route : Neighbour × NeighRoute) :
    totalCost (computeRoutes s now).1 (afterRun s route) = totalCost s route := by
  simp only [totalCost, hopCostTo, afterRun, hasLink_computeRoutes, smoothNeighbour_id,
    smoothNeighbour_linkCost, smoothRoute_toPubRoute]
  rw [computeRoutes_state]

theorem smoothedMetric_afterRun (s : RouterState) (route : Neighbour × NeighRoute) :
    (afterRun s route).2.smoothedMetric =
      if Usable s route.1 route.2 then smoothedCost s route
      else route.2.smoothedMetric := by
  simp only [afterRun, smoothRoute, candidate_eq_ite]
  by_cases husable : Usable s route.1 route.2
  · simp [husable, candidateOf]
  · simp [husable]

theorem lookup_afterRun {n : Neighbour} {st : NeighRoute} (hst : n.routes.lookup p = some st) :
    (smoothNeighbour s n).routes.lookup p = some (afterRun s (n, st)).2 := by
  rw [lookup_smoothNeighbour, hst]
  rfl

theorem candidateOf_afterRun (s : RouterState) (now : Time) (route : Neighbour × NeighRoute) :
    (candidateOf (computeRoutes s now).1 (afterRun s route)).route =
      (candidateOf s route).route := by
  simp only [candidateOf, totalCost_afterRun]
  simp [afterRun]

/-- The announced metric is larger than the stored one. -/
theorem Settleable.storedCost_lt (h : Settleable s) (hmem : route ∈ usableRoutes s p) :
    route.2.metric < totalCost s route := by
  obtain ⟨hn, hst, _, hstored, _, htotal⟩ := mem_usableRoutes.mp hmem
  have hbound := h.costs route.1 hn p route.2 hst htotal
  have hhop := (addMetric_ne_INF_iff _ _).mp htotal
  have hcost := (hopCostTo_ne_INF hhop.1).2
  have hpos := UInt32.le_iff_toNat_le.mp h.hopCost
  rw [UInt32.lt_iff_toNat_lt]
  unfold totalCost
  rw [addMetric_toNat hhop.1 hhop.2, hcost, INFM_toNat]
  rw [INFM_toNat] at hbound
  simp only [UInt32.toNat_one] at hpos
  omega

/-- A distance that a route meets, it also meets after the route itself has been
announced with a larger metric. -/
theorem feasible_maintainFD {entry : Option FD} {stored announced : FD}
    (hseqno : announced.seqno = stored.seqno) (hmetric : stored.metric < announced.metric)
    (hfeasible : ∀ d ∈ entry, seqnoLt d.seqno stored.seqno = true ∨
      d.seqno = stored.seqno ∧ stored.metric < d.metric) :
    (maintainFD entry announced).seqno = stored.seqno ∧
      stored.metric < (maintainFD entry announced).metric := by
  cases entry with
  | none => exact ⟨hseqno, hmetric⟩
  | some d =>
    rcases hfeasible d rfl with hnewer | ⟨hsame, hsmaller⟩
    · simp only [maintainFD, hseqno, hnewer, if_true]
      exact ⟨trivial, hmetric⟩
    · have hnot : seqnoLt stored.seqno stored.seqno = false := by simp [seqnoLt]
      simp only [maintainFD, hseqno, hsame, hnot, Bool.false_eq_true, if_false, true_and]
      split
      · exact ⟨rfl, hmetric⟩
      · exact ⟨hsame, hsmaller⟩

theorem checkFeasibility_iff {r : PubRoute} (hfinite : r.metric ≠ INF) :
    checkFeasibility s r = true ↔ ∀ d ∈ s.sources.lookup r.toSource,
      seqnoLt d.seqno r.seqno = true ∨ d.seqno = r.seqno ∧ r.metric < d.metric := by
  unfold checkFeasibility
  cases s.sources.lookup r.toSource with
  | none => simp
  | some d => simp [hfinite]

/-- The neighbour route that a run leaves in the table is usable in the next run. -/
theorem Settleable.usable_afterRun (h : Settleable s) (hmem : route ∈ usableRoutes s p)
    (hselected : selectedRoute s now p = some (candidateOf s route).route) :
    afterRun s route ∈ usableRoutes (computeRoutes s now).1 p := by
  obtain ⟨hn, hst, hlink, hstored, hfeasible, htotal⟩ := mem_usableRoutes.mp hmem
  have hpfx : route.2.pfx = p := h.keyed.stored route.1.id p route.2 ⟨route.1, hn, rfl, hst⟩
  refine mem_usableRoutes.mpr ⟨?_, lookup_afterRun hst, ?_, ?_, ?_, ?_⟩
  · rw [computeRoutes_state]
    exact List.mem_map_of_mem hn
  · rw [hasLink_computeRoutes]
    exact hlink
  · rw [afterRun, smoothRoute_toPubRoute]
    exact hstored
  · rw [afterRun, smoothRoute_toPubRoute]
    rw [checkFeasibility_iff hstored] at hfeasible ⊢
    intro d hd
    rw [computeRoutes_state] at hd
    have hlookup := lookup_announcedSources h.keyed now route.2.toSource
    rw [hpfx, hselected] at hlookup
    rw [Option.mem_def, hlookup] at hd
    dsimp only at hd
    split at hd
    · obtain rfl := Option.some.inj hd
      exact Or.inr (feasible_maintainFD rfl (h.storedCost_lt hmem) hfeasible)
    · exact hfeasible d hd
  · exact (totalCost_afterRun s now route).trans_ne htotal

theorem settleable_computeRoutes (h : Settleable s) (now : Time) :
    Settleable (computeRoutes s now).1 := by
  have hfields : (computeRoutes s now).1.id = s.id ∧
      (computeRoutes s now).1.advertised = s.advertised ∧
      (computeRoutes s now).1.toRouterTunables = s.toRouterTunables := by
    rw [computeRoutes_state]
    exact ⟨rfl, rfl, rfl⟩
  obtain ⟨hid, hadvertised, htunables⟩ := hfields
  constructor
  case keyed => exact h.keyed.step (.computeRoutes now)
  case distinct => exact distinct_step (.computeRoutes now) h.distinct
  case noEcho =>
    intro p adv hadv n hn hnode st hst
    obtain ⟨st₀, ⟨n₀, hn₀, hid₀, hst₀⟩, hpub⟩ := stored_computeRoutes ⟨n, hn, rfl, hst⟩
    rw [hadvertised] at hadv
    rw [hid, hpub]
    exact h.noEcho p adv hadv n₀ hn₀ (hid₀.trans hnode) st₀ hst₀
  case hopCost => exact htunables ▸ h.hopCost
  case alphaPos => exact htunables ▸ h.alphaPos
  case alphaLe => exact htunables ▸ h.alphaLe
  case costs =>
    intro n hn p st hst htotal
    rw [computeRoutes_state] at hn
    obtain ⟨m, hm, rfl⟩ := List.mem_map.mp hn
    rw [lookup_smoothNeighbour] at hst
    obtain ⟨st₀, hst₀, rfl⟩ := Option.map_eq_some_iff.mp hst
    have hsame := totalCost_afterRun s now (m, st₀)
    rw [htunables]
    simpa using h.costs m hm p st₀ hst₀ (hsame ▸ htotal)

end OneRun

section OneEntry

variable {s : RouterState} {now : Time} {p : Prefix} {adv : Advertisement}
  {route : Neighbour × NeighRoute}

/-- A finite selected route is the one a run leaves. -/
theorem finalRoute_of_finite {r : SelRoute} (hselected : selectedRoute s now p = some r)
    (hfinite : r.metric ≠ INF) : finalRoute s now p = some r := by
  rw [← lookup_computeRoutes]
  exact (lookup_computeRoutes_finite hfinite).mpr hselected

/-- An unreachable entry is left only as a retraction of a reachable one, or as
it was selected. -/
theorem finalRoute_of_INF (s : RouterState) (now : Time) (p : Prefix)
    (hunreachable : ∀ r ∈ selectedRoute s now p, r.metric = INF) :
    (finalRoute s now p = selectedRoute s now p ∧ ∀ old ∈ s.routes.lookup p, old.metric = INF) ∨
      ∃ old ∈ s.routes.lookup p, old.metric ≠ INF ∧
        finalRoute s now p = some {old with metric := INF, retractedBy := []} := by
  cases hold : s.routes.lookup p with
  | none => exact Or.inl ⟨by simp [finalRoute, hold], by simp⟩
  | some old =>
    have hall : (selectedRoute s now p).all (·.metric == INF) = true := by
      rw [Option.all_eq_true]
      intro r hr
      simpa using hunreachable r hr
    by_cases hfinite : old.metric = INF
    · refine Or.inl ⟨?_, by simpa using hfinite⟩
      simp [finalRoute, losesRoute, hold, hfinite]
    · refine Or.inr ⟨old, rfl, hfinite, ?_⟩
      simp [finalRoute, losesRoute, hold, hfinite, hall]

theorem Settleable.not_echoes (h : Settleable s) (hadv : s.advertised.lookup p = some adv)
    (hmem : route ∈ usableRoutes s p) : ¬ Echoes s p adv route := by
  rintro ⟨hnode, hsource⟩
  obtain ⟨hn, hst, _⟩ := mem_usableRoutes.mp hmem
  exact h.noEcho p adv hadv route.1 hn hnode.symm route.2 hst
    (congrArg Source.nodeId hsource).symm

theorem sameRoute_advertisedRoute (now : Time) (hecho : ¬ Echoes s p adv route) :
    sameRoute (advertisedRoute s now p adv) (candidateOf s route).route = false ∧
      sameRoute (candidateOf s route).route (advertisedRoute s now p adv) = false := by
  unfold Echoes at hecho
  constructor
  · rw [sameRoute, Bool.and_eq_false_iff]
    simpa [advertisedRoute, candidateOf, imp_iff_not_or] using hecho
  · rw [sameRoute, Bool.and_eq_false_iff]
    rw [eq_comm, eq_comm (a := Source.mk s.id p)] at hecho
    simpa [advertisedRoute, candidateOf, imp_iff_not_or] using hecho

/-- For an own prefix the cheapest route is compared with the advertisement, and
what was in use before makes no difference. -/
theorem Settleable.selectedRoute_advertised (h : Settleable s)
    (hadv : s.advertised.lookup p = some adv) :
    selectedRoute s now p = some
      (match (usableRoutes s p).argmin (totalCost s) with
      | none => advertisedRoute s now p adv
      | some best =>
        if totalCost s best < advMetric adv ∧ smoothedCost s best < (advMetric adv).toNat then
          (candidateOf s best).route
        else advertisedRoute s now p adv) := by
  have hincumbent : incumbent s now p = some (advertisedRoute s now p adv) := by
    simp [incumbent, hadv]
  unfold selectedRoute
  rw [bestCandidate_eq_map, hincumbent]
  cases hbest : (usableRoutes s p).argmin (totalCost s) with
  | none => rfl
  | some best =>
    have hother := (sameRoute_advertisedRoute now
      (h.not_echoes hadv (List.argmin_mem hbest))).2
    have hsel : selectRoute (some (advertisedRoute s now p adv)) (prevCandidate s p)
        (candidateOf s best) = hysteresis (advertisedRoute s now p adv)
          (advMetric adv).toNat (candidateOf s best) := by
      cases hprev : prevCandidate s p with
      | none => rfl
      | some c =>
        have hc := (prevCandidate_spec hprev).1
        rw [candidates_eq_map, List.mem_map] at hc
        obtain ⟨kept, hkept, rfl⟩ := hc
        simp only [selectRoute,
          (sameRoute_advertisedRoute now (h.not_echoes hadv hkept)).1]
        rfl
    simp only [Option.map_some, hsel, hysteresis, hother]
    rfl

/-- The entry of an own prefix after a run: the cheapest route, if it undercuts the
advertisement in both metrics; else the advertisement, or the retraction of a route
that is lost because the prefix is unhealthy. -/
theorem Settleable.finalRoute_advertised (h : Settleable s) (now : Time)
    (hadv : s.advertised.lookup p = some adv) :
    (∃ best ∈ (usableRoutes s p).argmin (totalCost s), totalCost s best < advMetric adv ∧
        selectedRoute s now p = some (candidateOf s best).route) ∨
      ((∀ best ∈ (usableRoutes s p).argmin (totalCost s), totalCost s best < advMetric adv →
          ¬ smoothedCost s best < (advMetric adv).toNat) ∧
        (finalRoute s now p = some (advertisedRoute s now p adv) ∨
          ∃ old ∈ s.routes.lookup p, old.metric ≠ INF ∧ advMetric adv = INF ∧
            finalRoute s now p = some {old with metric := INF, retractedBy := []})) := by
  have hselected : selectedRoute s now p = _ := h.selectedRoute_advertised hadv
  by_cases hundercut : ∃ best ∈ (usableRoutes s p).argmin (totalCost s),
      totalCost s best < advMetric adv ∧ smoothedCost s best < (advMetric adv).toNat
  · obtain ⟨best, hbest, hcosts⟩ := hundercut
    rw [Option.mem_def] at hbest
    simp only [hbest, hcosts, and_self, if_true] at hselected
    exact Or.inl ⟨best, hbest, hcosts.1, hselected⟩
  · refine Or.inr ⟨fun best hbest hcost hsmoothed =>
      hundercut ⟨best, hbest, hcost, hsmoothed⟩, ?_⟩
    have hown : selectedRoute s now p = some (advertisedRoute s now p adv) := by
      rw [hselected]
      cases hbest : (usableRoutes s p).argmin (totalCost s) with
      | none => rfl
      | some best =>
        have hnot : ¬ (totalCost s best < advMetric adv ∧
            smoothedCost s best < (advMetric adv).toNat) :=
          fun hcosts => hundercut ⟨best, hbest, hcosts⟩
        simp only [hnot, if_false]
    by_cases hhealthy : advMetric adv = INF
    · rcases finalRoute_of_INF s now p
          (by simp [hown, advertisedRoute, hhealthy]) with
        ⟨hfinal, _⟩ | ⟨old, hold, hfinite, hfinal⟩
      · exact Or.inl (hfinal.trans hown)
      · exact Or.inr ⟨old, hold, hfinite, hhealthy, hfinal⟩
    · exact Or.inl (finalRoute_of_finite hown hhealthy)

/-- The entry of a prefix of others after a run: a usable route, nothing, the held
entry, or the retraction of a route that is lost. -/
theorem finalRoute_learned (now : Time) (hadv : s.advertised.lookup p = none) :
    (∃ taken ∈ usableRoutes s p, selectedRoute s now p = some (candidateOf s taken).route) ∨
      (finalRoute s now p = none ∧ ∀ old ∈ s.routes.lookup p, old.metric = INF) ∨
      finalRoute s now p = s.routes.lookup p ∨
      ∃ old ∈ s.routes.lookup p, old.metric ≠ INF ∧
        finalRoute s now p = some {old with metric := INF, retractedBy := []} := by
  cases hselected : selectedRoute s now p with
  | none =>
    rcases finalRoute_of_INF s now p (by simp [hselected]) with
      ⟨hfinal, hold⟩ | hlost
    · exact Or.inr (Or.inl ⟨hfinal.trans hselected, hold⟩)
    · exact Or.inr (Or.inr (Or.inr hlost))
  | some r =>
    rcases selectedRoute_cases hselected with
      ⟨adv, hown, _⟩ | ⟨c, hc, rfl, _⟩ | ⟨old, hold, _, _, rfl⟩
    · rw [hadv] at hown
      cases hown
    · rw [candidates_eq_map, List.mem_map] at hc
      obtain ⟨taken, htaken, rfl⟩ := hc
      exact Or.inl ⟨taken, htaken, rfl⟩
    · rcases finalRoute_of_INF s now p (by simp [hselected]) with
        ⟨hfinal, hINF⟩ | hlost
      · refine Or.inr (Or.inr (Or.inl ?_))
        have hmetric := hINF old hold
        rw [hfinal, hselected, hold, ← hmetric]
      · exact Or.inr (Or.inr (Or.inr hlost))

/-- A usable route of another node's prefix is kept, or left for a cheaper one. -/
theorem Settleable.selectedRoute_learned (h : Settleable s) (now : Time)
    (hadv : s.advertised.lookup p = none) (hmem : route ∈ usableRoutes s p)
    (hentry : s.routes.lookup p = some (candidateOf s route).route) :
    selectedRoute s now p = some (candidateOf s route).route ∨
      ∃ taken ∈ usableRoutes s p, totalCost s taken < totalCost s route ∧
        selectedRoute s now p = some (candidateOf s taken).route := by
  obtain ⟨best, hbest⟩ : ∃ best, (usableRoutes s p).argmin (totalCost s) = some best := by
    refine Option.ne_none_iff_exists'.mp fun hnone => ?_
    rw [List.argmin_eq_none.mp hnone] at hmem
    cases hmem
  have hbestMem : best ∈ usableRoutes s p := List.argmin_mem hbest
  have hselected : selectedRoute s now p = _ :=
    selectedRoute_of_continues h.distinct hentry (candidateOf_finite hmem) hmem ⟨rfl, rfl⟩ hbest
  simp only [hadv] at hselected
  rcases hysteresis_cases (candidateOf s route).route (smoothedCost s route)
    (candidateOf s best) with hkeeps | ⟨hswitches, hwhy⟩
  · exact Or.inl (hselected.trans (congrArg some hkeeps))
  · rw [hswitches] at hselected
    rcases hwhy with hsame | hcheaper
    · simp only [sameRoute, Bool.and_eq_true, beq_iff_eq] at hsame
      obtain rfl := usableRoutes_inj h.distinct hbestMem hmem hsame.1
      exact Or.inl hselected
    · exact Or.inr ⟨best, hbestMem, hcheaper, hselected⟩

end OneEntry

end Nylon.Core
