import Nylon.Core.SelectionSound

/-!
When a usable neighbour route ends up selected. `computeRoutes` leaves a finite
entry for a prefix with a usable route, except in one situation: an `INF`
placeholder is the incumbent, the route it stands for is usable again, and a
different route is cheaper now but not in its smoothed metric. The placeholder
then inherits the smoothed metric of the returning route and wins the
comparison as if it were finite.
-/

namespace Nylon.Core

open State Netip Lib

variable {s : RouterState} {p : Prefix}

/-- A stored route a run may select. -/
def Usable (s : RouterState) (n : Neighbour) (st : NeighRoute) : Prop :=
  hasLink s n.id = true ∧ st.metric ≠ INF ∧ checkFeasibility s st.toPubRoute = true ∧
    addMetric (hopCostTo s n) st.metric ≠ INF

instance (s : RouterState) (n : Neighbour) (st : NeighRoute) : Decidable (Usable s n st) :=
  inferInstanceAs (Decidable (_ ∧ _ ∧ _ ∧ _))

/-- The usable routes to a prefix, in the order of the neighbours. -/
def usableRoutes (s : RouterState) (p : Prefix) : List (Neighbour × NeighRoute) :=
  s.neighbours.filterMap fun n =>
    (n.routes.lookup p).bind fun st =>
      if Usable s n st then some (n, st) else none

def totalCost (s : RouterState) (route : Neighbour × NeighRoute) : Metric :=
  addMetric (hopCostTo s route.1) route.2.metric

def smoothedCost (s : RouterState) (route : Neighbour × NeighRoute) : ℚ :=
  smoothMetric route.2.smoothedMetric (totalCost s route) s.metricSmoothingAlpha

/-- Whether a neighbour route has the next hop and the source of an entry. -/
def Continues (prev : SelRoute) (route : Neighbour × NeighRoute) : Prop :=
  prev.nh = route.1.id ∧ prev.toSource = route.2.toSource

instance (prev : SelRoute) (route : Neighbour × NeighRoute) : Decidable (Continues prev route) :=
  inferInstanceAs (Decidable (_ ∧ _))

/-- The previous entry lives on as an unreachable placeholder: it is held, or
it belongs to an own advertisement whose metric is `INF`. -/
def IsPlaceholder (s : RouterState) (now : Time) (p : Prefix) (prev : SelRoute) :
    Prop :=
  match s.advertised.lookup p with
  | some adv => advMetric adv = INF ∧ prev.nh = adv.nodeId ∧
      prev.toSource = ⟨s.id, p⟩
  | none =>
    isHeldRoute s prev (connectedNeighs s) (hasLink s prev.nh) now = true

/-- The placeholder of the previous entry wins the comparison: the route it
stands for is usable, the cheapest usable route is another one, and that one's
smoothed cost is not smaller. -/
def PlaceholderWins (s : RouterState) (now : Time) (p : Prefix) : Prop :=
  ∃ prev returning cheapest, s.routes.lookup p = some prev ∧ IsPlaceholder s now p prev ∧
    ((usableRoutes s p).filter (fun route => Continues prev route)).getLast? = some returning ∧
    (usableRoutes s p).argmin (totalCost s) = some cheapest ∧
    ¬ Continues prev cheapest ∧
    smoothedCost s returning ≤ smoothedCost s cheapest

def candidateOf (s : RouterState) (route : Neighbour × NeighRoute) : Candidate :=
  { route :=
      { route.2.toPubRoute with
        metric := totalCost s route
        nh := route.1.id
        expireAt := route.2.expireAt
        retractedBy := [] }
    smoothed := smoothedCost s route }

theorem candidate_eq_ite (s : RouterState) (n : Neighbour) (st : NeighRoute) : candidate s n st =
      if Usable s n st then some (candidateOf s (n, st)) else none := by
  simp only [candidate, Usable]
  by_cases htotal : addMetric (hopCostTo s n) st.metric = INF
  · simp [htotal]
  · obtain ⟨hhop, hstored⟩ := (addMetric_ne_INF_iff _ _).mp htotal
    have hlink := (hopCostTo_ne_INF hhop).1
    by_cases hfeasible : checkFeasibility s st.toPubRoute = true
    · simp [htotal, hstored, hlink, hfeasible, candidateOf, totalCost, smoothedCost]
    · simp [htotal, hfeasible]

theorem candidates_eq_map (s : RouterState) (p : Prefix) :
    candidates s p = (usableRoutes s p).map (candidateOf s) := by
  unfold candidates usableRoutes
  rw [List.map_filterMap]
  congr 1
  funext n
  cases n.routes.lookup p with
  | none => rfl
  | some st =>
    simp only [Option.bind_some, candidate_eq_ite]
    split <;> rfl

theorem mem_usableRoutes {route : Neighbour × NeighRoute} :
    route ∈ usableRoutes s p ↔ route.1 ∈ s.neighbours ∧
      route.1.routes.lookup p = some route.2 ∧ Usable s route.1 route.2 := by
  simp only [usableRoutes, List.mem_filterMap, Option.bind_eq_some_iff]
  constructor
  · rintro ⟨n, hn, st, hst, h⟩
    split at h
    · next husable =>
      obtain rfl := Option.some.inj h
      exact ⟨hn, hst, husable⟩
    · cases h
  · rintro ⟨hn, hst, husable⟩
    exact ⟨route.1, hn, route.2, hst, by simp [husable]⟩

theorem usableRoutes_ne_nil : usableRoutes s p ≠ [] ↔ ∃ n ∈ s.neighbours, ∃ st,
      n.routes.lookup p = some st ∧ Usable s n st := by
  constructor
  · intro h
    obtain ⟨route, hmem⟩ := List.exists_mem_of_ne_nil _ h
    obtain ⟨hn, hst, husable⟩ := mem_usableRoutes.mp hmem
    exact ⟨route.1, hn, route.2, hst, husable⟩
  · rintro ⟨n, hn, st, hst, husable⟩
    exact List.ne_nil_of_mem (a := (n, st)) (mem_usableRoutes.mpr ⟨hn, hst, husable⟩)

theorem bestCandidate_eq_map (s : RouterState) (p : Prefix) : bestCandidate (candidates s p) =
      ((usableRoutes s p).argmin (totalCost s)).map (candidateOf s) := by
  rw [candidates_eq_map, bestCandidate]
  unfold List.argmin
  rw [List.foldl_map]
  change List.foldl _ (Option.map (candidateOf s) none) _ = _
  apply List.foldl_hom (Option.map (candidateOf s))
  intro cur route
  cases cur with
  | none => rfl
  | some cur =>
    change (if totalCost s route < totalCost s cur then _ else _) =
      Option.map _ (if totalCost s route < totalCost s cur then _ else _)
    split <;> rfl

theorem prevCandidate_eq_map {prev : SelRoute} (hprev : s.routes.lookup p = some prev) :
    prevCandidate s p =
      (((usableRoutes s p).filter (fun route => Continues prev route)).getLast?).map
        (candidateOf s) := by
  have hcontinues : ∀ route, isPreviousSelection s p (candidateOf s route).route.nh
      (candidateOf s route).route.toSource = decide (Continues prev route) := by
    intro route
    simp only [isPreviousSelection, hprev, candidateOf, beq_eq_decide]
    exact (Bool.decide_and _ _).symm
  unfold prevCandidate
  rw [candidates_eq_map, List.filter_map, List.getLast?_map]
  congr 2
  exact List.filter_congr fun route _ => hcontinues route

/-- Smoothing stays below `INFM`: it mixes values that do. -/
theorem smoothMetric_le_INFM {prev alpha : ℚ} {sample : Metric}
    (hprev : prev ≤ INFM.toNat) (hsample : sample ≠ INF) (hpos : 0 < alpha)
    (hone : alpha ≤ 1) : smoothMetric prev sample alpha ≤ INFM.toNat := by
  have hvalue : (sample.toNat : ℚ) ≤ INFM.toNat := by
    exact_mod_cast (ne_INF_iff sample).mp hsample
  unfold smoothMetric
  split
  · exact hvalue
  · have hnew := mul_le_mul_of_nonneg_left hvalue hpos.le
    have hold := mul_le_mul_of_nonneg_left hprev (sub_nonneg.mpr hone)
    linarith

/-- The selection for one prefix ends at an unreachable route only if an
unreachable incumbent shares the smoothed metric of a returning candidate. -/
theorem selectRoute_eq_INF_iff {inc : Option SelRoute} {sel : Option Candidate}
    {best : Candidate} (hbest : best.route.metric ≠ INF)
    (hsmoothed : best.smoothed ≤ INFM.toNat)
    (hsel : ∀ c, sel = some c → c.route.metric ≠ INF) :
    (selectRoute inc sel best).metric = INF ↔ ∃ i c, inc = some i ∧ i.metric = INF ∧ sel = some c ∧
        sameRoute i c.route = true ∧ sameRoute best.route i = false ∧
        c.smoothed ≤ best.smoothed := by
  have hINF : best.smoothed < INF.toNat := by
    refine hsmoothed.trans_lt ?_
    exact_mod_cast (by decide : INFM.toNat < INF.toNat)
  have hlt : best.route.metric < INF := (lt_INF_iff _).mpr hbest
  constructor
  · intro h
    cases inc with
    | none =>
      rcases selectRoute_none sel best with hroute | ⟨c, hc, hroute⟩
      · exact absurd (hroute ▸ h) hbest
      · exact absurd (hroute ▸ h) (hsel c hc)
    | some i =>
      rcases selectRoute_incumbent i sel best with hkeep | ⟨hswitch, _⟩
      · rw [hkeep] at h
        have hrule : ∀ smoothed : ℚ, hysteresis i smoothed best = i →
            sameRoute best.route i = false ∧ smoothed ≤ best.smoothed := by
          intro smoothed hkept
          unfold hysteresis at hkept
          split at hkept
          · exact absurd (hkept ▸ h) hbest
          · next hdiffer =>
            split at hkept
            · exact absurd (hkept ▸ h) hbest
            · next hstay =>
              rw [h] at hstay
              refine ⟨by simpa using hdiffer, ?_⟩
              exact le_of_not_gt fun hgt => hstay ⟨hlt, hgt⟩
        cases sel with
        | none =>
          obtain ⟨_, hle⟩ := hrule _ hkeep
          rw [h] at hle
          exact absurd hINF (not_lt_of_ge hle)
        | some c =>
          obtain ⟨hdiffer, hle⟩ := hrule _ hkeep
          split at hle
          · next hsame => exact ⟨i, c, rfl, h, rfl, hsame, hdiffer, hle⟩
          · rw [h] at hle
            exact absurd hINF (not_lt_of_ge hle)
      · exact absurd (hswitch ▸ h) hbest
  · rintro ⟨i, c, rfl, hi, rfl, hsame, hdiffer, hle⟩
    simp only [selectRoute, hysteresis, hsame, hdiffer, if_true,
      not_lt_of_ge hle, and_false, if_false, Bool.false_eq_true]
    exact hi

theorem finalRoute_finite_iff (s : RouterState) (now : Time) (p : Prefix) :
    (∃ r, finalRoute s now p = some r ∧ r.metric ≠ INF) ↔
      ∃ r, selectedRoute s now p = some r ∧ r.metric ≠ INF := by
  constructor
  · rintro ⟨r, hr, hfinite⟩
    rcases finalRoute_cases hr with ⟨hsel, _⟩ | ⟨old, _, _, _, rfl⟩
    · exact ⟨r, hsel, hfinite⟩
    · exact absurd rfl hfinite
  · rintro ⟨r, hr, hfinite⟩
    refine ⟨r, ?_, hfinite⟩
    have hkept : losesRoute s now p = false := by
      simp [losesRoute, hr, hfinite]
    unfold finalRoute
    split
    · exact hr
    · rw [hkept]
      exact hr

/-- The incumbent is an unreachable route like the previous entry exactly if
the previous entry lives on as a placeholder. -/
theorem incumbent_placeholder_iff {now : Time}
    {prev : SelRoute} (hprev : s.routes.lookup p = some prev) :
    (∃ inc, incumbent s now p = some inc ∧ inc.metric = INF ∧
      inc.nh = prev.nh ∧ inc.toSource = prev.toSource) ↔
      IsPlaceholder s now p prev := by
  unfold incumbent IsPlaceholder
  cases s.advertised.lookup p with
  | some adv =>
    constructor
    · rintro ⟨inc, hinc, hmetric, hnh, hsource⟩
      obtain rfl := Option.some.inj hinc
      exact ⟨hmetric, hnh.symm, hsource.symm⟩
    · rintro ⟨hmetric, hnh, hsource⟩
      exact ⟨_, rfl, hmetric, hnh.symm, hsource.symm⟩
  | none =>
    constructor
    · rintro ⟨inc, hinc, _⟩
      obtain ⟨old, hold, hheld, _⟩ := heldRoute_eq_some.mp hinc
      obtain rfl : prev = old := by simpa [hprev] using hold
      exact hheld
    · intro hheld
      exact ⟨_, heldRoute_eq_some.mpr ⟨prev, hprev, hheld, rfl⟩, rfl, rfl, rfl⟩

/-- The condition on the tables, in terms of what the selection compares. -/
theorem placeholderWins_iff {now : Time} {cheapest : Neighbour × NeighRoute}
    (hcheapest : (usableRoutes s p).argmin (totalCost s) = some cheapest) :
    PlaceholderWins s now p ↔ ∃ i c, incumbent s now p = some i ∧ i.metric = INF ∧
        prevCandidate s p = some c ∧ sameRoute i c.route = true ∧
        sameRoute (candidateOf s cheapest).route i = false ∧
        c.smoothed ≤ (candidateOf s cheapest).smoothed := by
  constructor
  · rintro ⟨prev, returning, cheapest', hprev, hplace, hreturning, hcheapest', hdiffer, hle⟩
    obtain rfl : cheapest = cheapest' := by simpa [hcheapest] using hcheapest'
    obtain ⟨i, hi, himetric, hnh, hsource⟩ :=
      (incumbent_placeholder_iff hprev).mpr hplace
    have hcontinues := (List.mem_filter.mp (List.mem_of_getLast? hreturning)).2
    simp only [decide_eq_true_eq] at hcontinues
    refine ⟨i, candidateOf s returning, hi, himetric, ?_, ?_, ?_, hle⟩
    · rw [prevCandidate_eq_map hprev, hreturning, Option.map_some]
    · simp [sameRoute, candidateOf, hnh, hsource, hcontinues.1, hcontinues.2]
    · have hother : ¬ (cheapest.1.id = i.nh ∧ cheapest.2.toSource = i.toSource) := by
        rintro ⟨hid, hsrc⟩
        exact hdiffer ⟨(hid.trans hnh).symm, (hsrc.trans hsource).symm⟩
      simpa [sameRoute, candidateOf] using hother
  · rintro ⟨i, c, hi, himetric, hc, hsame, hdiffer, hle⟩
    obtain ⟨_, prev, hprev, hnh, hsource⟩ := prevCandidate_spec hc
    simp only [sameRoute, Bool.and_eq_true, beq_iff_eq] at hsame
    have hi' : i.nh = prev.nh ∧ i.toSource = prev.toSource :=
      ⟨hsame.1.trans hnh.symm, hsame.2.trans hsource.symm⟩
    have hplace := (incumbent_placeholder_iff hprev).mp ⟨i, hi, himetric, hi'⟩
    rw [prevCandidate_eq_map hprev, Option.map_eq_some_iff] at hc
    obtain ⟨returning, hreturning, rfl⟩ := hc
    refine ⟨prev, returning, cheapest, hprev, hplace, hreturning, hcheapest, ?_, hle⟩
    rintro ⟨hnh', hsource'⟩
    simp [sameRoute, candidateOf, hi', hnh', hsource'] at hdiffer

/-- A run leaves a finite entry for a prefix with a usable route exactly if no
placeholder wins against it. -/
theorem computeRoutes_finite_iff (s : RouterState) (now : Time) (p : Prefix)
    (hpos : 0 < s.metricSmoothingAlpha) (hone : s.metricSmoothingAlpha ≤ 1)
    (hsmoothed : ∀ n ∈ s.neighbours, ∀ q st, n.routes.lookup q = some st →
      0 ≤ st.smoothedMetric ∧ st.smoothedMetric ≤ INFM.toNat)
    (husable : ∃ n ∈ s.neighbours, ∃ st, n.routes.lookup p = some st ∧ Usable s n st) :
    (∃ r, (computeRoutes s now).1.routes.lookup p = some r ∧ r.metric ≠ INF) ↔
      ¬ PlaceholderWins s now p := by
  obtain ⟨cheapest, hcheapest⟩ :
      ∃ cheapest, (usableRoutes s p).argmin (totalCost s) = some cheapest := by
    refine Option.ne_none_iff_exists'.mp fun hnone => ?_
    exact usableRoutes_ne_nil.mpr husable (List.argmin_eq_none.mp hnone)
  obtain ⟨hn, hst, _, _, _, htotal⟩ :=
    mem_usableRoutes.mp (List.argmin_mem hcheapest)
  have hbest : bestCandidate (candidates s p) = some (candidateOf s cheapest) := by
    rw [bestCandidate_eq_map, hcheapest, Option.map_some]
  have hselected : selectedRoute s now p = some (selectRoute
      (incumbent s now p) (prevCandidate s p) (candidateOf s cheapest)) := by
    simp only [selectedRoute, hbest]
  have hfinite : ∀ c, prevCandidate s p = some c → c.route.metric ≠ INF := by
    intro c hc
    obtain ⟨n, _, st, _, hcand⟩ := mem_candidates.mp (prevCandidate_spec hc).1
    obtain ⟨htotal, _, _, _, _, hmetric, _⟩ := candidate_eq_some hcand
    rwa [hmetric]
  have hbound : (candidateOf s cheapest).smoothed ≤ INFM.toNat :=
    smoothMetric_le_INFM (hsmoothed _ hn p _ hst).2 htotal hpos hone
  simp only [lookup_computeRoutes]
  rw [finalRoute_finite_iff, hselected]
  simp only [Option.some.injEq, exists_eq_left']
  rw [Ne, selectRoute_eq_INF_iff htotal hbound hfinite, placeholderWins_iff hcheapest]

/-- Node `a` holds the retracted route through `b`. The route is announced again
at a higher price than before, and the route through `c` has become cheaper
than it used to be. -/
def returningState : RouterState :=
  let p : Prefix := ⟨.v4 0x0A000200, 24, Prefix.bits24_le⟩
  let viaB : NeighRoute := ⟨⟨⟨"d", p⟩, ⟨1, 1000⟩⟩, 100, 200⟩
  let viaC : NeighRoute := ⟨⟨⟨"d", p⟩, ⟨1, 500⟩⟩, 100, 3000⟩
  { RouterState.init defaultRouterTunables "a" with
    routes := AList.singleton p ⟨⟨⟨"d", p⟩, ⟨0, INF⟩⟩, "b", 100, []⟩
    sources := AList.singleton ⟨"d", p⟩ ⟨0, 200⟩
    neighbours := [⟨"b", AList.singleton p viaB, true, 100⟩,
      ⟨"c", AList.singleton p viaC, true, 100⟩] }

private theorem returningState_smoothed :
    ∀ n ∈ returningState.neighbours, ∀ q st, n.routes.lookup q = some st →
      0 ≤ st.smoothedMetric ∧ st.smoothedMetric ≤ INFM.toNat := by
  have h : ∀ n ∈ returningState.neighbours, ∀ entry ∈ n.routes.entries,
      0 ≤ entry.2.smoothedMetric ∧ entry.2.smoothedMetric ≤ INFM.toNat := by
    decide +kernel
  exact fun n hn => Table.forall_lookup (h n hn)

private theorem returningState_usable : ∃ n ∈ returningState.neighbours, ∃ st,
      n.routes.lookup ⟨.v4 0x0A000200, 24, by decide⟩ = some st ∧
      Usable returningState n st := by
  refine ⟨_, List.mem_cons_self, _, rfl, ?_⟩
  decide +kernel

/-- Both neighbours offer a usable route, and the entry stays unreachable. -/
theorem returningState_stays_unreachable : (0 < returningState.metricSmoothingAlpha ∧
      returningState.metricSmoothingAlpha ≤ 1) ∧
    (∀ n ∈ returningState.neighbours, ∀ q st, n.routes.lookup q = some st →
      0 ≤ st.smoothedMetric ∧ st.smoothedMetric ≤ INFM.toNat) ∧
    (∃ n ∈ returningState.neighbours, ∃ st,
      n.routes.lookup ⟨.v4 0x0A000200, 24, by decide⟩ = some st ∧
      Usable returningState n st) ∧
    ¬ ∃ r, (computeRoutes returningState 0).1.routes.lookup
      ⟨.v4 0x0A000200, 24, by decide⟩ = some r ∧ r.metric ≠ INF := by
  refine ⟨by decide +kernel, returningState_smoothed, returningState_usable, ?_⟩
  have hentry : ((computeRoutes returningState 0).1.routes.lookup
      ⟨.v4 0x0A000200, 24, by decide⟩).all (·.metric = INF) = true := by
    decide +kernel
  rintro ⟨r, hr, hfinite⟩
  rw [hr] at hentry
  exact hfinite (by simpa using hentry)

theorem computeRoutes_finite_iff_returning : (∃ r, (computeRoutes returningState 0).1.routes.lookup
      ⟨.v4 0x0A000200, 24, by decide⟩ = some r ∧ r.metric ≠ INF) ↔
      ¬ PlaceholderWins returningState 0 ⟨.v4 0x0A000200, 24, by decide⟩ :=
  computeRoutes_finite_iff returningState 0 ⟨.v4 0x0A000200, 24, by decide⟩
    (by decide +kernel) (by decide +kernel) returningState_smoothed
    returningState_usable

end Nylon.Core
