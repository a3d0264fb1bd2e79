import Nylon.Core.Scan

/-!
What `computeRoutes` leaves for one prefix. The four passes of the code walk
whole tables and overwrite each other; here each pass is described by the entry
it leaves under a single prefix, in terms of the state before the run. All
results about route selection use these descriptions and not the loops.
-/

namespace Nylon.Core

open State Netip Lib

variable {s : RouterState} {c : Candidate} {p : Prefix} {now : Time} {r : SelRoute}

/-- The entry the first pass leaves: the previous one as `INF` if it is held. -/
def heldRoute (s : RouterState) (now : Time) (p : Prefix) : Option SelRoute :=
  (s.routes.lookup p).bind fun route =>
    if isHeldRoute s route (connectedNeighs s) (hasLink s route.nh) now then
      some {route with metric := INF}
    else none

/-- The entry the first two passes leave: an own advertisement, or else a held
route. It is the incumbent of the selection. -/
def incumbent (s : RouterState) (now : Time) (p : Prefix) : Option SelRoute :=
  match s.advertised.lookup p with
  | some adv => some (advertisedRoute s now p adv)
  | none => heldRoute s now p

def candidates (s : RouterState) (p : Prefix) : List Candidate :=
  s.neighbours.filterMap fun neigh =>
    (neigh.routes.lookup p).bind (candidate s neigh)

def prevCandidate (s : RouterState) (p : Prefix) : Option Candidate :=
  ((candidates s p).filter fun cand =>
    isPreviousSelection s p cand.route.nh cand.route.toSource).getLast?

/-- The entry of the table the selection passes build. -/
def selectedRoute (s : RouterState) (now : Time) (p : Prefix) : Option SelRoute :=
  match bestCandidate (candidates s p) with
  | none => incumbent s now p
  | some best => some (selectRoute (incumbent s now p) (prevCandidate s p) best)

def losesRoute (s : RouterState) (now : Time) (p : Prefix) : Bool :=
  (s.routes.lookup p).any (·.metric != INF) &&
    (selectedRoute s now p).all (·.metric == INF)

/-- The entry `computeRoutes` leaves for a prefix. -/
def finalRoute (s : RouterState) (now : Time) (p : Prefix) : Option SelRoute :=
  match s.routes.lookup p with
  | none => selectedRoute s now p
  | some old =>
    if losesRoute s now p then some {old with metric := INF, retractedBy := []}
    else selectedRoute s now p

theorem lookup_heldTable (s : RouterState) (now : Time) (p : Prefix) :
    (heldTable s now).lookup p = heldRoute s now p := by
  refine (Table.range_pointwise s.routes _ ∅ (AList.lookup p) p
    (fun route cur =>
      if isHeldRoute s route (connectedNeighs s) (hasLink s route.nh) now then
        some {route with metric := INF} else cur) ?_ ?_).trans ?_
  · intro table route _
    split <;> simp [AList.lookup_insert]
  · intro table k route _ hne
    split
    · exact AList.lookup_insert_ne hne.symm
    · rfl
  · unfold heldRoute
    cases s.routes.lookup p with
    | none => rfl
    | some route => simp

/-- An own advertisement overwrites what the table has for its prefix. -/
theorem lookup_advertisedTable (s : RouterState) (now : Time)
    (table : Table Prefix SelRoute) (p : Prefix) :
    (advertisedTable s now table).lookup p =
      match s.advertised.lookup p with
      | some adv => some (advertisedRoute s now p adv)
      | none => table.lookup p := by
  refine (Table.range_pointwise s.advertised _ _ (AList.lookup p) p
    (fun adv _ => some (advertisedRoute s now p adv)) ?_ ?_).trans ?_
  · intro table adv _
    exact AList.lookup_insert table
  · intro table k adv _ hne
    exact AList.lookup_insert_ne hne.symm
  · cases s.advertised.lookup p <;> rfl

theorem candidate_eq_some {n : Neighbour} {adv : NeighRoute} (h : candidate s n adv = some c) :
    addMetric (hopCostTo s n) adv.metric ≠ INF ∧
    checkFeasibility s adv.toPubRoute = true ∧
    c.route.nh = n.id ∧ c.route.toSource = adv.toSource ∧
    c.route.seqno = adv.seqno ∧
    c.route.metric = addMetric (hopCostTo s n) adv.metric ∧
    c.route.retractedBy = [] ∧
    c.smoothed = smoothMetric adv.smoothedMetric c.route.metric
      s.metricSmoothingAlpha := by
  simp only [candidate] at h
  split at h
  · cases h
  · next hfinite =>
    split at h
    · cases h
    · next hfeasible =>
      simp only [Option.some.injEq] at h
      subst h
      exact ⟨hfinite, by simpa using hfeasible, rfl, rfl, rfl, rfl, rfl, rfl⟩

theorem mem_candidates : c ∈ candidates s p ↔ ∃ n ∈ s.neighbours, ∃ adv,
      n.routes.lookup p = some adv ∧ candidate s n adv = some c := by
  simp only [candidates, List.mem_filterMap, Option.bind_eq_some_iff]

/-- The candidate that continues the previous selection is a candidate with
the next hop and the source of the previous entry. -/
theorem prevCandidate_spec (h : prevCandidate s p = some c) :
    c ∈ candidates s p ∧ ∃ prev, s.routes.lookup p = some prev ∧
      prev.nh = c.route.nh ∧ prev.toSource = c.route.toSource := by
  obtain ⟨hmem, hprev⟩ := List.mem_filter.mp (List.mem_of_getLast? h)
  refine ⟨hmem, ?_⟩
  unfold isPreviousSelection at hprev
  cases hroute : s.routes.lookup p with
  | none => simp [hroute] at hprev
  | some prev =>
    simp only [hroute, Bool.and_eq_true, beq_iff_eq] at hprev
    exact ⟨prev, rfl, hprev.1, hprev.2⟩

private theorem candidate_origin (s : RouterState) (n : Neighbour) (adv : NeighRoute)
    (c : Candidate) (h : candidate s n adv = some c) :
    c.route.nh = n.id ∧ c.route.toSource = adv.toSource :=
  ⟨(candidate_eq_some h).2.2.1, (candidate_eq_some h).2.2.2.1⟩

theorem lookup_bestByPrefix (s : RouterState) (p : Prefix) :
    (scanNeighbours s).1.bestByPrefix.lookup p = bestCandidate (candidates s p) := by
  rw [scanNeighbours]
  exact lookup_bestByPrefix_by _ _ s (candidate_origin s) p

theorem lookup_selByPrefix (s : RouterState) (p : Prefix) :
    (scanNeighbours s).1.selByPrefix.lookup p = prevCandidate s p := by
  rw [scanNeighbours]
  exact lookup_selByPrefix_by _ _ s (candidate_origin s) p

theorem lookup_selectRoutes (scan : Scan) (table : Table Prefix SelRoute) (p : Prefix) :
    (selectRoutes scan table).lookup p =
      match scan.bestByPrefix.lookup p with
      | none => table.lookup p
      | some best =>
        some (selectRoute (table.lookup p) (scan.selByPrefix.lookup p) best) := by
  refine (Table.range_pointwise scan.bestByPrefix _ _ (AList.lookup p) p
    (fun best cur => some (selectRoute cur (scan.selByPrefix.lookup p) best))
    ?_ ?_).trans ?_
  · intro table best _
    exact AList.lookup_insert table
  · intro table k best _ hne
    exact AList.lookup_insert_ne hne.symm
  · cases scan.bestByPrefix.lookup p <;> rfl

theorem lookup_newTable (s : RouterState) (now : Time) (p : Prefix) :
    (newTable s now).lookup p = selectedRoute s now p := by
  have hincumbent : (advertisedTable s now (heldTable s now)).lookup p = incumbent s now p := by
    rw [lookup_advertisedTable, lookup_heldTable]
    unfold incumbent
    cases s.advertised.lookup p <;> rfl
  unfold newTable selectedRoute
  rw [lookup_selectRoutes, lookup_bestByPrefix, lookup_selByPrefix, hincumbent]

/-- The current route is kept unless the best candidate is the same route or
has a strictly smaller metric. -/
theorem hysteresis_cases (cur : SelRoute) (curSmoothed : ℚ) (best : Candidate) :
    hysteresis cur curSmoothed best = cur ∨ hysteresis cur curSmoothed best = best.route ∧
        (sameRoute best.route cur = true ∨ best.route.metric < cur.metric) := by
  unfold hysteresis
  split
  · next hsame => exact Or.inr ⟨rfl, Or.inl hsame⟩
  · split
    · next hswitch => exact Or.inr ⟨rfl, Or.inr hswitch.1⟩
    · exact Or.inl rfl

theorem selectRoute_incumbent (inc : SelRoute) (sel : Option Candidate) (best : Candidate) :
    selectRoute (some inc) sel best = inc ∨ selectRoute (some inc) sel best = best.route ∧
        (sameRoute best.route inc = true ∨ best.route.metric < inc.metric) := by
  cases sel <;> exact hysteresis_cases inc _ best

theorem selectRoute_none (sel : Option Candidate) (best : Candidate) :
    selectRoute none sel best = best.route ∨
      ∃ c, sel = some c ∧ selectRoute none sel best = c.route := by
  cases sel with
  | none => exact Or.inl rfl
  | some c =>
    rcases hysteresis_cases c.route c.smoothed best with hkeep | ⟨hswitch, _⟩
    · exact Or.inr ⟨c, rfl, hkeep⟩
    · exact Or.inl hswitch

theorem heldRoute_eq_some : heldRoute s now p = some r ↔ ∃ old, s.routes.lookup p = some old ∧
      isHeldRoute s old (connectedNeighs s) (hasLink s old.nh) now = true ∧
      r = {old with metric := INF} := by
  unfold heldRoute
  rw [Option.bind_eq_some_iff]
  constructor
  · rintro ⟨old, hold, h⟩
    split at h
    · next hheld => exact ⟨old, hold, hheld, (Option.some.inj h).symm⟩
    · cases h
  · rintro ⟨old, hold, hheld, rfl⟩
    exact ⟨old, hold, by simp [hheld]⟩

/-- Where an entry of the new table comes from: an own advertisement, a
candidate, or a held route of a prefix that is not advertised. A candidate
displaces an own advertisement only with its next hop or a smaller metric. -/
theorem selectedRoute_cases (h : selectedRoute s now p = some r) :
    (∃ adv, s.advertised.lookup p = some adv ∧ r = advertisedRoute s now p adv) ∨
    (∃ c ∈ candidates s p, r = c.route ∧ ∀ adv, s.advertised.lookup p = some adv →
        c.route.nh = adv.nodeId ∨ c.route.metric < advMetric adv) ∨
    (∃ old, s.routes.lookup p = some old ∧ s.advertised.lookup p = none ∧
      isHeldRoute s old (connectedNeighs s) (hasLink s old.nh) now = true ∧
      r = {old with metric := INF}) := by
  unfold selectedRoute at h
  cases hadv : s.advertised.lookup p with
  | some adv =>
    have hinc : incumbent s now p = some (advertisedRoute s now p adv) := by
      simp [incumbent, hadv]
    rw [hinc] at h
    cases hbest : bestCandidate (candidates s p) with
    | none =>
      simp only [hbest, Option.some.injEq] at h
      exact Or.inl ⟨adv, rfl, h.symm⟩
    | some best =>
      simp only [hbest, Option.some.injEq] at h
      rcases selectRoute_incumbent (advertisedRoute s now p adv)
        (prevCandidate s p) best with hkeep | ⟨hswitch, hwhy⟩
      · exact Or.inl ⟨adv, rfl, h.symm.trans hkeep⟩
      · refine Or.inr (Or.inl ⟨best, (bestCandidate_spec hbest).1, h.symm.trans hswitch, ?_⟩)
        rintro adv' hadv'
        obtain rfl := Option.some.inj hadv'
        refine hwhy.imp_left fun hsame => ?_
        simp only [sameRoute, Bool.and_eq_true, beq_iff_eq] at hsame
        exact hsame.1
  | none =>
    have hinc : incumbent s now p = heldRoute s now p := by
      simp [incumbent, hadv]
    rw [hinc] at h
    have hfree : ∀ (c : Candidate) adv, (none : Option Advertisement) = some adv →
        c.route.nh = adv.nodeId ∨ c.route.metric < advMetric adv := by
      intro c adv hnone
      cases hnone
    cases hbest : bestCandidate (candidates s p) with
    | none =>
      simp only [hbest] at h
      obtain ⟨old, hold, hheld, hr⟩ := heldRoute_eq_some.mp h
      exact Or.inr (Or.inr ⟨old, hold, rfl, hheld, hr⟩)
    | some best =>
      have hmember := (bestCandidate_spec hbest).1
      simp only [hbest, Option.some.injEq] at h
      cases hheld : heldRoute s now p with
      | some inc =>
        rw [hheld] at h
        rcases selectRoute_incumbent inc (prevCandidate s p) best with
          hkeep | ⟨hswitch, _⟩
        · obtain ⟨old, hold, hisHeld, hinc⟩ := heldRoute_eq_some.mp hheld
          exact Or.inr (Or.inr ⟨old, hold, rfl, hisHeld,
            (h.symm.trans hkeep).trans hinc⟩)
        · exact Or.inr (Or.inl ⟨best, hmember, h.symm.trans hswitch, hfree best⟩)
      | none =>
        rw [hheld] at h
        rcases selectRoute_none (prevCandidate s p) best with
          hbestRoute | ⟨c, hprev, hc⟩
        · exact Or.inr (Or.inl ⟨best, hmember, h.symm.trans hbestRoute, hfree best⟩)
        · exact Or.inr (Or.inl ⟨c, (prevCandidate_spec hprev).1, h.symm.trans hc, hfree c⟩)

/-- An entry that a run leaves is one of the new table, or a finite route that
was lost. -/
theorem finalRoute_cases (h : finalRoute s now p = some r) :
    (selectedRoute s now p = some r ∧ losesRoute s now p = false) ∨
    (∃ old, s.routes.lookup p = some old ∧ old.metric ≠ INF ∧ losesRoute s now p = true ∧
      r = {old with metric := INF, retractedBy := []}) := by
  unfold finalRoute at h
  cases hold : s.routes.lookup p with
  | none =>
    simp only [hold] at h
    exact Or.inl ⟨h, by simp [losesRoute, hold]⟩
  | some old =>
    simp only [hold] at h
    split at h
    · next hlost =>
      refine Or.inr ⟨old, rfl, ?_, hlost, (Option.some.inj h).symm⟩
      simp only [losesRoute, hold, Option.any_some, Bool.and_eq_true] at hlost
      simpa using hlost.1
    · next hkept => exact Or.inl ⟨h, by simpa using hkept⟩

end Nylon.Core
