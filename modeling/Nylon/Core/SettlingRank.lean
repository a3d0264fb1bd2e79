import Nylon.Lib.Settling
import Nylon.Core.RepeatedRuns
import Mathlib.Algebra.Order.BigOperators.Group.List
import Mathlib.Data.Prod.Lex

/-!
A rank for the entry of each prefix, for runs of `computeRoutes` between which
nothing else happens. It counts first how far the smoothed metrics are from
undercutting an own advertisement, then the kind of the entry, then its metric and
the position of the neighbour in use. A run that changes the entry makes the rank
smaller, and no run makes it larger.
-/

namespace Nylon.Core

open State Netip Lib Lib.Settling

/-- The number of runs until the route of a neighbour undercuts the advertisement
in its smoothed metric, if it does in its metric. -/
noncomputable def neighbourLag (s : RouterState) (p : Prefix) (adv : Advertisement)
    (n : Neighbour) : ℕ :=
  match n.routes.lookup p with
  | none => 0
  | some st =>
    if totalCost s (n, st) < advMetric adv then
      stepsBelow (fun x => smoothMetric x (totalCost s (n, st)) s.metricSmoothingAlpha)
        ((advMetric adv).toNat : ℚ) st.smoothedMetric
    else 0

noncomputable def lag (s : RouterState) (p : Prefix) : ℕ :=
  match s.advertised.lookup p with
  | none => 0
  | some adv => (s.neighbours.map (neighbourLag s p adv)).sum

/-- The entry is a route that is usable now, and it is cheaper than an own
advertisement. -/
def Learned (s : RouterState) (p : Prefix) (r : SelRoute) : Prop :=
  (∃ route ∈ usableRoutes s p, r = (candidateOf s route).route) ∧
    ∀ adv ∈ s.advertised.lookup p, r.metric < advMetric adv

instance (s : RouterState) (p : Prefix) (r : SelRoute) : Decidable (Learned s p r) :=
  inferInstanceAs (Decidable (_ ∧ _))

/-- The kind of an entry, from those a run keeps to those it cannot leave. -/
def phase (s : RouterState) (now : Time) (p : Prefix) : ℕ :=
  match s.routes.lookup p with
  | none => if (s.advertised.lookup p).isSome then 3 else 1
  | some r =>
    if Learned s p r then 0
    else if ∃ adv ∈ s.advertised.lookup p, r = advertisedRoute s now p adv then 1
    else if r.metric = INF then 2
    else 3

/-- The metric of an entry and the position of its next hop. -/
def entryRank (s : RouterState) (p : Prefix) : ℕ ×ₗ ℕ :=
  match s.routes.lookup p with
  | none => toLex (0, 0)
  | some r => toLex (r.metric.toNat, (neighbourIds s).idxOf r.nh)

noncomputable def rank (s : RouterState) (now : Time) (p : Prefix) : ℕ ×ₗ (ℕ ×ₗ (ℕ ×ₗ ℕ)) :=
  toLex (lag s p, toLex (phase s now p, entryRank s p))

section Smoothing

variable {alpha : ℚ} {sample : Metric}

theorem approaches_smoothMetric (hle : alpha ≤ 1) :
    Approaches (fun x => smoothMetric x sample alpha) (sample.toNat : ℚ) (1 - alpha) := by
  intro x
  have hnonneg : 0 ≤ 1 - alpha := by linarith
  by_cases hx : x = 0
  · have hseed : smoothMetric x sample alpha = sample.toNat := by simp [smoothMetric, hx]
    simp only [hseed, sub_self, abs_zero]
    positivity
  · have hmix : smoothMetric x sample alpha - sample.toNat =
        (1 - alpha) * (x - sample.toNat) := by
      simp only [smoothMetric, hx, if_false]
      ring
    simp only [hmix, abs_mul, abs_of_nonneg hnonneg]
    exact le_refl _

theorem smoothMetric_lt (hpos : 0 < alpha) (hle : alpha ≤ 1) {bound x : ℚ}
    (hsample : (sample.toNat : ℚ) < bound) (hx : x < bound) :
    smoothMetric x sample alpha < bound := by
  refine (approaches_smoothMetric hle).lt_of_lt (by linarith) hsample hx fun hbelow => ?_
  unfold smoothMetric
  split
  · exact le_refl _
  · have hmix := mul_le_mul_of_nonneg_left hbelow (sub_nonneg.mpr hle)
    linarith

theorem exists_smoothMetric_lt (hpos : 0 < alpha) (hle : alpha ≤ 1) {bound : ℚ}
    (hsample : (sample.toNat : ℚ) < bound) (x : ℚ) :
    ∃ j, (fun x => smoothMetric x sample alpha)^[j] x < bound :=
  (approaches_smoothMetric hle).exists_lt (by linarith) (by linarith) hsample x

end Smoothing

section Lag

variable {s : RouterState} {p : Prefix} {adv : Advertisement} {n : Neighbour}

theorem neighbourLag_afterRun (s : RouterState) (now : Time) (p : Prefix)
    (adv : Advertisement) (n : Neighbour) :
    neighbourLag (computeRoutes s now).1 p adv (smoothNeighbour s n) =
      match n.routes.lookup p with
      | none => 0
      | some st =>
        if totalCost s (n, st) < advMetric adv then
          stepsBelow (fun x => smoothMetric x (totalCost s (n, st)) s.metricSmoothingAlpha)
            ((advMetric adv).toNat : ℚ) (afterRun s (n, st)).2.smoothedMetric
        else 0 := by
  have halpha : (computeRoutes s now).1.metricSmoothingAlpha = s.metricSmoothingAlpha := by
    rw [computeRoutes_state]
  unfold neighbourLag
  cases hst : n.routes.lookup p with
  | none => simp [lookup_smoothNeighbour, hst]
  | some st =>
    have hcost := totalCost_afterRun s now (n, st)
    simp only [lookup_afterRun hst, halpha]
    change (if totalCost _ (afterRun s (n, st)) < _ then
      stepsBelow (fun x => smoothMetric x (totalCost _ (afterRun s (n, st))) _) _ _
      else 0) = _
    rw [hcost]

theorem toNat_lt_cast {a b : Metric} (h : a < b) : (a.toNat : ℚ) < (b.toNat : ℚ) := by
  exact_mod_cast UInt32.lt_iff_toNat_lt.mp h

theorem Settleable.neighbourLag_le (h : Settleable s) (now : Time) (p : Prefix)
    (adv : Advertisement) (n : Neighbour) :
    neighbourLag (computeRoutes s now).1 p adv (smoothNeighbour s n) ≤ neighbourLag s p adv n := by
  rw [neighbourLag_afterRun, neighbourLag]
  cases n.routes.lookup p with
  | none => exact le_refl _
  | some st =>
    dsimp only
    split
    · next hcost =>
      rw [smoothedMetric_afterRun]
      split
      · exact stepsBelow_next_le
          (exists_smoothMetric_lt h.alphaPos h.alphaLe (toNat_lt_cast hcost) _)
          (smoothMetric_lt h.alphaPos h.alphaLe (toNat_lt_cast hcost))
      · exact le_refl _
    · exact le_refl _

/-- The lag of a usable route that does not undercut the advertisement yet gets
smaller. -/
theorem Settleable.neighbourLag_lt (h : Settleable s) (now : Time)
    {route : Neighbour × NeighRoute} (hmem : route ∈ usableRoutes s p)
    (hcost : totalCost s route < advMetric adv)
    (hlate : ¬ smoothedCost s route < (advMetric adv).toNat) :
    neighbourLag (computeRoutes s now).1 p adv (smoothNeighbour s route.1) <
      neighbourLag s p adv route.1 := by
  obtain ⟨_, hst, husable⟩ := mem_usableRoutes.mp hmem
  have hsample := toNat_lt_cast hcost
  have hnotYet : ¬ route.2.smoothedMetric < ((advMetric adv).toNat : ℚ) :=
    fun hbelow => hlate (smoothMetric_lt h.alphaPos h.alphaLe hsample hbelow)
  rw [neighbourLag_afterRun, neighbourLag, hst]
  simp only [hcost, if_true, smoothedMetric_afterRun, husable]
  exact stepsBelow_next_lt
    (exists_smoothMetric_lt h.alphaPos h.alphaLe hsample _) hnotYet

theorem lag_computeRoutes (now : Time) (hadv : s.advertised.lookup p = some adv) :
    lag (computeRoutes s now).1 p = (s.neighbours.map fun n =>
      neighbourLag (computeRoutes s now).1 p adv (smoothNeighbour s n)).sum := by
  have hfields : (computeRoutes s now).1.advertised = s.advertised ∧
      (computeRoutes s now).1.neighbours = s.neighbours.map (smoothNeighbour s) := by
    rw [computeRoutes_state]
    exact ⟨rfl, rfl⟩
  simp only [lag, hfields, hadv, List.map_map]
  rfl

theorem Settleable.lag_le (h : Settleable s) (now : Time) (p : Prefix) :
    lag (computeRoutes s now).1 p ≤ lag s p := by
  cases hadv : s.advertised.lookup p with
  | none =>
    have hsame : (computeRoutes s now).1.advertised = s.advertised := by
      rw [computeRoutes_state]
    simp [lag, hsame, hadv]
  | some adv =>
    rw [lag_computeRoutes now hadv, lag, hadv]
    exact List.sum_le_sum fun n _ => h.neighbourLag_le now p adv n

theorem Settleable.lag_lt (h : Settleable s) (now : Time) (hadv : s.advertised.lookup p = some adv)
    {route : Neighbour × NeighRoute} (hmem : route ∈ usableRoutes s p)
    (hcost : totalCost s route < advMetric adv)
    (hlate : ¬ smoothedCost s route < (advMetric adv).toNat) :
    lag (computeRoutes s now).1 p < lag s p := by
  rw [lag_computeRoutes now hadv, lag, hadv]
  exact List.sum_lt_sum _ _ (fun n _ => h.neighbourLag_le now p adv n)
    ⟨route.1, (mem_usableRoutes.mp hmem).1, h.neighbourLag_lt now hmem hcost hlate⟩

end Lag

section Rank

variable {s t : RouterState} {now : Time} {p : Prefix} {adv : Advertisement}

theorem phase_of_learned {r : SelRoute} (hentry : s.routes.lookup p = some r)
    (hlearned : Learned s p r) : phase s now p = 0 := by
  simp [phase, hentry, hlearned]

theorem phase_le_one (hadv : s.advertised.lookup p = some adv)
    (hentry : s.routes.lookup p = some (advertisedRoute s now p adv)) :
    phase s now p ≤ 1 := by
  unfold phase
  rw [hentry]
  dsimp only
  split
  · exact Nat.zero_le 1
  · rw [if_pos ⟨adv, hadv, rfl⟩]

theorem phase_le_two {r : SelRoute} (hentry : s.routes.lookup p = some r)
    (hINF : r.metric = INF) : phase s now p ≤ 2 := by
  unfold phase
  rw [hentry]
  dsimp only
  split
  · exact Nat.zero_le 2
  · split <;> decide

theorem phase_eq_three {r : SelRoute} (hentry : s.routes.lookup p = some r)
    (hlearned : ¬ Learned s p r) (hfinite : r.metric ≠ INF)
    (hown : ∀ adv ∈ s.advertised.lookup p, r ≠ advertisedRoute s now p adv) :
    phase s now p = 3 := by
  have hnot : ¬ ∃ adv ∈ s.advertised.lookup p, r = advertisedRoute s now p adv := by
    rintro ⟨adv, hadv, heq⟩
    exact hown adv hadv heq
  simp only [phase, hentry, hlearned, hfinite, hnot, if_false]

theorem one_lt_phase (hadv : s.advertised.lookup p = some adv)
    (hlearned : ∀ r ∈ s.routes.lookup p, ¬ Learned s p r)
    (hentry : s.routes.lookup p ≠ some (advertisedRoute s now p adv)) :
    1 < phase s now p := by
  unfold phase
  cases hr : s.routes.lookup p with
  | none => simp [hadv]
  | some r =>
    have hne : ¬ ∃ adv ∈ s.advertised.lookup p, r = advertisedRoute s now p adv := by
      rintro ⟨adv', hadv', rfl⟩
      obtain rfl : adv = adv' := by simpa [hadv] using hadv'
      exact hentry hr
    simp only [hlearned r hr, hne, if_false]
    split <;> decide

theorem phase_pos (hlearned : ∀ r ∈ s.routes.lookup p, ¬ Learned s p r) : 0 < phase s now p := by
  unfold phase
  cases hr : s.routes.lookup p with
  | none => dsimp only; split <;> decide
  | some r =>
    simp only [hlearned r hr, if_false]
    split
    · decide
    · split <;> decide

theorem rank_lt_of_lag (hlag : lag t p < lag s p) : rank t now p < rank s now p :=
  Prod.Lex.toLex_lt_toLex.mpr (Or.inl hlag)

theorem rank_lt_of_phase (hlag : lag t p ≤ lag s p)
    (hphase : phase t now p < phase s now p) : rank t now p < rank s now p := by
  refine Prod.Lex.toLex_strictMono (Prod.mk_lt_mk_of_le_of_lt hlag ?_)
  exact Prod.Lex.toLex_lt_toLex.mpr (Or.inl hphase)

theorem rank_lt_of_entry (hlag : lag t p ≤ lag s p)
    (hphase : phase t now p ≤ phase s now p) (hentry : entryRank t p < entryRank s p) :
    rank t now p < rank s now p := by
  refine Prod.Lex.toLex_strictMono (Prod.mk_lt_mk_of_le_of_lt hlag ?_)
  exact Prod.Lex.toLex_strictMono (Prod.mk_lt_mk_of_le_of_lt hphase hentry)

theorem rank_le (hlag : lag t p ≤ lag s p) (hphase : phase t now p ≤ phase s now p)
    (hentry : entryRank t p = entryRank s p) : rank t now p ≤ rank s now p := by
  refine Prod.Lex.toLex_mono (Prod.mk_le_mk.mpr ⟨hlag, ?_⟩)
  exact Prod.Lex.toLex_mono (Prod.mk_le_mk.mpr ⟨hphase, hentry.le⟩)

end Rank

section Step

variable {s : RouterState} {now : Time} {p : Prefix} {adv : Advertisement}
  {route : Neighbour × NeighRoute}

theorem advertised_computeRoutes (s : RouterState) (now : Time) :
    (computeRoutes s now).1.advertised = s.advertised := by
  rw [computeRoutes_state]

theorem advertisedRoute_computeRoutes (s : RouterState) (now : Time) (p : Prefix)
    (adv : Advertisement) : advertisedRoute (computeRoutes s now).1 now p adv =
      advertisedRoute s now p adv := by
  rw [computeRoutes_state]
  rfl

theorem neighbourIds_computeRoutes (s : RouterState) (now : Time) :
    neighbourIds (computeRoutes s now).1 = neighbourIds s :=
  ids_of_links (links_computeRoutes s now)

/-- A route that a run selects is a learned one for the next run. -/
theorem Settleable.learned_afterRun (h : Settleable s) (hmem : route ∈ usableRoutes s p)
    (hselected : selectedRoute s now p = some (candidateOf s route).route)
    (hundercuts : ∀ adv ∈ s.advertised.lookup p, totalCost s route < advMetric adv) :
    Learned (computeRoutes s now).1 p (candidateOf s route).route := by
  refine ⟨⟨afterRun s route, h.usable_afterRun hmem hselected,
    (candidateOf_afterRun s now route).symm⟩, ?_⟩
  rw [advertised_computeRoutes]
  exact hundercuts

/-- A run that keeps an entry. -/
theorem Settleable.rank_of_kept (h : Settleable s) (hkeeps : finalRoute s now p = s.routes.lookup p)
    (hlearned : ∀ r ∈ s.routes.lookup p, ¬ Learned s p r) :
    rank (computeRoutes s now).1 now p ≤ rank s now p := by
  have hentry := (lookup_computeRoutes s now p).trans hkeeps
  refine rank_le (h.lag_le now p) ?_ ?_
  · unfold phase
    simp only [hentry, advertised_computeRoutes, advertisedRoute_computeRoutes]
    cases hr : s.routes.lookup p with
    | none => exact le_refl _
    | some r =>
      simp only [hlearned r hr, if_false]
      split
      · exact Nat.zero_le _
      · exact le_refl _
  · simp only [entryRank, hentry, neighbourIds_computeRoutes]

/-- A run that selects a usable route: the entry was the same one, or it was not a
learned one, or the new one is cheaper or of an earlier neighbour. -/
theorem Settleable.rank_of_selected (h : Settleable s) (hmem : route ∈ usableRoutes s p)
    (hselected : selectedRoute s now p = some (candidateOf s route).route)
    (hundercuts : ∀ adv ∈ s.advertised.lookup p, totalCost s route < advMetric adv)
    (hbetter : ∀ kept ∈ usableRoutes s p,
      s.routes.lookup p = some (candidateOf s kept).route → kept = route ∨
        totalCost s route < totalCost s kept ∨ totalCost s route = totalCost s kept ∧
          (neighbourIds s).idxOf route.1.id < (neighbourIds s).idxOf kept.1.id) :
    (finalRoute s now p = s.routes.lookup p ∧ rank (computeRoutes s now).1 now p ≤ rank s now p) ∨
      rank (computeRoutes s now).1 now p < rank s now p := by
  have hfinal : finalRoute s now p = some (candidateOf s route).route :=
    finalRoute_of_finite hselected (candidateOf_finite hmem)
  have hentry := (lookup_computeRoutes s now p).trans hfinal
  have hphase : phase (computeRoutes s now).1 now p = 0 :=
    phase_of_learned hentry (h.learned_afterRun hmem hselected hundercuts)
  have hlag := h.lag_le now p
  by_cases hlearned : ∃ r ∈ s.routes.lookup p, Learned s p r
  · obtain ⟨r, hr, ⟨kept, hkept, rfl⟩, _⟩ := hlearned
    rcases hbetter kept hkept hr with rfl | hcheaper
    · refine Or.inl ⟨hfinal.trans hr.symm, rank_le hlag (by omega) ?_⟩
      rw [Option.mem_def] at hr
      simp only [entryRank, hentry, hr, neighbourIds_computeRoutes]
    · refine Or.inr (rank_lt_of_entry hlag (by omega) ?_)
      rw [Option.mem_def] at hr
      simp only [entryRank, hentry, hr, neighbourIds_computeRoutes]
      refine Prod.Lex.toLex_lt_toLex.mpr (hcheaper.imp ?_ ?_)
      · exact UInt32.lt_iff_toNat_lt.mp
      · exact And.imp_left (congrArg UInt32.toNat)
  · push Not at hlearned
    exact Or.inr (rank_lt_of_phase hlag (hphase ▸ phase_pos hlearned))

/-- The usable routes are listed in the order of the neighbours. -/
theorem usableRoutes_ordered (hids : (neighbourIds s).Nodup) (p : Prefix) :
    (usableRoutes s p).Pairwise fun a b =>
      (neighbourIds s).idxOf a.1.id < (neighbourIds s).idxOf b.1.id := by
  have hneighbours : s.neighbours.Pairwise fun m n =>
      (neighbourIds s).idxOf m.id < (neighbourIds s).idxOf n.id := by
    rw [List.pairwise_iff_getElem]
    intro i j hi hj hlt
    have hposition : ∀ k (hk : k < s.neighbours.length),
        (neighbourIds s).idxOf (s.neighbours[k]).id = k := by
      intro k hk
      have hk' : k < (neighbourIds s).length := by simpa [neighbourIds] using hk
      have hid : (s.neighbours[k]).id = (neighbourIds s)[k] := by simp [neighbourIds]
      rw [hid]
      exact hids.idxOf_getElem k hk'
    rwa [hposition i hi, hposition j hj]
  unfold usableRoutes
  refine hneighbours.filterMap _ ?_
  intro m n hlt a ha b hb
  obtain ⟨_, _, ha⟩ := Option.bind_eq_some_iff.mp ha
  obtain ⟨_, _, hb⟩ := Option.bind_eq_some_iff.mp hb
  split at ha
  · split at hb
    · obtain rfl := Option.some.inj ha
      obtain rfl := Option.some.inj hb
      exact hlt
    · cases hb
  · cases ha

theorem Settleable.rank_advertised (h : Settleable s) (hadv : s.advertised.lookup p = some adv) :
    (finalRoute s now p = s.routes.lookup p ∧ rank (computeRoutes s now).1 now p ≤ rank s now p) ∨
      rank (computeRoutes s now).1 now p < rank s now p := by
  have hlag := h.lag_le now p
  have hadv' : (computeRoutes s now).1.advertised.lookup p = some adv := by
    rw [advertised_computeRoutes, hadv]
  rcases h.finalRoute_advertised now hadv with
    ⟨best, hbest, hcost, hselected⟩ | ⟨hlate, hfinal⟩
  · refine h.rank_of_selected (List.argmin_mem hbest) hselected ?_ ?_
    · rintro adv' hadv'
      obtain rfl : adv = adv' := by simpa [hadv] using hadv'
      exact hcost
    · intro kept hkept _
      exact argmin_first (usableRoutes_ordered h.distinct p) hbest hkept
  · by_cases hlearned : ∃ r ∈ s.routes.lookup p, Learned s p r
    · -- The route in use undercuts the advertisement, so the cheapest one does too,
      -- but its smoothed metric is not there yet.
      obtain ⟨r, _, ⟨kept, hkept, rfl⟩, hundercuts⟩ := hlearned
      obtain ⟨best, hbest⟩ : ∃ best, (usableRoutes s p).argmin (totalCost s) = some best := by
        refine Option.ne_none_iff_exists'.mp fun hnone => ?_
        rw [List.argmin_eq_none.mp hnone] at hkept
        cases hkept
      have hcost : totalCost s best < advMetric adv :=
        (List.le_of_mem_argmin hkept hbest).trans_lt (hundercuts adv hadv)
      exact Or.inr (rank_lt_of_lag
        (h.lag_lt now hadv (List.argmin_mem hbest) hcost (hlate best hbest hcost)))
    · push Not at hlearned
      rcases hfinal with hown | ⟨old, hold, hfinite, hINF, hlost⟩
      · have hentry := (lookup_computeRoutes s now p).trans hown
        have hphase : phase (computeRoutes s now).1 now p ≤ 1 := by
          refine phase_le_one hadv' ?_
          rw [hentry, advertisedRoute_computeRoutes]
        by_cases hsame : s.routes.lookup p = some (advertisedRoute s now p adv)
        · have hkeeps := hown.trans hsame.symm
          exact Or.inl ⟨hkeeps, h.rank_of_kept hkeeps hlearned⟩
        · exact Or.inr (rank_lt_of_phase hlag
            (hphase.trans_lt (one_lt_phase hadv hlearned hsame)))
      · have hentry := (lookup_computeRoutes s now p).trans hlost
        refine Or.inr (rank_lt_of_phase hlag ?_)
        have hthree : phase s now p = 3 := by
          refine phase_eq_three hold (hlearned old hold) hfinite ?_
          rintro adv' hadv' rfl
          obtain rfl : adv = adv' := by simpa [hadv] using hadv'
          exact hfinite hINF
        rw [hthree]
        exact Nat.lt_succ_of_le (phase_le_two hentry rfl)

theorem Settleable.rank_learned (h : Settleable s) (hadv : s.advertised.lookup p = none) :
    (finalRoute s now p = s.routes.lookup p ∧ rank (computeRoutes s now).1 now p ≤ rank s now p) ∨
      rank (computeRoutes s now).1 now p < rank s now p := by
  have hlag := h.lag_le now p
  have hnoadv : ∀ cost : Metric, ∀ adv ∈ s.advertised.lookup p, cost < advMetric adv := by
    simp [hadv]
  by_cases hlearned : ∃ r ∈ s.routes.lookup p, Learned s p r
  · obtain ⟨r, hr, ⟨kept, hkept, rfl⟩, _⟩ := hlearned
    have honly : ∀ other ∈ usableRoutes s p,
        s.routes.lookup p = some (candidateOf s other).route → other = kept := by
      intro other hother heq
      exact candidateOf_inj h.distinct hother hkept (Option.some.inj (heq.symm.trans hr))
    rcases h.selectedRoute_learned now hadv hkept hr with
      hkeeps | ⟨taken, htaken, hcheaper, hselected⟩
    · exact h.rank_of_selected hkept hkeeps (hnoadv _) fun other hother heq =>
        Or.inl (honly other hother heq)
    · refine h.rank_of_selected htaken hselected (hnoadv _) fun other hother heq => ?_
      obtain rfl := honly other hother heq
      exact Or.inr (Or.inl hcheaper)
  · push Not at hlearned
    rcases finalRoute_learned now hadv with ⟨taken, htaken, hselected⟩ |
      ⟨hfinal, hold⟩ | hkeeps | ⟨old, hold, hfinite, hlost⟩
    · refine h.rank_of_selected htaken hselected (hnoadv _) fun kept hkept heq => ?_
      exact absurd ⟨⟨kept, hkept, rfl⟩, hnoadv _⟩ (hlearned _ heq)
    · cases hr : s.routes.lookup p with
      | none =>
        have hkeeps := hfinal.trans hr.symm
        exact Or.inl ⟨hfinal, h.rank_of_kept hkeeps hlearned⟩
      | some old =>
        have hentry := (lookup_computeRoutes s now p).trans hfinal
        refine Or.inr (rank_lt_of_phase hlag ?_)
        simp [phase, hentry, advertised_computeRoutes, hadv, hr, hlearned old hr, hold old hr]
    · exact Or.inl ⟨hkeeps, h.rank_of_kept hkeeps hlearned⟩
    · have hentry := (lookup_computeRoutes s now p).trans hlost
      refine Or.inr (rank_lt_of_phase hlag ?_)
      rw [phase_eq_three hold (hlearned old hold) hfinite (by simp [hadv])]
      exact Nat.lt_succ_of_le (phase_le_two hentry rfl)

end Step

end Nylon.Core
