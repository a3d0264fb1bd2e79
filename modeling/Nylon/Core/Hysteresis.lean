import Nylon.Core.SelectionComplete
import Nylon.Core.Events

/-!
The hysteresis of the route selection (RFC 8966 A.3): the route in use is left for
another one only if that one is better in the instantaneous and in the smoothed
metric. The code compares the cheapest route with an incumbent, and for a prefix
the node advertises itself the incumbent is the own advertisement. A learned route
that is in use because it undercuts the advertisement is then not protected: the
next route that undercuts the advertisement takes its place.
-/

namespace Nylon.Core

open State Netip Lib

/-- One route is strictly better than another in both metrics. -/
def Improves (s : RouterState) (kept taken : Neighbour × NeighRoute) : Prop :=
  totalCost s taken < totalCost s kept ∧ smoothedCost s taken < smoothedCost s kept

instance (s : RouterState) (kept taken : Neighbour × NeighRoute) :
    Decidable (Improves s kept taken) :=
  inferInstanceAs (Decidable (_ ∧ _))

/-- A run leaves this neighbour route for the prefix, and not an own
advertisement. -/
def LeavesLearned (s : RouterState) (now : Time) (p : Prefix)
    (taken : Neighbour × NeighRoute) : Prop :=
  (computeRoutes s now).1.routes.lookup p = some (candidateOf s taken).route ∧
    ∀ adv ∈ s.advertised.lookup p,
      (candidateOf s taken).route ≠ advertisedRoute s now p adv

instance (s : RouterState) (now : Time) (p : Prefix) (taken : Neighbour × NeighRoute) :
    Decidable (LeavesLearned s now p taken) :=
  inferInstanceAs (Decidable (_ ∧ _))

/-- If the entry of a prefix is finite and its route is still usable, then a run
leaves it for a route of another neighbour or source only if that one improves
both metrics. -/
def SwitchImproves (s : RouterState) (now : Time) (p : Prefix) : Prop :=
  ∀ prev ∈ s.routes.lookup p, prev.metric ≠ INF → ∀ kept ∈ usableRoutes s p, Continues prev kept →
      ∀ taken ∈ usableRoutes s p, LeavesLearned s now p taken →
        ¬ Continues prev taken → Improves s kept taken

instance (s : RouterState) (now : Time) (p : Prefix) : Decidable (SwitchImproves s now p) :=
  inferInstanceAs (Decidable (∀ prev ∈ s.routes.lookup p, _))

/-- A neighbour route with the next hop and the source of an own advertisement. -/
def Echoes (s : RouterState) (p : Prefix) (adv : Advertisement)
    (route : Neighbour × NeighRoute) : Prop :=
  adv.nodeId = route.1.id ∧ ⟨s.id, p⟩ = route.2.toSource

instance (s : RouterState) (p : Prefix) (adv : Advertisement)
    (route : Neighbour × NeighRoute) : Decidable (Echoes s p adv route) :=
  inferInstanceAs (Decidable (_ ∧ _))

/-- What the cheapest route is compared with for an advertised prefix: the metric
of the advertisement stands for its smoothed metric too. -/
def advSmoothed (s : RouterState) (p : Prefix) (adv : Advertisement)
    (kept : Neighbour × NeighRoute) : ℚ :=
  if Echoes s p adv kept then smoothedCost s kept else (advMetric adv).toNat

/-- The cheapest route takes the place of an own advertisement. -/
def Undercuts (s : RouterState) (now : Time) (p : Prefix) (adv : Advertisement)
    (kept cheapest : Neighbour × NeighRoute) : Prop :=
  (Echoes s p adv cheapest ∧
    (candidateOf s cheapest).route ≠ advertisedRoute s now p adv) ∨
  (totalCost s cheapest < advMetric adv ∧ smoothedCost s cheapest < advSmoothed s p adv kept)

instance (s : RouterState) (now : Time) (p : Prefix) (adv : Advertisement)
    (kept cheapest : Neighbour × NeighRoute) :
    Decidable (Undercuts s now p adv kept cheapest) :=
  inferInstanceAs (Decidable (_ ∨ _))

/-- The node advertises the prefix, and another route than the one in use is the
cheapest and undercuts the advertisement, though it does not improve both metrics
of the one in use. -/
def Overtaken (s : RouterState) (now : Time) (p : Prefix) : Prop :=
  ∃ adv ∈ s.advertised.lookup p, ∃ prev ∈ s.routes.lookup p, prev.metric ≠ INF ∧
    ∃ kept ∈ usableRoutes s p, Continues prev kept ∧
      ∃ cheapest ∈ (usableRoutes s p).argmin (totalCost s),
        ¬ Continues prev cheapest ∧ Undercuts s now p adv kept cheapest ∧ ¬ Improves s kept cheapest

section OneEntry

variable {s : RouterState} {now : Time} {p : Prefix} {prev : SelRoute}
  {kept cheapest : Neighbour × NeighRoute}

/-- A neighbour has one route to a prefix. -/
theorem usableRoutes_inj (hids : (s.neighbours.map (·.id)).Nodup)
    {a b : Neighbour × NeighRoute} (ha : a ∈ usableRoutes s p)
    (hb : b ∈ usableRoutes s p) (hid : a.1.id = b.1.id) : a = b := by
  obtain ⟨han, hast, _⟩ := mem_usableRoutes.mp ha
  obtain ⟨hbn, hbst, _⟩ := mem_usableRoutes.mp hb
  have hneigh : a.1 = b.1 := List.inj_on_of_nodup_map hids han hbn hid
  rw [hneigh, hbst] at hast
  exact Prod.ext hneigh (Option.some.inj hast).symm

theorem prevCandidate_of_continues (hids : (s.neighbours.map (·.id)).Nodup)
    (hprev : s.routes.lookup p = some prev) (hkept : kept ∈ usableRoutes s p)
    (hcontinues : Continues prev kept) :
    prevCandidate s p = some (candidateOf s kept) := by
  have hmem : kept ∈ (usableRoutes s p).filter (fun route => Continues prev route) :=
    List.mem_filter.mpr ⟨hkept, by simpa using hcontinues⟩
  obtain ⟨last, hlast⟩ := Option.isSome_iff_exists.mp
    (List.getLast?_isSome.mpr (List.ne_nil_of_mem hmem))
  obtain ⟨husable, hcont⟩ := List.mem_filter.mp (List.mem_of_getLast? hlast)
  simp only [decide_eq_true_eq] at hcont
  obtain rfl := usableRoutes_inj hids husable hkept (hcont.1.symm.trans hcontinues.1)
  rw [prevCandidate_eq_map hprev, hlast, Option.map_some]

/-- A finite entry whose route is usable is not held, so the incumbent is the own
advertisement, or else the route of the entry. -/
theorem selectedRoute_of_continues (hids : (s.neighbours.map (·.id)).Nodup)
    (hprev : s.routes.lookup p = some prev) (hfinite : prev.metric ≠ INF)
    (hkept : kept ∈ usableRoutes s p) (hcontinues : Continues prev kept)
    (hcheapest : (usableRoutes s p).argmin (totalCost s) = some cheapest) :
    selectedRoute s now p = some (match s.advertised.lookup p with
      | none => hysteresis (candidateOf s kept).route (smoothedCost s kept)
          (candidateOf s cheapest)
      | some adv => hysteresis (advertisedRoute s now p adv) (advSmoothed s p adv kept)
          (candidateOf s cheapest)) := by
  have hlink : hasLink s prev.nh = true := by
    rw [hcontinues.1]
    exact (mem_usableRoutes.mp hkept).2.2.1
  have hheld : heldRoute s now p = none := by
    simp [heldRoute, hprev, isHeldRoute, hfinite, hlink]
  unfold selectedRoute
  rw [bestCandidate_eq_map, hcheapest, prevCandidate_of_continues hids hprev hkept hcontinues]
  simp only [Option.map_some, incumbent, hheld]
  cases s.advertised.lookup p with
  | none => rfl
  | some adv =>
    have hsame : sameRoute (advertisedRoute s now p adv) (candidateOf s kept).route =
        decide (Echoes s p adv kept) := by
      simp only [sameRoute, advertisedRoute, candidateOf, Echoes, beq_eq_decide]
      exact (Bool.decide_and _ _).symm
    simp only [selectRoute, hsame, decide_eq_true_eq]
    rfl

/-- Only an unreachable entry is left for a route other than the selected one. -/
theorem lookup_computeRoutes_finite {r : SelRoute} (hfinite : r.metric ≠ INF) :
    (computeRoutes s now).1.routes.lookup p = some r ↔ selectedRoute s now p = some r := by
  rw [lookup_computeRoutes]
  constructor
  · intro h
    rcases finalRoute_cases h with ⟨hsel, _⟩ | ⟨_, _, _, _, rfl⟩
    · exact hsel
    · exact absurd rfl hfinite
  · intro h
    have hkept : losesRoute s now p = false := by
      simp [losesRoute, h, hfinite]
    unfold finalRoute
    split
    · exact h
    · rw [hkept]
      exact h

theorem candidateOf_finite (hmem : kept ∈ usableRoutes s p) :
    (candidateOf s kept).route.metric ≠ INF :=
  (mem_usableRoutes.mp hmem).2.2.2.2.2

theorem candidateOf_inj (hids : (s.neighbours.map (·.id)).Nodup)
    {a b : Neighbour × NeighRoute} (ha : a ∈ usableRoutes s p) (hb : b ∈ usableRoutes s p)
    (h : (candidateOf s a).route = (candidateOf s b).route) : a = b :=
  usableRoutes_inj hids ha hb (congrArg SelRoute.nh h)

/-- The cheapest route takes the place of the advertisement exactly if it
undercuts it. -/
theorem hysteresis_advertised_iff {adv : Advertisement} :
    (hysteresis (advertisedRoute s now p adv) (advSmoothed s p adv kept)
        (candidateOf s cheapest) = (candidateOf s cheapest).route ∧
      (candidateOf s cheapest).route ≠ advertisedRoute s now p adv) ↔
      Undercuts s now p adv kept cheapest := by
  have hsame : sameRoute (candidateOf s cheapest).route (advertisedRoute s now p adv) =
      decide (Echoes s p adv cheapest) := by
    simp only [sameRoute, advertisedRoute, candidateOf, Echoes, beq_eq_decide,
      eq_comm (a := cheapest.1.id), eq_comm (a := cheapest.2.toSource)]
    exact (Bool.decide_and _ _).symm
  unfold hysteresis Undercuts
  rw [hsame]
  by_cases hecho : Echoes s p adv cheapest
  · simp only [hecho, decide_true, if_true, true_and]
    refine ⟨Or.inl, ?_⟩
    rintro (hne | ⟨hcost, _⟩)
    · exact hne
    · intro heq
      exact hcost.ne (congrArg (fun r : SelRoute => r.metric) heq)
  · simp only [hecho, decide_false, Bool.false_eq_true, if_false, false_and, false_or]
    by_cases hundercuts : totalCost s cheapest < advMetric adv ∧
        smoothedCost s cheapest < advSmoothed s p adv kept
    · refine iff_of_true ⟨if_pos hundercuts, fun heq => ?_⟩ hundercuts
      exact hundercuts.1.ne (congrArg (fun r : SelRoute => r.metric) heq)
    · refine iff_of_false (fun h => h.2 ?_) hundercuts
      exact h.1.symm.trans (if_neg hundercuts)

/-- Against the route in use itself the cheapest one has to improve both metrics. -/
theorem improves_of_hysteresis
    (h : hysteresis (candidateOf s kept).route (smoothedCost s kept) (candidateOf s cheapest) =
      (candidateOf s cheapest).route)
    (hother : ¬ (cheapest.1.id = kept.1.id ∧ cheapest.2.toSource = kept.2.toSource)) :
    Improves s kept cheapest := by
  unfold hysteresis at h
  split at h
  · next hsame =>
    simp only [sameRoute, candidateOf, Bool.and_eq_true, beq_iff_eq] at hsame
    exact absurd hsame hother
  · split at h
    · next hbetter => exact hbetter
    · exact absurd ⟨congrArg SelRoute.nh h.symm,
        congrArg (fun r : SelRoute => r.toSource) h.symm⟩ hother

end OneEntry

/-- The rule holds at a prefix exactly if the route in use is not overtaken by one
that merely undercuts an own advertisement. -/
theorem switch_improves_iff (s : RouterState) (now : Time) (p : Prefix)
    (hids : (s.neighbours.map (·.id)).Nodup) :
    SwitchImproves s now p ↔ ¬ Overtaken s now p := by
  constructor
  · rintro hrule ⟨adv, hadv, prev, hprev, hfinite, kept, hkept, hcontinues, cheapest,
      hcheapest, hother, hundercuts, hworse⟩
    have hmem : cheapest ∈ usableRoutes s p := List.argmin_mem hcheapest
    obtain ⟨htakes, hne⟩ := hysteresis_advertised_iff.mpr hundercuts
    have hselected : selectedRoute s now p = _ :=
      selectedRoute_of_continues hids hprev hfinite hkept hcontinues hcheapest
    rw [Option.mem_def] at hadv
    simp only [hadv, htakes] at hselected
    refine hworse (hrule prev hprev hfinite kept hkept hcontinues cheapest hmem ⟨?_, ?_⟩ hother)
    · exact (lookup_computeRoutes_finite (candidateOf_finite hmem)).mpr hselected
    · intro adv' hadv'
      obtain rfl : adv = adv' := by simpa [hadv] using hadv'
      exact hne
  · intro hfree prev hprev hfinite kept hkept hcontinues taken htaken hleaves hother
    obtain ⟨hlookup, hlearned⟩ := hleaves
    obtain ⟨cheapest, hcheapest⟩ :
        ∃ cheapest, (usableRoutes s p).argmin (totalCost s) = some cheapest := by
      refine Option.ne_none_iff_exists'.mp fun hnone => ?_
      rw [List.argmin_eq_none.mp hnone] at hkept
      cases hkept
    have hmem : cheapest ∈ usableRoutes s p := List.argmin_mem hcheapest
    have hselected : selectedRoute s now p = _ :=
      selectedRoute_of_continues hids hprev hfinite hkept hcontinues hcheapest
    rw [(lookup_computeRoutes_finite (candidateOf_finite htaken)).mp hlookup] at hselected
    have hentry := Option.some.inj hselected
    cases hadv : s.advertised.lookup p with
    | none =>
      simp only [hadv] at hentry
      rcases hysteresis_cases (candidateOf s kept).route (smoothedCost s kept)
        (candidateOf s cheapest) with hkeeps | ⟨hswitches, _⟩
      · obtain rfl := candidateOf_inj hids htaken hkept (hentry.trans hkeeps)
        exact absurd hcontinues hother
      · obtain rfl := candidateOf_inj hids htaken hmem (hentry.trans hswitches)
        refine improves_of_hysteresis hswitches ?_
        rintro ⟨hid, hsource⟩
        exact hother ⟨hcontinues.1.trans hid.symm, hcontinues.2.trans hsource.symm⟩
    | some adv =>
      simp only [hadv] at hentry
      have hne := hlearned adv hadv
      rcases hysteresis_cases (advertisedRoute s now p adv) (advSmoothed s p adv kept)
        (candidateOf s cheapest) with hkeeps | ⟨hswitches, _⟩
      · exact absurd (hentry.trans hkeeps) hne
      · obtain rfl := candidateOf_inj hids htaken hmem (hentry.trans hswitches)
        have hundercuts := hysteresis_advertised_iff.mp ⟨hswitches, hne⟩
        by_contra hworse
        exact hfree ⟨adv, hadv, prev, hprev, hfinite, kept, hkept, hcontinues, taken,
          hcheapest, hother, hundercuts, hworse⟩

/-- Node `a` uses the route through `c`, and the link to `b` has just become the
cheaper one. -/
def cheaperLinkRun (own : List Event) : List Event :=
  let p : Prefix := ⟨.v4 0x0A000200, 24, Prefix.bits24_le⟩
  own ++ [.reconcileNeighbours ["b", "c"], .setLink "b" true 1000, .setLink "c" true 10,
    .neighbourUpdate 0 "b" ⟨⟨"d", p⟩, ⟨0, 0⟩⟩, .neighbourUpdate 0 "c" ⟨⟨"d", p⟩, ⟨0, 0⟩⟩,
    .computeRoutes 1, .setLink "b" true 1]

theorem switch_improves_iff_learned : let p : Prefix := ⟨.v4 0x0A000200, 24, by decide⟩
    let s := run (RouterState.init defaultRouterTunables "a") (cheaperLinkRun [])
    SwitchImproves s 2 p ↔ ¬ Overtaken s 2 p :=
  switch_improves_iff _ 2 _ (by decide +kernel)

/-- The node also advertises the prefix, and it is unhealthy. The route through
`b` is taken at once, though its smoothed metric is far above that of the route in
use. -/
theorem unhealthy_prefix_bypasses_hysteresis : let p : Prefix := ⟨.v4 0x0A000200, 24, by decide⟩
    let s := run (RouterState.init defaultRouterTunables "a")
      (cheaperLinkRun [.advertise p ⟨"a", 1000, false, some INF⟩])
    (s.neighbours.map (·.id)).Nodup ∧
      (s.routes.lookup p).map (·.nh) = some "c" ∧
      ((computeRoutes s 2).1.routes.lookup p).map (·.nh) = some "b" ∧
      ¬ SwitchImproves s 2 p := by
  decide +kernel

end Nylon.Core
