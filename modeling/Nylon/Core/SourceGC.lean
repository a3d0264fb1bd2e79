import Nylon.Core.ReachabilityUpdates
import Nylon.Core.SeqnoRequests
import Nylon.Lib.Sorting

/-!
Garbage collection of the source table. `runGC` drops expired routes and
advertisements, recomputes the routes and then removes the sources nothing refers to.
An advertisement refers to the source with the router-id of this node, whichever node it
leads to. `sourceInUse` compares the router-id with the node an advertisement leads to
instead, so that the own source of a passive client's prefix is removed as soon as the
prefix is reached through a route of another node.
-/

namespace Nylon.Core

open State Netip Lib

section Collection

variable (s : RouterState) (now : Time)

/-- The state in which the references to the sources are counted. -/
def recounted : RouterState := (computeRoutes (expireRoutes s now) now).1

/-- A neighbour stores a route with the source, the selected route has it, or the node
itself originates it. -/
inductive LiveSource (t : RouterState) (src : Source) : Prop where
  | stored {n : Neighbour} {st : NeighRoute} (hn : n ∈ t.neighbours)
      (hst : n.routes.lookup src.pfx = some st) (hsrc : st.toSource = src)
  | selected {r : SelRoute} (hr : t.routes.lookup src.pfx = some r) (hsrc : r.toSource = src)
  | own {adv : Advertisement} (hadv : t.advertised.lookup src.pfx = some adv)
      (hid : src.nodeId = t.id)

/-- An entry of the source table that is gone afterwards was not live. -/
def KeepsLiveSources : Prop :=
  ∀ src, s.sources.lookup src ≠ none → (runGC s now).1.sources.lookup src = none →
    ¬ LiveSource (recounted s now) src

def liveRoutes (p : Prefix) : List (Neighbour × NeighRoute) :=
  (usableRoutes s p).filter fun route => now ≤ route.2.expireAt

/-- The cheapest of the routes is better than an own advertisement in both metrics. -/
def Outbids (routes : List (Neighbour × NeighRoute)) (adv : Advertisement) : Prop :=
  ∃ cheapest ∈ routes.argmin (totalCost s), totalCost s cheapest < advMetric adv ∧
      smoothedCost s cheapest < ((advMetric adv).toNat : ℚ)

/-- An unreachable own advertisement gives way to the finite entry of another source,
which is kept as a retraction. -/
def YieldsToLost (p : Prefix) (adv : Advertisement) : Prop :=
  advMetric adv = INF ∧ ∃ prev, s.routes.lookup p = some prev ∧ prev.metric ≠ INF ∧
    prev.toSource ≠ ⟨s.id, p⟩

/-- The prefix of a passive client whose own source has an entry that no neighbour
refers to, while the advertisement does not become the entry of the route table. -/
structure ForgetsClient (p : Prefix) (adv : Advertisement) : Prop where
  advertised : s.advertised.lookup p = some adv
  unexpired : now ≤ adv.expiry
  client : adv.nodeId ≠ s.id
  entry : s.sources.lookup ⟨s.id, p⟩ ≠ none
  unstored : ∀ n ∈ s.neighbours, ∀ st, n.routes.lookup p = some st →
    st.toSource = ⟨s.id, p⟩ → st.expireAt < now ∧ st.metric = INF
  displaced : Outbids s (liveRoutes s now p) adv ∨ YieldsToLost s p adv

end Collection

section Counting

variable {s : RouterState} {now : Time} {src : Source}

theorem lookup_collectSources_eq (s : RouterState) (src : Source) : (collectSources s).lookup src =
      if sourceInUse s src then s.sources.lookup src else none := by
  refine (Table.range_pointwise s.sources _ s.sources (AList.lookup src) src
    (fun _ cur => if sourceInUse s src then cur else none) ?_ ?_).trans ?_
  · intro table d _
    split
    · rfl
    · exact AList.lookup_erase _ table
  · intro table k d _ hne
    split
    · rfl
    · exact AList.lookup_erase_ne hne.symm
  · cases h : s.sources.lookup src <;> simp

/-- A run adds entries to the source table and removes none. -/
theorem lookup_announcedSources_ne_none (h : s.sources.lookup src ≠ none) :
    (announcedSources s now).lookup src ≠ none := by
  refine Table.range_invariant (newTable s now) _ s.sources
    (fun table : Table Source FD => table.lookup src ≠ none) h ?_
  intro table p r _ hkept
  split
  · rw [Table.lookup_insert_eq]
    split
    · exact Option.some_ne_none _
    · exact hkept
  · exact hkept

theorem lookup_expireAdvertised_iff {p : Prefix} {adv : Advertisement} :
    (expireAdvertised s now).lookup p = some adv ↔
      s.advertised.lookup p = some adv ∧ now ≤ adv.expiry := by
  have hlookup : (expireAdvertised s now).lookup p =
      (s.advertised.lookup p).filter fun adv => now ≤ adv.expiry := by
    refine (Table.range_pointwise s.advertised _ s.advertised (AList.lookup p) p
      (fun adv cur => if adv.expiry < now then none else cur) ?_ ?_).trans ?_
    · intro table adv _
      split
      · exact AList.lookup_erase _ table
      · rfl
    · intro table k adv _ hne
      split
      · exact AList.lookup_erase_ne hne.symm
      · rfl
    · cases h : s.advertised.lookup p with
      | none => rfl
      | some adv =>
        by_cases hexpired : adv.expiry < now
        · simp [Option.filter, hexpired, not_le.mpr hexpired]
        · simp [Option.filter, hexpired, not_lt.mp hexpired]
  rw [hlookup, Option.filter_eq_some_iff, decide_eq_true_eq]

/-- A neighbour refers to the source unless its route with it was unreachable and has
expired. -/
theorem stored_recounted_iff :
    (∃ n ∈ (recounted s now).neighbours, ∃ st, n.routes.lookup src.pfx = some st ∧
        st.toSource = src) ↔
      ∃ n ∈ s.neighbours, ∃ st, n.routes.lookup src.pfx = some st ∧ st.toSource = src ∧
        ¬ (st.expireAt < now ∧ st.metric = INF) := by
  unfold recounted
  rw [computeRoutes_state]
  simp only [expireRoutes, List.map_map, List.mem_map]
  constructor
  · rintro ⟨_, ⟨n, hn, rfl⟩, st', hst', hsrc⟩
    simp only [Function.comp_apply, lookup_smoothNeighbour, lookup_expireNeighRoutes] at hst'
    obtain ⟨st, hst, rfl⟩ := Option.map_eq_some_iff.mp hst'
    obtain ⟨route, hroute, hexpire⟩ := Option.bind_eq_some_iff.mp hst
    refine ⟨n, hn, route, hroute, ?_⟩
    rw [smoothRoute_toPubRoute] at hsrc
    split at hexpire
    · split at hexpire
      · cases hexpire
      · next hfinite =>
        cases hexpire
        exact ⟨hsrc, fun h => hfinite h.2⟩
    · next hfresh =>
      cases hexpire
      exact ⟨hsrc, fun h => hfresh h.1⟩
  · rintro ⟨n, hn, st, hst, hsrc, hkept⟩
    refine ⟨_, ⟨n, hn, rfl⟩, ?_⟩
    simp only [Function.comp_apply, lookup_smoothNeighbour, lookup_expireNeighRoutes, hst,
      Option.bind_some]
    split
    · next hexpired =>
      have hfinite : st.metric ≠ INF := fun h => hkept ⟨hexpired, h⟩
      rw [if_neg hfinite]
      exact ⟨_, rfl, by simpa using hsrc⟩
    · exact ⟨_, rfl, by simpa using hsrc⟩

theorem sourceInUse_iff (t : RouterState) (src : Source) : sourceInUse t src = true ↔
      (∃ n ∈ t.neighbours, ∃ st, n.routes.lookup src.pfx = some st ∧ st.toSource = src) ∨
      (∃ r, t.routes.lookup src.pfx = some r ∧ r.toSource = src) ∨
      ∃ adv, t.advertised.lookup src.pfx = some adv ∧ adv.nodeId = src.nodeId := by
  unfold sourceInUse
  simp only [Bool.or_eq_true, List.any_eq_true, Option.any_eq_true, beq_iff_eq, or_assoc]

end Counting

section Displaced

variable {s : RouterState} {now : Time} {p : Prefix} {adv : Advertisement}

theorem hasLink_expireRoutes (s : RouterState) (now : Time) (id : NodeId) :
    hasLink (expireRoutes s now) id = hasLink s id := by
  simp only [hasLink, bestEndpoints, expireRoutes, List.foldl_map]
  rfl

theorem totalCost_expireRoutes (s : RouterState) (now : Time) (route : Neighbour × NeighRoute) :
    totalCost (expireRoutes s now) (expireNeighRoutes s now route.1, route.2) =
      totalCost s route := by
  simp only [totalCost, hopCostTo, hasLink_expireRoutes]
  rfl

theorem smoothedCost_expireRoutes (s : RouterState) (now : Time) (route : Neighbour × NeighRoute) :
    smoothedCost (expireRoutes s now) (expireNeighRoutes s now route.1, route.2) =
      smoothedCost s route := by
  simp only [smoothedCost, totalCost_expireRoutes]
  rfl

theorem usable_expireRoutes (s : RouterState) (now : Time) (n : Neighbour) (st : NeighRoute) :
    Usable (expireRoutes s now) (expireNeighRoutes s now n) st ↔ Usable s n st := by
  have hcost := totalCost_expireRoutes s now (n, st)
  unfold totalCost at hcost
  unfold Usable
  rw [hcost, hasLink_expireRoutes]
  rfl

/-- The routes that are usable in the recomputation are the live ones. -/
theorem usableRoutes_expireRoutes (s : RouterState) (now : Time) (p : Prefix) :
    usableRoutes (expireRoutes s now) p =
      (liveRoutes s now p).map fun route => (expireNeighRoutes s now route.1, route.2) := by
  unfold usableRoutes liveRoutes
  rw [usableRoutes, List.filter_filterMap, List.map_filterMap]
  change List.filterMap _ (s.neighbours.map (expireNeighRoutes s now)) = _
  rw [List.filterMap_map]
  congr 1
  funext n
  simp only [Function.comp_apply, lookup_expireNeighRoutes]
  cases n.routes.lookup p with
  | none => rfl
  | some st =>
    simp only [Option.bind_some]
    by_cases hexpired : st.expireAt < now
    · trans none
      · by_cases hINF : st.metric = INF
        · simp [hexpired, hINF]
        · simp [hexpired, hINF, Usable]
      · by_cases husable : Usable s n st
        · simp [husable, hexpired]
        · simp [husable]
    · have hfresh : now ≤ st.expireAt := not_lt.mp hexpired
      simp only [hexpired, if_false, Option.bind_some, usable_expireRoutes]
      by_cases husable : Usable s n st
      · simp [husable, hfresh]
      · simp [husable]

theorem outbids_expireRoutes :
    Outbids (expireRoutes s now) (usableRoutes (expireRoutes s now) p) adv ↔
      Outbids s (liveRoutes s now p) adv := by
  unfold Outbids
  rw [usableRoutes_expireRoutes, argmin_map]
  simp only [totalCost_expireRoutes, Option.mem_def, Option.map_eq_some_iff]
  constructor
  · rintro ⟨_, ⟨route, hroute, rfl⟩, hless⟩
    rw [totalCost_expireRoutes, smoothedCost_expireRoutes] at hless
    exact ⟨route, hroute, hless⟩
  · rintro ⟨route, hroute, hless⟩
    refine ⟨_, ⟨route, hroute, rfl⟩, ?_⟩
    rw [totalCost_expireRoutes, smoothedCost_expireRoutes]
    exact hless

/-- No usable route has the own source, so an own advertisement competes with its own
metric only. -/
theorem defender_of_unechoed (hadv : s.advertised.lookup p = some adv)
    (hunechoed : ∀ route ∈ usableRoutes s p, route.2.toSource ≠ ⟨s.id, p⟩) :
    defender s now p = some (advertisedRoute s now p adv, ((advMetric adv).toNat : ℚ)) := by
  have hinc : incumbent s now p = some (advertisedRoute s now p adv) := by
    simp [incumbent, hadv]
  unfold defender
  rw [hinc]
  cases hreturning : returningRoute s p with
  | none => rfl
  | some route =>
    have husable : route ∈ usableRoutes s p := by
      obtain ⟨prev, _, hlast⟩ := Option.bind_eq_some_iff.mp hreturning
      exact (List.mem_filter.mp (List.mem_of_getLast? hlast)).1
    have hother : ¬ Continues (advertisedRoute s now p adv) route :=
      fun h => hunechoed route husable h.2.symm
    simp [hother]
    rfl

theorem selectedRoute_of_unechoed (hadv : s.advertised.lookup p = some adv)
    (hunechoed : ∀ route ∈ usableRoutes s p, route.2.toSource ≠ ⟨s.id, p⟩) :
    (Outbids s (usableRoutes s p) adv ∧ ∃ cheapest ∈ usableRoutes s p,
      selectedRoute s now p = some (candidateOf s cheapest).route) ∨
    (¬ Outbids s (usableRoutes s p) adv ∧
      selectedRoute s now p = some (advertisedRoute s now p adv)) := by
  have hdefender := @defender_of_unechoed s now p adv hadv hunechoed
  have hsame : ∀ cheapest ∈ usableRoutes s p, ¬ Continues (advertisedRoute s now p adv) cheapest :=
    fun cheapest hmem h => hunechoed cheapest hmem h.2.symm
  by_cases hout : Outbids s (usableRoutes s p) adv
  · obtain ⟨cheapest, hcheapest, hless⟩ := hout
    refine Or.inl ⟨⟨cheapest, hcheapest, hless⟩, cheapest, List.argmin_mem hcheapest, ?_⟩
    apply selectedRoute_eq_some_iff.mpr
    refine Or.inl ⟨cheapest, hcheapest, rfl, ?_⟩
    intro defending hdefending
    rw [hdefender] at hdefending
    cases hdefending
    exact Or.inr hless
  · refine Or.inr ⟨hout, selectedRoute_eq_some_iff.mpr (Or.inr ⟨_, hdefender, rfl, ?_⟩)⟩
    rintro cheapest hcheapest (hcontinues | hless)
    · exact hsame cheapest (List.argmin_mem hcheapest) hcontinues
    · exact hout ⟨cheapest, hcheapest, hless⟩

/-- The entry that a run leaves for an advertised prefix has the own source unless
another route outbids the advertisement or was lost to it. -/
theorem finalRoute_own_iff (hadv : s.advertised.lookup p = some adv)
    (hunechoed : ∀ route ∈ usableRoutes s p, route.2.toSource ≠ ⟨s.id, p⟩) :
    (∃ r, finalRoute s now p = some r ∧ r.toSource = ⟨s.id, p⟩) ↔
      ¬ (Outbids s (usableRoutes s p) adv ∨ YieldsToLost s p adv) := by
  rcases @selectedRoute_of_unechoed s now p adv hadv hunechoed with
    ⟨hout, cheapest, hmem, hsel⟩ | ⟨hout, hsel⟩
  · have hfinite : totalCost s cheapest ≠ INF := (mem_usableRoutes.mp hmem).2.2.2.2.2
    have hkept : losesRoute s now p = false := by
      simp [losesRoute, hsel, candidateOf, hfinite]
    have hfinal : finalRoute s now p = some (candidateOf s cheapest).route := by
      unfold finalRoute
      cases s.routes.lookup p with
      | none => exact hsel
      | some old => simp [hkept, hsel]
    constructor
    · rintro ⟨r, hr, hsource⟩
      rw [hfinal] at hr
      cases hr
      exact absurd hsource (hunechoed cheapest hmem)
    · intro h
      exact absurd (Or.inl hout) h
  · rw [or_iff_right hout]
    by_cases hyields : YieldsToLost s p adv
    · obtain ⟨hINF, prev, hprev, hfinite, hsource⟩ := hyields
      have hlost : finalRoute s now p = some {prev with metric := INF, retractedBy := []} := by
        simp [finalRoute, losesRoute, hprev, hsel, hfinite, advertisedRoute, hINF]
      constructor
      · rintro ⟨r, hr, hown⟩
        rw [hlost] at hr
        cases hr
        exact absurd hown hsource
      · intro h
        exact absurd ⟨hINF, prev, hprev, hfinite, hsource⟩ h
    · refine ⟨fun _ => hyields, fun _ => ?_⟩
      rcases hfinal : finalRoute s now p with _ | r
      · unfold finalRoute at hfinal
        rw [hsel] at hfinal
        split at hfinal
        · cases hfinal
        · split at hfinal <;> cases hfinal
      · refine ⟨r, rfl, ?_⟩
        rcases finalRoute_cases hfinal with ⟨hselected, _⟩ | ⟨old, hold, hfinite, hloses, rfl⟩
        · rw [hsel] at hselected
          cases hselected
          rfl
        · by_contra hsource
          apply hyields
          refine ⟨?_, old, hold, hfinite, hsource⟩
          simp only [losesRoute, hsel, Bool.and_eq_true, Option.all_some, beq_iff_eq] at hloses
          exact hloses.2

end Displaced

section Sources

variable {s : RouterState} {now : Time}

/-- With no live reference of a neighbour to it, the own source of a client's prefix is
in use exactly if the entry of the prefix has it. -/
theorem selected_recounted_iff {p : Prefix} {adv : Advertisement}
    (hadv : s.advertised.lookup p = some adv) (hunexpired : now ≤ adv.expiry)
    (hunstored : ∀ n ∈ s.neighbours, ∀ st, n.routes.lookup p = some st →
      st.toSource = ⟨s.id, p⟩ → st.expireAt < now ∧ st.metric = INF) :
    (∃ r, (recounted s now).routes.lookup p = some r ∧ r.toSource = ⟨s.id, p⟩) ↔
      ¬ (Outbids s (liveRoutes s now p) adv ∨ YieldsToLost s p adv) := by
  have hkept : (expireRoutes s now).advertised.lookup p = some adv :=
    lookup_expireAdvertised_iff.mpr ⟨hadv, hunexpired⟩
  have hunechoed : ∀ route ∈ usableRoutes (expireRoutes s now) p,
      route.2.toSource ≠ ⟨(expireRoutes s now).id, p⟩ := by
    intro route hroute hsource
    rw [usableRoutes_expireRoutes] at hroute
    obtain ⟨live, hlive, rfl⟩ := List.mem_map.mp hroute
    obtain ⟨hn, hst, husable⟩ := mem_usableRoutes.mp (List.mem_filter.mp hlive).1
    exact husable.2.1 (hunstored live.1 hn live.2 hst hsource).2
  unfold recounted
  rw [lookup_computeRoutes, ← outbids_expireRoutes]
  exact finalRoute_own_iff hkept hunechoed

@[simp] theorem id_recounted (s : RouterState) (now : Time) : (recounted s now).id = s.id := by
  unfold recounted
  rw [computeRoutes_state]
  rfl

theorem advertised_recounted (s : RouterState) (now : Time) :
    (recounted s now).advertised = expireAdvertised s now := by
  unfold recounted
  rw [computeRoutes_state]
  rfl

theorem runGC_removes_iff {src : Source} (h : s.sources.lookup src ≠ none) :
    (runGC s now).1.sources.lookup src = none ↔ sourceInUse (recounted s now) src = false := by
  change (collectSources (recounted s now)).lookup src = none ↔ _
  have hentry : (recounted s now).sources.lookup src ≠ none := by
    unfold recounted
    rw [computeRoutes_state]
    exact lookup_announcedSources_ne_none h
  rw [lookup_collectSources_eq]
  cases sourceInUse (recounted s now) src with
  | true => simpa using hentry
  | false => simp

/-- Garbage collection keeps every live source exactly if there is no passive client
whose own source it forgets. -/
theorem gc_keeps_live_iff (s : RouterState) (now : Time) :
    KeepsLiveSources s now ↔ ∀ p adv, ¬ ForgetsClient s now p adv := by
  constructor
  · intro hkeeps p adv hforgets
    have hadv : (recounted s now).advertised.lookup p = some adv := by
      rw [advertised_recounted]
      exact lookup_expireAdvertised_iff.mpr ⟨hforgets.advertised, hforgets.unexpired⟩
    have hunused : sourceInUse (recounted s now) ⟨s.id, p⟩ = false := by
      rw [Bool.eq_false_iff, ne_eq, sourceInUse_iff, not_or, not_or]
      refine ⟨?_, ?_, ?_⟩
      · rw [stored_recounted_iff]
        rintro ⟨n, hn, st, hst, hsource, hkept⟩
        exact hkept (hforgets.unstored n hn st hst hsource)
      · rw [selected_recounted_iff hforgets.advertised hforgets.unexpired hforgets.unstored]
        exact not_not.mpr hforgets.displaced
      · rintro ⟨adv', hadv', hid⟩
        cases hadv.symm.trans hadv'
        exact hforgets.client hid
    apply hkeeps ⟨s.id, p⟩ hforgets.entry ((runGC_removes_iff hforgets.entry).mpr hunused)
    exact .own hadv (id_recounted s now).symm
  · intro hnone src hentry hremoved hlive
    have hunused := (runGC_removes_iff hentry).mp hremoved
    rw [Bool.eq_false_iff, ne_eq, sourceInUse_iff, not_or, not_or] at hunused
    obtain ⟨hstored, hselected, hadvertised⟩ := hunused
    cases hlive with
    | stored hn hst hsrc => exact hstored ⟨_, hn, _, hst, hsrc⟩
    | selected hr hsrc => exact hselected ⟨_, hr, hsrc⟩
    | @own adv hadv hid =>
      obtain ⟨nodeId, p⟩ := src
      rw [id_recounted] at hid
      obtain rfl : nodeId = s.id := hid
      have hclient : adv.nodeId ≠ s.id := fun h => hadvertised ⟨adv, hadv, h⟩
      rw [advertised_recounted] at hadv
      obtain ⟨hbefore, hunexpired⟩ := lookup_expireAdvertised_iff.mp hadv
      have hunstored : ∀ n ∈ s.neighbours, ∀ st, n.routes.lookup p = some st →
          st.toSource = ⟨s.id, p⟩ → st.expireAt < now ∧ st.metric = INF := by
        intro n hn st hst hsource
        by_contra hkept
        exact hstored (stored_recounted_iff.mpr ⟨n, hn, st, hst, hsource, hkept⟩)
      have hdisplaced := (selected_recounted_iff hbefore hunexpired hunstored).not.mp hselected
      exact hnone p adv ⟨hbefore, hunexpired, hclient, hentry, hunstored, not_not.mp hdisplaced⟩

/-- A client of `a` goes to sleep and then shows up at `b`, whose route `a` learns. -/
def roamedClient : RouterState :=
  run (RouterState.init defaultRouterTunables "a")
    [.reconcileNeighbours ["b"], .setLink "b" true 10,
      .passiveClient 0 samplePrefix "c" true none, .computeRoutes 0,
      .neighbourUpdate 1 "b" ⟨⟨"b", samplePrefix⟩, ⟨0, 0⟩⟩]

/-- The advertisement of `a` has not expired, and the entry for its source is removed. -/
theorem gc_forgets_roamed_client : (recounted roamedClient 1).advertised.lookup samplePrefix =
        some ⟨"c", 3000000000, true, none⟩ ∧
      roamedClient.sources.lookup ⟨"a", samplePrefix⟩ ≠ none ∧
      (runGC roamedClient 1).1.sources.lookup ⟨"a", samplePrefix⟩ = none ∧
      ¬ KeepsLiveSources roamedClient 1 := by
  have hadv : (recounted roamedClient 1).advertised.lookup samplePrefix =
      some ⟨"c", 3000000000, true, none⟩ := by
    decide +kernel
  have hentry : roamedClient.sources.lookup ⟨"a", samplePrefix⟩ ≠ none := by
    decide +kernel
  have hremoved : (runGC roamedClient 1).1.sources.lookup ⟨"a", samplePrefix⟩ = none := by
    decide +kernel
  refine ⟨hadv, hentry, hremoved, ?_⟩
  intro hkeeps
  exact hkeeps _ hentry hremoved (.own hadv (by decide +kernel))

end Sources

end Nylon.Core
