import Nylon.Core.RouterAlgo
import Mathlib.Data.List.MinMax

/-!
The third pass of `computeRoutes` for any rule that says what a stored route
offers and any order in which the neighbour tables are walked. What the pass
collects for a prefix is described by the list of the offers for that prefix, so
the walk order is gone once these descriptions are used.
-/

namespace Nylon.Core

open State Netip Lib

/-- The offers for a prefix, in the order of the neighbours. -/
def offers (offer : Offer) (neighs : List Neighbour) (p : Prefix) : List Candidate :=
  neighs.filterMap fun neigh => (neigh.routes.lookup p).bind (offer neigh)

/-- One step of the search for the smallest metric. -/
abbrev better : Option Candidate → Candidate → Option Candidate :=
  List.argAux fun cand cur => cand.route.metric < cur.route.metric

def bestCandidate (cands : List Candidate) : Option Candidate :=
  cands.argmin (·.route.metric)

/-- The last candidate of a list that continues the previous selection. -/
def lastContinuing (s : RouterState) (p : Prefix) (cands : List Candidate) : Option Candidate :=
  (cands.filter fun cand =>
    isPreviousSelection s p cand.route.nh cand.route.toSource).getLast?

/-- A stored route with the smoothed metric of its offer. -/
def smoothBy (offer : NeighRoute → Option Candidate) (adv : NeighRoute) : NeighRoute :=
  match offer adv with
  | none => adv
  | some cand => {adv with smoothedMetric := cand.smoothed}

def smoothNeighbourBy (offer : Offer) (order : Neighbour → Table.Walk Prefix NeighRoute)
    (n : Neighbour) : Neighbour :=
  let smooth := fun (routes : Table Prefix NeighRoute) pfx adv =>
    match offer n adv with
    | none => routes
    | some cand => routes.insert pfx {adv with smoothedMetric := cand.smoothed}
  {n with routes := ((order n).walk n.routes).range smooth n.routes}

/-- The best candidate is a candidate, and none has a smaller metric. -/
theorem bestCandidate_spec {cands : List Candidate} {b : Candidate}
    (h : bestCandidate cands = some b) :
    b ∈ cands ∧ ∀ c ∈ cands, b.route.metric ≤ c.route.metric := by
  refine ⟨List.argmin_mem h, fun c hc => ?_⟩
  exact List.le_of_mem_argmin (f := fun c : Candidate => c.route.metric) hc h

theorem lookup_keepBest (best : Table Prefix Candidate) (k p : Prefix) (cand : Candidate) :
    (keepBest best k cand).lookup p =
      if p = k then better (best.lookup p) cand else best.lookup p := by
  by_cases hk : p = k
  · subst hk
    simp only [keepBest, if_true]
    cases hcur : best.lookup p with
    | none => simp [List.argAux]
    | some cur =>
      simp only [List.argAux]
      split
      · exact AList.lookup_insert _
      · exact hcur
  · simp only [keepBest, hk, if_false]
    split
    · exact AList.lookup_insert_ne hk
    · split
      · exact AList.lookup_insert_ne hk
      · rfl

section OneNeighbour

variable (offer : Offer) (s : RouterState) (neigh : Neighbour)
  (w : Table.Walk Prefix NeighRoute) (acc : Scan × Neighbour) (p : Prefix)

/-- One neighbour's table, seen at one prefix. -/
private theorem scan_neighbour_best :
    ((w.walk neigh.routes).range (scanRoute offer s neigh) acc).1.bestByPrefix.lookup p =
      ((neigh.routes.lookup p).bind (offer neigh)).elim
        (acc.1.bestByPrefix.lookup p)
        (better (acc.1.bestByPrefix.lookup p)) := by
  refine (Table.range_pointwise (w.walk neigh.routes) _ acc
    (fun acc : Scan × Neighbour => acc.1.bestByPrefix.lookup p) p
    (fun adv cur => (offer neigh adv).elim cur (better cur)) ?_ ?_).trans ?_
  · intro acc adv _
    unfold scanRoute
    cases offer neigh adv with
    | none => rfl
    | some c => simp [lookup_keepBest]
  · intro acc k adv _ hne
    unfold scanRoute
    cases offer neigh adv with
    | none => rfl
    | some c => simp [lookup_keepBest, hne.symm]
  · rw [w.lookup_walk]
    cases neigh.routes.lookup p <;> rfl

private theorem scan_neighbour_sel (hoffer : ∀ adv c, offer neigh adv = some c →
      c.route.nh = neigh.id ∧ c.route.toSource = adv.toSource) :
    ((w.walk neigh.routes).range (scanRoute offer s neigh) acc).1.selByPrefix.lookup p =
      ((neigh.routes.lookup p).bind (offer neigh)).elim
        (acc.1.selByPrefix.lookup p)
        (fun c => if isPreviousSelection s p c.route.nh c.route.toSource then
          some c else acc.1.selByPrefix.lookup p) := by
  refine (Table.range_pointwise (w.walk neigh.routes) _ acc
    (fun acc : Scan × Neighbour => acc.1.selByPrefix.lookup p) p
    (fun adv cur => (offer neigh adv).elim cur
      (fun c => if isPreviousSelection s p c.route.nh c.route.toSource then
        some c else cur)) ?_ ?_).trans ?_
  · intro acc adv _
    unfold scanRoute
    cases hcand : offer neigh adv with
    | none => rfl
    | some c =>
      obtain ⟨hnh, hsource⟩ := hoffer adv c hcand
      simp only [Option.elim_some, hnh, hsource]
      split
      · exact AList.lookup_insert _
      · rfl
  · intro acc k adv _ hne
    unfold scanRoute
    cases offer neigh adv with
    | none => rfl
    | some c =>
      dsimp only
      split
      · exact AList.lookup_insert_ne hne.symm
      · rfl
  · rw [w.lookup_walk]
    cases neigh.routes.lookup p <;> rfl

private theorem scan_neighbour_routes (order : Neighbour → Table.Walk Prefix NeighRoute)
    (scan : Scan) :
    (((order neigh).walk neigh.routes).range (scanRoute offer s neigh) (scan, neigh)).2 =
      smoothNeighbourBy offer order neigh := by
  refine (Table.range_hom ((order neigh).walk neigh.routes) Prod.snd
    (scanRoute offer s neigh)
    (fun (m : Neighbour) pfx adv => match offer neigh adv with
      | none => m
      | some cand =>
        let smoothed := {adv with smoothedMetric := cand.smoothed}
        {m with routes := m.routes.insert pfx smoothed}) _ ?_).trans ?_
  · intro acc pfx adv
    unfold scanRoute
    cases offer neigh adv <;> rfl
  · refine (Table.range_hom ((order neigh).walk neigh.routes)
      (fun routes : Table Prefix NeighRoute => {neigh with routes := routes})
      _ _ neigh.routes ?_).symm
    intro routes pfx adv
    cases offer neigh adv <;> rfl

end OneNeighbour

section AllNeighbours

variable (offer : Offer) (order : Neighbour → Table.Walk Prefix NeighRoute)
  (s : RouterState)

private theorem scan_foldl (hoffer : ∀ n adv c, offer n adv = some c →
      c.route.nh = n.id ∧ c.route.toSource = adv.toSource) (p : Prefix)
    (neighs : List Neighbour) (acc : Scan × List Neighbour) :
    let final := neighs.foldl (fun acc neigh =>
      let next := ((order neigh).walk neigh.routes).range (scanRoute offer s neigh)
        (acc.1, neigh)
      (next.1, acc.2 ++ [next.2])) acc
    final.1.bestByPrefix.lookup p =
        (offers offer neighs p).foldl better (acc.1.bestByPrefix.lookup p) ∧
      final.1.selByPrefix.lookup p =
        (offers offer neighs p).foldl (fun cur cand =>
          if isPreviousSelection s p cand.route.nh cand.route.toSource then
            some cand else cur) (acc.1.selByPrefix.lookup p) := by
  induction neighs generalizing acc with
  | nil => exact ⟨rfl, rfl⟩
  | cons neigh rest ih =>
    have hbest := scan_neighbour_best offer s neigh (order neigh) (acc.1, neigh) p
    have hsel := scan_neighbour_sel offer s neigh (order neigh) (acc.1, neigh) p
      (hoffer neigh)
    simp only [List.foldl_cons]
    obtain ⟨ihbest, ihsel⟩ := ih
      ((((order neigh).walk neigh.routes).range (scanRoute offer s neigh)
          (acc.1, neigh)).1,
        acc.2 ++ [(((order neigh).walk neigh.routes).range (scanRoute offer s neigh)
          (acc.1, neigh)).2])
    rw [hbest] at ihbest
    rw [hsel] at ihsel
    refine ⟨ihbest.trans ?_, ihsel.trans ?_⟩ <;>
      cases hoffered : (neigh.routes.lookup p).bind (offer neigh) <;>
      simp [offers, hoffered]

theorem lookup_bestByPrefix_by (hoffer : ∀ n adv c, offer n adv = some c →
      c.route.nh = n.id ∧ c.route.toSource = adv.toSource) (p : Prefix) :
    (scanNeighboursBy offer order s).1.bestByPrefix.lookup p =
      bestCandidate (offers offer s.neighbours p) :=
  (scan_foldl offer order s hoffer p s.neighbours (⟨∅, ∅⟩, [])).1

private theorem foldl_getLast (q : Candidate → Bool) (cands : List Candidate) :
    cands.foldl (fun cur cand => if q cand then some cand else cur) none =
      (cands.filter q).getLast? := by
  induction cands using List.reverseRecOn with
  | nil => rfl
  | append_singleton cands c ih =>
    rw [List.foldl_append, List.filter_append]
    by_cases hq : q c = true
    · simp [hq]
    · simp [hq, ih]

theorem lookup_selByPrefix_by (hoffer : ∀ n adv c, offer n adv = some c →
      c.route.nh = n.id ∧ c.route.toSource = adv.toSource) (p : Prefix) :
    (scanNeighboursBy offer order s).1.selByPrefix.lookup p =
      lastContinuing s p (offers offer s.neighbours p) :=
  ((scan_foldl offer order s hoffer p s.neighbours (⟨∅, ∅⟩, [])).2).trans (foldl_getLast _ _)

theorem scanNeighboursBy_snd : (scanNeighboursBy offer order s).2 =
      s.neighbours.map (smoothNeighbourBy offer order) := by
  have hfold : ∀ (neighs : List Neighbour) (acc : Scan × List Neighbour),
      (neighs.foldl (fun acc neigh =>
        let next := ((order neigh).walk neigh.routes).range (scanRoute offer s neigh)
          (acc.1, neigh)
        (next.1, acc.2 ++ [next.2])) acc).2 =
      acc.2 ++ neighs.map (smoothNeighbourBy offer order) := by
    intro neighs
    induction neighs with
    | nil => simp
    | cons neigh rest ih =>
      intro acc
      simp only [List.foldl_cons, List.map_cons]
      rw [ih, scan_neighbour_routes]
      simp
  exact hfold s.neighbours (⟨∅, ∅⟩, [])

theorem lookup_smoothNeighbourBy (n : Neighbour) (p : Prefix) :
    (smoothNeighbourBy offer order n).routes.lookup p =
      (n.routes.lookup p).map (smoothBy (offer n)) := by
  refine (Table.range_pointwise ((order n).walk n.routes) _ _ (AList.lookup p) p
    (fun adv cur => (offer n adv).elim cur fun cand =>
      some {adv with smoothedMetric := cand.smoothed}) ?_ ?_).trans ?_
  · intro routes adv _
    cases offer n adv with
    | none => rfl
    | some cand => exact AList.lookup_insert routes
  · intro routes k adv _ hne
    cases offer n adv with
    | none => rfl
    | some cand => exact AList.lookup_insert_ne hne.symm
  · rw [(order n).lookup_walk]
    cases hadv : n.routes.lookup p with
    | none => rfl
    | some adv =>
      simp only [Option.map_some, smoothBy]
      cases offer n adv <;> rfl

end AllNeighbours

end Nylon.Core
