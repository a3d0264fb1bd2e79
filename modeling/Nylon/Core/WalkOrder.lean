import Nylon.Core.SelectionSound
import Nylon.Core.SourceTable

/-!
`computeRoutes` does not depend on the order in which it walks its maps and its
neighbours. A run is described once more with the order of every loop and the
smoothing step as parameters; what it leaves for a prefix, a source or a stored
route, and the calls it makes, are then given by formulas without the orders. The
neighbours enter them through their links and through the candidates of a prefix,
which have a unique best one as long as no two of them have the same metric.
-/

namespace Nylon.Core

open State Netip Lib

/-- A router state: neighbours are told apart by their ids, and every table stores
a route under the prefix of its source. -/
structure Router where
  state : RouterState
  keyed : Keyed state
  distinct : (state.neighbours.map (·.id)).Nodup

/-- Every state the router reaches from empty tables is one. -/
def Router.reached (tunables : RouterTunables) (id : NodeId) (events : List Event) : Router where
  state := run (RouterState.init tunables id) events
  keyed := Keyed.run tunables id events
  distinct := by
    let Distinct := fun s : RouterState => (s.neighbours.map (·.id)).Nodup
    have hstart : Distinct (RouterState.init tunables id) := by
      simp [Distinct, RouterState.init]
    exact Transitions.run_invariant
      (fun s e (h : Distinct s) _ => (distinct_step e h : Distinct (step s e).1)) hstart
      Transitions.along_true

abbrev Smoothing := ℚ → Metric → ℚ → ℚ

/-- The order of every loop over a map in one run. -/
structure WalkOrder where
  held : Table.Walk Prefix SelRoute
  advertised : Table.Walk Prefix Advertisement
  stored : Neighbour → Table.Walk Prefix NeighRoute
  best : Table.Walk Prefix Candidate
  announced : Table.Walk Prefix SelRoute
  lost : Table.Walk Prefix SelRoute

def WalkOrder.asStored : WalkOrder :=
  ⟨.stored, .stored, fun _ => .stored, .stored, .stored, .stored⟩

def WalkOrder.reversed : WalkOrder :=
  ⟨.reversed, .reversed, fun _ => .reversed, .reversed, .reversed, .reversed⟩

/-- What a stored route offers, with an arbitrary smoothing step. -/
def candidateWith (smooth : Smoothing) (s : RouterState) : Offer := fun neigh adv =>
  (candidate s neigh adv).map fun cand =>
    let smoothed := smooth adv.smoothedMetric cand.route.metric s.metricSmoothingAlpha
    {cand with smoothed := smoothed}

def newTableIn (w : WalkOrder) (smooth : Smoothing) (s : RouterState) (now : Time) :
    Table Prefix SelRoute :=
  let scan := (scanNeighboursBy (candidateWith smooth s) w.stored s).1
  let held := heldTable {s with routes := w.held.walk s.routes} now
  selectRoutes {scan with bestByPrefix := w.best.walk scan.bestByPrefix}
    (advertisedTable {s with advertised := w.advertised.walk s.advertised} now held)

/-- `computeRoutes` with the given orders and smoothing step. -/
def computeRoutesIn (w : WalkOrder) (smooth : Smoothing) (s : RouterState) (now : Time) :
    Out :=
  let scanned := {s with
    neighbours := (scanNeighboursBy (candidateWith smooth s) w.stored s).2}
  let table := newTableIn w smooth s now
  let announced := announceChanges s (w.announced.walk table) (scanned, [])
  let final := holdLostRoutes {s with routes := w.lost.walk s.routes} table announced.2
  ({announced.1 with routes := final.1}, final.2)

theorem candidateWith_smoothMetric (s : RouterState) :
    candidateWith smoothMetric s = candidate s := by
  funext neigh adv
  unfold candidateWith
  cases hcand : candidate s neigh adv with
  | none => rfl
  | some cand =>
    obtain ⟨_, _, _, _, _, _, _, hsmoothed⟩ := candidate_eq_some hcand
    rw [Option.map_some, ← hsmoothed]

/-- The run of the code is the one with its smoothing step in the stored order. -/
theorem computeRoutesIn_asStored (s : RouterState) (now : Time) :
    computeRoutesIn .asStored smoothMetric s now = computeRoutes s now := by
  unfold computeRoutesIn newTableIn computeRoutes newTable
  rw [candidateWith_smoothMetric, scanNeighbours]
  rfl

/-- No two neighbours have candidates for the same prefix with the same metric. -/
def NoTies (s : RouterState) : Prop :=
  s.neighbours.Pairwise fun n m => ∀ p st, n.routes.lookup p = some st →
    ∀ st' ∈ m.routes.lookup p, ∀ c ∈ candidate s n st, ∀ c' ∈ candidate s m st',
      c.route.metric ≠ c'.route.metric

instance (s : RouterState) : Decidable (NoTies s) :=
  inferInstanceAs (Decidable (s.neighbours.Pairwise _))

/-- The same neighbour, its table up to order. -/
structure SameNeighbour (n m : Neighbour) : Prop where
  id : n.id = m.id
  active : n.active = m.active
  linkCost : n.linkCost = m.linkCost
  routes : n.routes.entries.Perm m.routes.entries

/-- The same result of a run, tables, neighbours and calls up to order. -/
structure SameOutcome (out out' : Out) : Prop where
  tunables : out.1.toRouterTunables = out'.1.toRouterTunables
  id : out.1.id = out'.1.id
  selfSeqno : out.1.selfSeqno = out'.1.selfSeqno
  advertised : out.1.advertised = out'.1.advertised
  routes : out.1.routes.entries.Perm out'.1.routes.entries
  sources : out.1.sources.entries.Perm out'.1.sources.entries
  neighbours : ∃ neighs, out.1.neighbours.Perm neighs ∧
    List.Forall₂ SameNeighbour neighs out'.1.neighbours
  calls : out.2.Perm out'.2

section Formulas

variable (w : WalkOrder) (smooth : Smoothing) (s : RouterState) (now : Time)

/-- The entry the selection passes build for a prefix. -/
def selectedWith (p : Prefix) : Option SelRoute :=
  let cands := offers (candidateWith smooth s) s.neighbours p
  match bestCandidate cands with
  | none => incumbent s now p
  | some best => some (selectRoute (incumbent s now p) (lastContinuing s p cands) best)

/-- An offer is a candidate of the code but for its smoothed metric. -/
theorem candidateWith_eq_some {smooth : Smoothing} {s : RouterState} {n : Neighbour}
    {adv : NeighRoute} {c : Candidate} (h : candidateWith smooth s n adv = some c) :
    ∃ c', candidate s n adv = some c' ∧ c.route = c'.route := by
  obtain ⟨c', hc', rfl⟩ := Option.map_eq_some_iff.mp h
  exact ⟨c', hc', rfl⟩

theorem candidateWith_origin (n : Neighbour) (adv : NeighRoute) (c : Candidate)
    (h : candidateWith smooth s n adv = some c) :
    c.route.nh = n.id ∧ c.route.toSource = adv.toSource := by
  obtain ⟨c', hc', hroute⟩ := candidateWith_eq_some h
  obtain ⟨_, _, hnh, hsource, _⟩ := candidate_eq_some hc'
  rw [hroute]
  exact ⟨hnh, hsource⟩

theorem lookup_newTableIn (p : Prefix) :
    (newTableIn w smooth s now).lookup p = selectedWith smooth s now p := by
  have hincumbent : (advertisedTable
      {s with advertised := w.advertised.walk s.advertised} now
        (heldTable {s with routes := w.held.walk s.routes} now)).lookup p =
      incumbent s now p := by
    rw [lookup_advertisedTable, lookup_heldTable]
    unfold incumbent heldRoute
    simp only [Table.Walk.lookup_walk]
    cases s.advertised.lookup p <;> rfl
  unfold newTableIn selectedWith
  rw [lookup_selectRoutes, hincumbent]
  cases hbest : bestCandidate (offers (candidateWith smooth s) s.neighbours p) <;>
    simp only [Table.Walk.lookup_walk, hbest,
      lookup_bestByPrefix_by _ _ s (candidateWith_origin smooth s),
      lookup_selByPrefix_by _ _ s (candidateWith_origin smooth s)]

/-- In a state with keyed tables the new entries are keyed. -/
theorem selectedWith_pfx {s : RouterState} (hkeyed : Keyed s) {p : Prefix} {r : SelRoute}
    (h : selectedWith smooth s now p = some r) : r.pfx = p := by
  have hoffer : ∀ c ∈ offers (candidateWith smooth s) s.neighbours p, c.route.pfx = p := by
    intro c hc
    obtain ⟨n, hn, hbind⟩ := List.mem_filterMap.mp hc
    obtain ⟨st, hst, hcand⟩ := Option.bind_eq_some_iff.mp hbind
    rw [(candidateWith_origin smooth s n st c hcand).2]
    exact hkeyed.stored n.id p st ⟨n, hn, rfl, hst⟩
  have hincumbent : ∀ inc, incumbent s now p = some inc → inc.pfx = p := by
    intro inc hinc
    unfold incumbent at hinc
    cases hadv : s.advertised.lookup p with
    | some adv =>
      simp only [hadv, Option.some.injEq] at hinc
      rw [← hinc]
      rfl
    | none =>
      simp only [hadv] at hinc
      obtain ⟨old, hold, _, rfl⟩ := heldRoute_eq_some.mp hinc
      exact hkeyed.routes p old hold
  unfold selectedWith at h
  cases hbest : bestCandidate (offers (candidateWith smooth s) s.neighbours p) with
  | none =>
    simp only [hbest] at h
    exact hincumbent r h
  | some best =>
    simp only [hbest, Option.some.injEq] at h
    have hmem := (bestCandidate_spec hbest).1
    rw [← h]
    cases hinc : incumbent s now p with
    | none =>
      rcases selectRoute_none (lastContinuing s p
          (offers (candidateWith smooth s) s.neighbours p)) best with
        hroute | ⟨c, hc, hroute⟩
      · rw [hroute]
        exact hoffer best hmem
      · rw [hroute]
        exact hoffer c (List.mem_filter.mp (List.mem_of_getLast? hc)).1
    | some inc =>
      rcases selectRoute_incumbent inc (lastContinuing s p
          (offers (candidateWith smooth s) s.neighbours p)) best with
        hroute | ⟨hroute, _⟩
      · rw [hroute]
        exact hincumbent inc hinc
      · rw [hroute]
        exact hoffer best hmem

theorem lookup_computeRoutesIn_routes (p : Prefix) :
    (computeRoutesIn w smooth s now).1.routes.lookup p =
      match s.routes.lookup p with
      | some old =>
        if old.metric != INF && (selectedWith smooth s now p).all (·.metric == INF) then
          some {old with metric := INF, retractedBy := []}
        else selectedWith smooth s now p
      | none => selectedWith smooth s now p := by
  unfold computeRoutesIn
  dsimp only
  rw [lookup_holdLostRoutes]
  simp only [Table.Walk.lookup_walk, isLost, lookup_newTableIn]
  cases s.routes.lookup p with
  | none => rfl
  | some old => cases selectedWith smooth s now p <;> rfl

theorem lookup_computeRoutesIn_sources {s : RouterState} (hkeyed : Keyed s) (src : Source) :
    (computeRoutesIn w smooth s now).1.sources.lookup src =
      match selectedWith smooth s now src.pfx with
      | some r =>
        if needsUpdate s (s.routes.lookup src.pfx) r ∧ r.toSource = src then
          some (maintainFD (s.sources.lookup src) r.toFD)
        else s.sources.lookup src
      | none => s.sources.lookup src := by
  unfold computeRoutesIn
  dsimp only
  rw [announceChanges_state s _ _ rfl, ← lookup_newTableIn w,
    ← (w.announced).lookup_walk (newTableIn w smooth s now)]
  apply lookup_maintained _ s.sources
    (fun p r => needsUpdate s (s.routes.lookup p) r = true)
  intro p r hr
  rw [Table.Walk.lookup_walk, lookup_newTableIn] at hr
  exact selectedWith_pfx smooth now hkeyed hr

/-- A run changes the routes, the sources and the smoothed metrics only. -/
theorem computeRoutesIn_frame : ∃ routes sources, (computeRoutesIn w smooth s now).1 =
      { s with
        routes := routes
        sources := sources
        neighbours :=
          s.neighbours.map (smoothNeighbourBy (candidateWith smooth s) w.stored) } := by
  unfold computeRoutesIn
  dsimp only
  rw [announceChanges_state s _ _ rfl, scanNeighboursBy_snd]
  exact ⟨_, _, rfl⟩

theorem computeRoutesIn_calls : (computeRoutesIn w smooth s now).2 =
      (w.announced.walk (newTableIn w smooth s now)).entries.flatMap
        (fun entry => announcements s entry.1 entry.2) ++
      (w.lost.walk s.routes).entries.flatMap
        (fun entry => lostCalls (newTableIn w smooth s now) entry.1 entry.2) := by
  unfold computeRoutesIn
  dsimp only
  rw [holdLostRoutes_calls, announceChanges_calls, List.nil_append]

end Formulas

/-- With distinct metrics the best candidate does not depend on the order. -/
theorem bestCandidate_of_perm {cands cands' : List Candidate} (hperm : cands.Perm cands')
    (hties : cands.Pairwise fun c c' => c.route.metric ≠ c'.route.metric) :
    bestCandidate cands = bestCandidate cands' := by
  have hinj : ∀ c ∈ cands, ∀ c' ∈ cands, c.route.metric = c'.route.metric → c = c' := by
    have hnodup : (cands.map (·.route.metric)).Nodup := List.pairwise_map.mpr hties
    intro c hc c' hc' heq
    exact List.inj_on_of_nodup_map hnodup hc hc' heq
  cases hbest : bestCandidate cands with
  | none =>
    obtain rfl : cands = [] := List.argmin_eq_none.mp hbest
    rw [List.nil_perm.mp hperm]
    rfl
  | some best =>
    obtain ⟨hmem, hle⟩ := bestCandidate_spec hbest
    cases hbest' : bestCandidate cands' with
    | none =>
      obtain rfl : cands' = [] := List.argmin_eq_none.mp hbest'
      exact absurd (hperm.mem_iff.mp hmem) (by simp)
    | some best' =>
      obtain ⟨hmem', hle'⟩ := bestCandidate_spec hbest'
      have heq : best.route.metric = best'.route.metric :=
        le_antisymm (hle best' (hperm.mem_iff.mpr hmem')) (hle' best (hperm.mem_iff.mp hmem))
      rw [hinj best hmem best' (hperm.mem_iff.mpr hmem') heq]

/-- At most one candidate has the next hop of the previous selection. -/
theorem lastContinuing_of_perm {s : RouterState} {p : Prefix}
    {cands cands' : List Candidate} (hperm : cands.Perm cands')
    (hdistinct : cands.Pairwise fun c c' => c.route.nh ≠ c'.route.nh) :
    lastContinuing s p cands = lastContinuing s p cands' := by
  let continues := fun c : Candidate =>
    isPreviousSelection s p c.route.nh c.route.toSource
  have hsame : ∀ c c', continues c = true → continues c' = true → c.route.nh = c'.route.nh := by
    intro c c' hc hc'
    simp only [continues, isPreviousSelection] at hc hc'
    cases hprev : s.routes.lookup p with
    | none => simp [hprev] at hc
    | some prev =>
      simp only [hprev, Bool.and_eq_true, beq_iff_eq] at hc hc'
      exact hc.1.symm.trans hc'.1
  have hfilter := hperm.filter continues
  have hshort : (cands.filter continues).length ≤ 1 := by
    have hpairs := hdistinct.filter continues
    by_contra hlong
    obtain ⟨c, c', rest, hcons⟩ : ∃ c c' rest, cands.filter continues = c :: c' :: rest := by
      match hfiltered : cands.filter continues with
      | [] => simp [hfiltered] at hlong
      | [c] => simp [hfiltered] at hlong
      | c :: c' :: rest => exact ⟨c, c', rest, rfl⟩
    rw [hcons] at hpairs
    have hc : c ∈ cands.filter continues := by simp [hcons]
    have hc' : c' ∈ cands.filter continues := by simp [hcons]
    refine (List.pairwise_cons.mp hpairs).1 c' (by simp) ?_
    exact hsame c c' (List.mem_filter.mp hc).2 (List.mem_filter.mp hc').2
  have heq : cands.filter continues = cands'.filter continues := by
    match hfiltered : cands.filter continues, hshort with
    | [], _ =>
      rw [hfiltered] at hfilter
      exact (List.nil_perm.mp hfilter).symm
    | [c], _ =>
      rw [hfiltered] at hfilter
      exact (List.singleton_perm.mp hfilter)
  unfold lastContinuing
  rw [heq]

section Permuted

variable (smooth : Smoothing) (s : RouterState) (neighs : List Neighbour) (now : Time)

/-- The state with its neighbours in another order. -/
abbrev withNeighbours : RouterState := {s with neighbours := neighs}

variable {s neighs} (hids : (s.neighbours.map (·.id)).Nodup)
  (hperm : s.neighbours.Perm neighs)

include hids hperm

theorem hasLink_of_perm : hasLink (withNeighbours s neighs) = hasLink s := by
  have hids' : ((withNeighbours s neighs).neighbours.map (·.id)).Nodup :=
    (hperm.map (·.id)).nodup_iff.mp hids
  funext id
  rw [Bool.eq_iff_iff, hasLink_iff hids', hasLink_iff hids]
  exact exists_congr fun n => and_congr_left' hperm.mem_iff.symm

theorem candidate_of_perm : candidate (withNeighbours s neighs) = candidate s := by
  funext n adv
  unfold candidate hopCostTo
  rw [hasLink_of_perm hids hperm]
  rfl

theorem incumbent_of_perm (p : Prefix) :
    incumbent (withNeighbours s neighs) now p = incumbent s now p := by
  have hconnected : connectedNeighs (withNeighbours s neighs) = connectedNeighs s :=
    (hperm.countP_eq fun n : Neighbour => n.active).symm
  unfold incumbent heldRoute
  rw [hasLink_of_perm hids hperm, hconnected]
  rfl

theorem selectedWith_of_perm (hties : NoTies s) (p : Prefix) :
    selectedWith smooth (withNeighbours s neighs) now p = selectedWith smooth s now p := by
  have hcandidate : candidateWith smooth (withNeighbours s neighs) = candidateWith smooth s := by
    unfold candidateWith
    rw [candidate_of_perm hids hperm]
  have hoffers : (offers (candidateWith smooth s) s.neighbours p).Perm
      (offers (candidateWith smooth s) neighs p) :=
    hperm.filterMap _
  have hmetrics : (offers (candidateWith smooth s) s.neighbours p).Pairwise
      fun c c' => c.route.metric ≠ c'.route.metric := by
    apply List.pairwise_filterMap.mpr
    refine hties.imp ?_
    intro n m htie c hc c' hc'
    obtain ⟨st, hst, hcand⟩ := Option.bind_eq_some_iff.mp hc
    obtain ⟨st', hst', hcand'⟩ := Option.bind_eq_some_iff.mp hc'
    obtain ⟨d, hd, hroute⟩ := candidateWith_eq_some hcand
    obtain ⟨d', hd', hroute'⟩ := candidateWith_eq_some hcand'
    rw [hroute, hroute']
    exact htie p st hst st' hst' d hd d' hd'
  have hhops : (offers (candidateWith smooth s) s.neighbours p).Pairwise
      fun c c' => c.route.nh ≠ c'.route.nh := by
    apply List.pairwise_filterMap.mpr
    refine (List.pairwise_map.mp hids).imp ?_
    intro n m hne c hc c' hc'
    obtain ⟨st, _, hcand⟩ := Option.bind_eq_some_iff.mp hc
    obtain ⟨st', _, hcand'⟩ := Option.bind_eq_some_iff.mp hc'
    rw [(candidateWith_origin smooth s n st c hcand).1,
      (candidateWith_origin smooth s m st' c' hcand').1]
    exact hne
  unfold selectedWith
  dsimp only
  rw [hcandidate, incumbent_of_perm now hids hperm, bestCandidate_of_perm hoffers hmetrics,
    lastContinuing_of_perm hoffers hhops]
  rfl

end Permuted

/-- One run gives the same result for every order of the neighbours and of all its
loops, whatever the smoothing step is, if no two candidates for a prefix have the
same metric. -/
theorem computeRoutes_order_independent (smooth : Smoothing) (router : Router)
    (neighs : List Neighbour) (w w' : WalkOrder) (now : Time)
    (hperm : router.state.neighbours.Perm neighs) (hties : NoTies router.state) :
    SameOutcome (computeRoutesIn w smooth router.state now)
      (computeRoutesIn w' smooth {router.state with neighbours := neighs} now) := by
  obtain ⟨s, hkeyed, hids⟩ := router
  dsimp only at hperm hties ⊢
  have hselected := selectedWith_of_perm smooth now hids hperm hties
  have hkeyed' : Keyed (withNeighbours s neighs) := by
    refine ⟨hkeyed.routes, ?_⟩
    rintro id p st ⟨n, hn, hid, hst⟩
    exact hkeyed.stored id p st ⟨n, hperm.mem_iff.mpr hn, hid, hst⟩
  obtain ⟨_, _, hframe⟩ := computeRoutesIn_frame w smooth s now
  obtain ⟨_, _, hframe'⟩ := computeRoutesIn_frame w' smooth (withNeighbours s neighs) now
  constructor
  case tunables => rw [hframe, hframe']
  case id => rw [hframe, hframe']
  case selfSeqno => rw [hframe, hframe']
  case advertised => rw [hframe, hframe']
  case routes =>
    apply Table.perm_of_lookup
    intro p
    rw [lookup_computeRoutesIn_routes, lookup_computeRoutesIn_routes, hselected p]
  case sources =>
    apply Table.perm_of_lookup
    intro src
    rw [lookup_computeRoutesIn_sources w smooth now hkeyed,
      lookup_computeRoutesIn_sources w' smooth now hkeyed', hselected src.pfx]
    rfl
  case neighbours =>
    rw [hframe, hframe']
    refine ⟨_, hperm.map _, ?_⟩
    rw [List.forall₂_map_left_iff, List.forall₂_map_right_iff, List.forall₂_same]
    intro n _
    refine ⟨rfl, rfl, rfl, Table.perm_of_lookup fun p => ?_⟩
    rw [lookup_smoothNeighbourBy, lookup_smoothNeighbourBy]
    unfold candidateWith
    rw [candidate_of_perm hids hperm]
  case calls =>
    have htable : ∀ p, (newTableIn w smooth s now).lookup p =
        (newTableIn w' smooth (withNeighbours s neighs) now).lookup p := by
      intro p
      rw [lookup_newTableIn, lookup_newTableIn, hselected p]
    rw [computeRoutesIn_calls, computeRoutesIn_calls]
    apply List.Perm.append
    · apply List.Perm.flatMap_right
      exact ((w.announced.perm _).trans (Table.perm_of_lookup htable)).trans
        (w'.announced.perm _).symm
    · have hlost : lostCalls (newTableIn w smooth s now) =
          lostCalls (newTableIn w' smooth (withNeighbours s neighs) now) := by
        funext p old
        unfold lostCalls isLost
        rw [htable p]
      rw [hlost]
      apply List.Perm.flatMap_right
      exact (w.lost.perm _).trans (w'.lost.perm _).symm

/-- Node `a` advertises a prefix and can reach two others through `b` and `c`. -/
def twoOffersRun : List Event :=
  let p : Prefix := ⟨.v4 0x0A000100, 24, Prefix.bits24_le⟩
  let q : Prefix := ⟨.v4 0x0A000200, 24, Prefix.bits24_le⟩
  let r : Prefix := ⟨.v4 0x0A000300, 24, Prefix.bits24_le⟩
  [.advertise p ⟨"a", 1000, false, some 0⟩, .reconcileNeighbours ["b", "c"],
    .setLink "b" true 10, .setLink "c" true 20,
    .neighbourUpdate 0 "b" ⟨⟨"d", q⟩, ⟨0, 5⟩⟩, .neighbourUpdate 0 "c" ⟨⟨"d", q⟩, ⟨0, 5⟩⟩,
    .neighbourUpdate 0 "b" ⟨⟨"e", r⟩, ⟨0, 50⟩⟩, .neighbourUpdate 0 "c" ⟨⟨"e", r⟩, ⟨0, 5⟩⟩]

theorem computeRoutes_order_independent_reversed :
    let s := (Router.reached defaultRouterTunables "a" twoOffersRun).state
    (computeRoutes s 1).2.length = 6 ∧
      SameOutcome (computeRoutes s 1) (computeRoutesIn .reversed smoothMetric
        {s with neighbours := s.neighbours.reverse} 1) := by
  intro s
  refine ⟨by decide +kernel, ?_⟩
  rw [← computeRoutesIn_asStored]
  exact computeRoutes_order_independent smoothMetric
    (Router.reached defaultRouterTunables "a" twoOffersRun) s.neighbours.reverse
    .asStored .reversed 1 (List.reverse_perm _).symm (by decide +kernel)

end Nylon.Core
