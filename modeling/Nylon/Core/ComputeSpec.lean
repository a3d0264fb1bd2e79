import Nylon.Core.Selection

/-!
One run of `computeRoutes` as a whole: the state it leaves and the calls it
makes. The state differs from the one before in the routes, the sources and the
smoothed metrics of the neighbour tables, and each of the three is described
entry by entry. The calls are those of the changed entries followed by those of
the lost ones.
-/

namespace Nylon.Core

open State Netip Lib

/-- A stored route with the smoothed metric the run gives it. -/
def smoothRoute (s : RouterState) (n : Neighbour) (adv : NeighRoute) : NeighRoute :=
  match candidate s n adv with
  | none => adv
  | some cand => {adv with smoothedMetric := cand.smoothed}

def smoothNeighbour (s : RouterState) (n : Neighbour) : Neighbour :=
  let smooth := fun (routes : Table Prefix NeighRoute) pfx adv =>
    match candidate s n adv with
    | none => routes
    | some cand => routes.insert pfx {adv with smoothedMetric := cand.smoothed}
  {n with routes := n.routes.range smooth n.routes}

/-- The source table after the updates of a run. -/
def announcedSources (s : RouterState) (now : Time) : Table Source FD :=
  (newTable s now).range (fun sources pfx new =>
    if needsUpdate s (s.routes.lookup pfx) new then
      sources.insert new.toSource
        (maintainFD (sources.lookup new.toSource) new.toFD)
    else sources) s.sources

def finalTable (s : RouterState) (now : Time) : Table Prefix SelRoute :=
  (holdLostRoutes s (newTable s now) []).1

/-- The calls for an entry of the new table. -/
def announcements (s : RouterState) (p : Prefix) (new : SelRoute) : List RouterCall :=
  (if needsInsert (s.routes.lookup p) new then [.tableInsertRoute p new] else []) ++
    (if needsUpdate s (s.routes.lookup p) new then
      [.broadcastSendRouteUpdate new.toPubRoute] else [])

/-- The calls for an entry of the old table. -/
def retractions (s : RouterState) (now : Time) (p : Prefix) (old : SelRoute) : List RouterCall :=
  if losesRoute s now p then
    [.broadcastSendRouteUpdate {old.toPubRoute with metric := INF},
      .tableInsertRoute p {old with metric := INF, retractedBy := []}]
  else []

@[simp] theorem smoothRoute_toPubRoute (s : RouterState) (n : Neighbour)
    (adv : NeighRoute) : (smoothRoute s n adv).toPubRoute = adv.toPubRoute := by
  unfold smoothRoute
  split <;> rfl

@[simp] theorem smoothRoute_expireAt (s : RouterState) (n : Neighbour)
    (adv : NeighRoute) : (smoothRoute s n adv).expireAt = adv.expireAt := by
  unfold smoothRoute
  split <;> rfl

@[simp] theorem smoothNeighbour_id (s : RouterState) (n : Neighbour) :
    (smoothNeighbour s n).id = n.id := rfl

@[simp] theorem smoothNeighbour_active (s : RouterState) (n : Neighbour) :
    (smoothNeighbour s n).active = n.active := rfl

@[simp] theorem smoothNeighbour_linkCost (s : RouterState) (n : Neighbour) :
    (smoothNeighbour s n).linkCost = n.linkCost := rfl

theorem lookup_smoothNeighbour (s : RouterState) (n : Neighbour) (p : Prefix) :
    (smoothNeighbour s n).routes.lookup p =
      (n.routes.lookup p).map (smoothRoute s n) :=
  lookup_smoothNeighbourBy (candidate s) (fun _ => .stored) n p

theorem scanNeighbours_snd (s : RouterState) :
    (scanNeighbours s).2 = s.neighbours.map (smoothNeighbour s) := by
  rw [scanNeighbours, scanNeighboursBy_snd]
  rfl

/-- The announcing pass changes the state in its source table only. -/
theorem announceChanges_state (s : RouterState) (table : Table Prefix SelRoute)
    (out : Out) (hsources : out.1.sources = s.sources) :
    (announceChanges s table out).1 =
      {out.1 with sources := table.range (fun sources pfx new =>
        if needsUpdate s (s.routes.lookup pfx) new then
          sources.insert new.toSource
            (maintainFD (sources.lookup new.toSource) new.toFD)
        else sources) s.sources} := by
  unfold announceChanges
  rw [← hsources]
  refine (Table.range_hom table Prod.fst (announceChange s)
    (fun (state : RouterState) pfx new =>
      if needsUpdate s (s.routes.lookup pfx) new then
        updateFeasibility state new.toPubRoute else state) _ ?_).trans ?_
  · intro acc pfx new
    simp only [announceChange]
    split <;> rfl
  · refine (Table.range_hom table
      (fun sources : Table Source FD => {out.1 with sources := sources})
      _ _ out.1.sources ?_).symm
    intro sources pfx new
    split <;> rfl

theorem announceChanges_calls (s : RouterState) (table : Table Prefix SelRoute) (out : Out) :
    (announceChanges s table out).2 =
      out.2 ++ table.entries.flatMap (fun entry => announcements s entry.1 entry.2) := by
  apply Table.range_append table (announceChange s) out
    (fun _ => True) Prod.snd (announcements s) trivial
  intro acc pfx new _ _
  simp only [announceChange, announcements]
  split <;> simp

theorem isLost_newTable {s : RouterState} {now : Time} {p : Prefix}
    {old : SelRoute} (hold : s.routes.lookup p = some old) :
    isLost (newTable s now) p old = losesRoute s now p := by
  unfold isLost losesRoute
  rw [lookup_newTable, hold]
  cases selectedRoute s now p <;> simp

/-- While lost routes are put back, what is lost does not change: an entry that
is put back is `INF`. -/
private theorem holdLost_isLost (s : RouterState)
    (acc : Table Prefix SelRoute × List RouterCall) (k p : Prefix)
    (old old' : SelRoute) (hk : s.routes.lookup k = some old)
    (hp : s.routes.lookup p = some old') :
    isLost (holdLost s acc k old).1 p old' = isLost acc.1 p old' := by
  unfold holdLost
  split
  · next hlost =>
    by_cases heq : p = k
    · subst heq
      obtain rfl : old = old' := by simpa [hk] using hp
      rw [hlost]
      have hfinite : (old.metric != INF) = true := by
        unfold isLost at hlost
        simp only [Bool.and_eq_true] at hlost
        exact hlost.1
      simp [isLost, hfinite]
    · simp [isLost, AList.lookup_insert_ne heq]
  · rfl

/-- The calls of the last pass for an entry of the old table. -/
def lostCalls (table : Table Prefix SelRoute) (p : Prefix) (old : SelRoute) : List RouterCall :=
  if isLost table p old then
    [.broadcastSendRouteUpdate {old.toPubRoute with metric := INF},
      .tableInsertRoute p {old with metric := INF, retractedBy := []}]
  else []

theorem holdLostRoutes_calls (s : RouterState) (table : Table Prefix SelRoute)
    (calls : List RouterCall) :
    (holdLostRoutes s table calls).2 = calls ++ s.routes.entries.flatMap
        (fun entry => lostCalls table entry.1 entry.2) := by
  apply Table.range_append s.routes (holdLost s) (table, calls)
    (fun acc => ∀ p old, s.routes.lookup p = some old → isLost acc.1 p old = isLost table p old)
    Prod.snd (lostCalls table)
  · intro p old _
    rfl
  · intro acc k old hk hinv
    constructor
    · unfold holdLost lostCalls
      rw [hinv k old hk]
      split <;> simp [retract, hk]
    · intro p old' hp
      rw [holdLost_isLost s acc k p old old' hk hp]
      exact hinv p old' hp

theorem lookup_holdLostRoutes (s : RouterState) (table : Table Prefix SelRoute)
    (calls : List RouterCall) (p : Prefix) :
    (holdLostRoutes s table calls).1.lookup p =
      match s.routes.lookup p with
      | some old => if isLost table p old then
          some {old with metric := INF, retractedBy := []} else table.lookup p
      | none => table.lookup p := by
  have hisLost : ∀ (table : Table Prefix SelRoute) (old : SelRoute), isLost table p old =
        (old.metric != INF && (table.lookup p).all (·.metric == INF)) := by
    intro table old
    unfold isLost
    cases table.lookup p <;> rfl
  simp only [hisLost]
  refine (Table.range_pointwise s.routes (holdLost s) (table, calls)
    (fun acc : Table Prefix SelRoute × List RouterCall => acc.1.lookup p) p
    (fun old cur =>
      if old.metric != INF && cur.all (·.metric == INF) then
        some {old with metric := INF, retractedBy := []} else cur) ?_ ?_).trans ?_
  · intro acc old _
    unfold holdLost
    rw [hisLost]
    split
    · exact AList.lookup_insert _
    · rfl
  · intro acc k old _ hne
    simp only [holdLost]
    split
    · exact AList.lookup_insert_ne hne.symm
    · rfl
  · cases s.routes.lookup p <;> rfl

private theorem holdLostRoutes_table (s : RouterState)
    (table : Table Prefix SelRoute) (calls : List RouterCall) :
    (holdLostRoutes s table calls).1 = (holdLostRoutes s table []).1 := by
  let body := fun (table : Table Prefix SelRoute) pfx (old : SelRoute) =>
    if isLost table pfx old then
      table.insert pfx {old with metric := INF, retractedBy := []}
    else table
  have hproj : ∀ calls, (holdLostRoutes s table calls).1 = s.routes.range body table := by
    intro calls
    apply Table.range_hom s.routes Prod.fst (holdLost s) body
    intro acc pfx old
    simp only [holdLost, body]
    split <;> rfl
  rw [hproj calls, hproj []]

theorem computeRoutes_state (s : RouterState) (now : Time) : (computeRoutes s now).1 =
      { s with
        neighbours := s.neighbours.map (smoothNeighbour s)
        sources := announcedSources s now
        routes := finalTable s now } := by
  unfold computeRoutes finalTable
  simp only
  rw [announceChanges_state s _ _ rfl, holdLostRoutes_table, scanNeighbours_snd]
  rfl

/-- The calls a run makes, in order. -/
theorem computeRoutes_calls (s : RouterState) (now : Time) : (computeRoutes s now).2 =
      (newTable s now).entries.flatMap
        (fun entry => announcements s entry.1 entry.2) ++
      s.routes.entries.flatMap
        (fun entry => retractions s now entry.1 entry.2) := by
  unfold computeRoutes
  simp only
  rw [holdLostRoutes_calls, announceChanges_calls, List.nil_append]
  congr 1
  apply List.flatMap_congr
  intro entry hentry
  unfold lostCalls retractions
  rw [isLost_newTable ((Table.mem_entries_iff _ _ _).mp hentry)]

theorem mem_computeRoutes_calls {s : RouterState} {now : Time} {call : RouterCall} :
    call ∈ (computeRoutes s now).2 ↔
      (∃ p new, selectedRoute s now p = some new ∧ call ∈ announcements s p new) ∨
      (∃ p old, s.routes.lookup p = some old ∧ call ∈ retractions s now p old) := by
  rw [computeRoutes_calls, List.mem_append, Table.mem_flatMap_entries, Table.mem_flatMap_entries]
  simp only [lookup_newTable]

theorem lookup_finalTable (s : RouterState) (now : Time) (p : Prefix) :
    (finalTable s now).lookup p = finalRoute s now p := by
  unfold finalTable finalRoute
  rw [lookup_holdLostRoutes]
  cases hold : s.routes.lookup p with
  | none => exact lookup_newTable s now p
  | some old => simp only [isLost_newTable hold, lookup_newTable]

theorem lookup_computeRoutes (s : RouterState) (now : Time) (p : Prefix) :
    (computeRoutes s now).1.routes.lookup p = finalRoute s now p := by
  rw [computeRoutes_state]
  exact lookup_finalTable s now p

end Nylon.Core
