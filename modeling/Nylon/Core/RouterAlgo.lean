import Nylon.Core.Utils

/-!
The routing algorithm of one node (`core/router_algo.go`). Every function takes
the router state and returns the new state with the calls it makes on the
`Router` interface, in order. `RouterEvent` only writes the debug log and is
left out. `now` is the instant at which a function runs.
-/

namespace Nylon.Core

open State Netip Lib

/-- The calls of the `Router` interface. -/
inductive RouterCall where
  | sendRouteUpdate (neigh : NodeId) (advRoute : PubRoute)
  | sendAckRetract (neigh : NodeId) (pfx : Prefix)
  | broadcastSendRouteUpdate (advRoute : PubRoute)
  | requestSeqno (neigh : NodeId) (src : Source) (seqno : UInt16) (hopCnt : UInt8)
  | broadcastRequestSeqno (src : Source) (seqno : UInt16) (hopCnt : UInt8)
  | tableInsertRoute (pfx : Prefix) (route : SelRoute)
  | tableDeleteRoute (pfx : Prefix)
  deriving DecidableEq, Repr

abbrev Out := RouterState × List RouterCall

/-- 3.7.3. Maintaining Feasibility Distances: the entry of the source table
after an update with distance `adv` is sent. -/
def maintainFD (entry : Option FD) (adv : FD) : FD :=
  match entry with
  | none => adv
  | some srcInfo =>
    if seqnoLt srcInfo.seqno adv.seqno then adv
    else if srcInfo.seqno = adv.seqno ∧ adv.metric < srcInfo.metric then
      {srcInfo with metric := adv.metric}
    else srcInfo

def updateFeasibility (s : RouterState) (advRoute : PubRoute) : RouterState :=
  let entry := maintainFD (s.sources.lookup advRoute.toSource) advRoute.toFD
  {s with sources := s.sources.insert advRoute.toSource entry}

/-- 2.4. Feasibility Conditions. -/
def checkFeasibility (s : RouterState) (advRoute : PubRoute) : Bool :=
  match s.sources.lookup advRoute.toSource with
  | none => true
  | some srcInfo =>
    seqnoLt srcInfo.seqno advRoute.seqno || advRoute.metric == INF ||
      (srcInfo.seqno == advRoute.seqno && advRoute.metric < srcInfo.metric)

/-- The walk of `FullTableUpdate` and `PushFullTable`: each route is announced
with `announce`, and finite ones count for the feasibility distance first. -/
def announceTable (s : RouterState) (announce : PubRoute → RouterCall) : Out :=
  s.routes.range (fun (out : Out) _ route =>
    let next := if route.metric ≠ INF then
      updateFeasibility out.1 route.toPubRoute else out.1
    (next, out.2 ++ [announce route.toPubRoute])) (s, [])

def fullTableUpdate (s : RouterState) : Out :=
  announceTable s .broadcastSendRouteUpdate

def pushFullTable (s : RouterState) (neigh : NodeId) : Out :=
  announceTable s (.sendRouteUpdate neigh)

def isHeldRoute (s : RouterState) (route : SelRoute) (connectedNeighs : Nat)
    (hasLink : Bool) (now : Time) : Bool :=
  if route.nh = s.id then false
  else if route.metric ≠ INF ∧ hasLink then false
  else route.retractedBy.length < connectedNeighs && now < route.expireAt

def sameRoute (a b : SelRoute) : Bool :=
  a.nh == b.nh && a.toSource == b.toSource

def isStrictlyBetter (curRoute newRoute : SelRoute) : Bool :=
  newRoute.metric < curRoute.metric

/-- A zero `prev` is uninitialised and is seeded with the first sample. -/
def smoothMetric (prev : ℚ) (sample : Metric) (alpha : ℚ) : ℚ :=
  let value : ℚ := sample.toNat
  if prev = 0 then value else alpha * value + (1 - alpha) * prev

/-- The map of `ComputeRoutes` from neighbour id to whether the best endpoint
is non-nil. -/
def bestEndpoints (s : RouterState) : Table NodeId Bool :=
  s.neighbours.foldl (fun eps neigh => eps.insert neigh.id neigh.active) ∅

def hasLink (s : RouterState) (id : NodeId) : Bool :=
  ((bestEndpoints s).lookup id).getD false

def connectedNeighs (s : RouterState) : Nat :=
  s.neighbours.countP (·.active)

/-- First pass of `ComputeRoutes`: held routes are re-introduced as `INF`. -/
def heldTable (s : RouterState) (now : Time) : Table Prefix SelRoute :=
  s.routes.range (fun table pfx route =>
    if isHeldRoute s route (connectedNeighs s) (hasLink s route.nh) now then
      table.insert pfx {route with metric := INF}
    else table) ∅

/-- The metric of an own advertisement. A passive hold is advertised so high
that a route of any other node is preferred. -/
def advMetric (adv : Advertisement) : Metric :=
  if adv.isPassiveHold then INFM / 2 else adv.metricFn.getD 0

def advertisedRoute (s : RouterState) (now : Time) (pfx : Prefix)
    (adv : Advertisement) : SelRoute :=
  { nodeId := s.id
    pfx := pfx
    seqno := s.getSeqno pfx
    metric := advMetric adv
    nh := adv.nodeId
    expireAt := min (now + s.routeExpiryTime) adv.expiry
    retractedBy := [] }

/-- Second pass: own advertisements. -/
def advertisedTable (s : RouterState) (now : Time)
    (table : Table Prefix SelRoute) : Table Prefix SelRoute :=
  s.advertised.range (fun table pfx adv =>
    table.insert pfx (advertisedRoute s now pfx adv)) table

structure Candidate where
  route : SelRoute
  smoothed : ℚ
  deriving DecidableEq

/-- The cost of the hop to a neighbour, `INF` without a link to it. -/
def hopCostTo (s : RouterState) (neigh : Neighbour) : Metric :=
  if hasLink s neigh.id then
    addMetric (addMetric neigh.linkCost s.hopCost) s.transitCost
  else INF

/-- What a stored neighbour route offers: nothing if it is retracted, has no
finite total cost or is unfeasible. -/
def candidate (s : RouterState) (neigh : Neighbour) (adv : NeighRoute) :
    Option Candidate :=
  let totalCost := addMetric (hopCostTo s neigh) adv.metric
  if totalCost = INF then none
  else if !checkFeasibility s adv.toPubRoute then none
  else
    some
      { route :=
          { adv.toPubRoute with
            metric := totalCost
            nh := neigh.id
            expireAt := adv.expireAt
            retractedBy := [] }
        smoothed := smoothMetric adv.smoothedMetric totalCost
          s.metricSmoothingAlpha }

structure Scan where
  bestByPrefix : Table Prefix Candidate
  selByPrefix : Table Prefix Candidate

def keepBest (best : Table Prefix Candidate) (pfx : Prefix) (cand : Candidate) :
    Table Prefix Candidate :=
  match best.lookup pfx with
  | none => best.insert pfx cand
  | some cur =>
    if cand.route.metric < cur.route.metric then best.insert pfx cand else best

/-- Whether the previous selection for the prefix is this neighbour's route. -/
def isPreviousSelection (s : RouterState) (pfx : Prefix) (neigh : NodeId)
    (src : Source) : Bool :=
  match s.routes.lookup pfx with
  | none => false
  | some prev => prev.nh == neigh && prev.toSource == src

/-- What a stored route of a neighbour offers, if anything. -/
abbrev Offer := Neighbour → NeighRoute → Option Candidate

def scanRoute (offer : Offer) (s : RouterState) (neigh : Neighbour) (acc : Scan × Neighbour)
    (pfx : Prefix) (adv : NeighRoute) : Scan × Neighbour :=
  match offer neigh adv with
  | none => acc
  | some cand =>
    let smoothed := {adv with smoothedMetric := cand.smoothed}
    let sel := if isPreviousSelection s pfx neigh.id adv.toSource then
      acc.1.selByPrefix.insert pfx cand else acc.1.selByPrefix
    (⟨keepBest acc.1.bestByPrefix pfx cand, sel⟩,
      {acc.2 with routes := acc.2.routes.insert pfx smoothed})

/-- The loops of the third pass, with any order of the neighbour tables. -/
def scanNeighboursBy (offer : Offer) (order : Neighbour → Table.Walk Prefix NeighRoute)
    (s : RouterState) : Scan × List Neighbour :=
  s.neighbours.foldl (fun acc neigh =>
    let next := ((order neigh).walk neigh.routes).range (scanRoute offer s neigh) (acc.1, neigh)
    (next.1, acc.2 ++ [next.2])) (⟨∅, ∅⟩, [])

/-- Third pass: the candidates of all neighbours. The smoothed metrics of the
routes that are candidates are written back to the neighbour tables. -/
def scanNeighbours (s : RouterState) : Scan × List Neighbour :=
  scanNeighboursBy (candidate s) (fun _ => .stored) s

/-- RFC 8966 A.3 hysteresis: switch only when both metrics improve. -/
def hysteresis (cur : SelRoute) (curSmoothed : ℚ) (best : Candidate) : SelRoute :=
  if sameRoute best.route cur then best.route
  else if best.route.metric < cur.metric ∧ best.smoothed < curSmoothed then
    best.route
  else cur

/-- The selection for one prefix. `incumbent` is the entry the first two passes
left for it, `sel` the candidate of the previous selection. -/
def selectRoute (incumbent : Option SelRoute) (sel : Option Candidate)
    (best : Candidate) : SelRoute :=
  let cur : Option (SelRoute × ℚ) :=
    match incumbent, sel with
    | some inc, some c =>
      some (inc, if sameRoute inc c.route then c.smoothed else inc.metric.toNat)
    | some inc, none => some (inc, inc.metric.toNat)
    | none, some c => some (c.route, c.smoothed)
    | none, none => none
  match cur with
  | none => best.route
  | some (route, smoothed) => hysteresis route smoothed best

/-- Fourth pass: route selection. -/
def selectRoutes (scan : Scan) (table : Table Prefix SelRoute) :
    Table Prefix SelRoute :=
  scan.bestByPrefix.range (fun table pfx best =>
    table.insert pfx
      (selectRoute (table.lookup pfx) (scan.selByPrefix.lookup pfx) best)) table

/-- Whether the forwarding table has to be told about the new entry. -/
def needsInsert (old : Option SelRoute) (new : SelRoute) : Bool :=
  match old with
  | none => true
  | some old => (old.metric == INF && new.metric != INF) || old.nh != new.nh

/-- Whether an update has to be sent: a new entry, a new router-id or seqno, or
a drastic change of a finite metric. -/
def needsUpdate (s : RouterState) (old : Option SelRoute) (new : SelRoute) : Bool :=
  match old with
  | none => true
  | some old =>
    old.nodeId != new.nodeId || old.seqno != new.seqno ||
      (decide (((new.metric.toNat : Int) - old.metric.toNat).natAbs >
        s.largeChangeThreshold.toNat) && new.metric != INF)

def announceChange (old : RouterState) (out : Out) (pfx : Prefix)
    (new : SelRoute) : Out :=
  let prev := old.routes.lookup pfx
  let inserts := if needsInsert prev new then
    [RouterCall.tableInsertRoute pfx new] else []
  if needsUpdate old prev new then
    (updateFeasibility out.1 new.toPubRoute,
      out.2 ++ inserts ++ [.broadcastSendRouteUpdate new.toPubRoute])
  else (out.1, out.2 ++ inserts)

def announceChanges (s : RouterState) (table : Table Prefix SelRoute)
    (out : Out) : Out :=
  table.range (announceChange s) out

def retract (s : RouterState) (pfx : Prefix) : List RouterCall :=
  match s.routes.lookup pfx with
  | none => []
  | some entry => [.broadcastSendRouteUpdate {entry.toPubRoute with metric := INF}]

/-- Whether the old entry was reachable and the new table has no finite one. -/
def isLost (table : Table Prefix SelRoute) (pfx : Prefix) (old : SelRoute) : Bool :=
  old.metric != INF &&
    match table.lookup pfx with
    | none => true
    | some route => route.metric == INF

def holdLost (s : RouterState) (acc : Table Prefix SelRoute × List RouterCall)
    (pfx : Prefix) (old : SelRoute) : Table Prefix SelRoute × List RouterCall :=
  if isLost acc.1 pfx old then
    let held := {old with metric := INF, retractedBy := []}
    (acc.1.insert pfx held,
      acc.2 ++ retract s pfx ++ [.tableInsertRoute pfx held])
  else acc

/-- Last pass: routes that are no longer reachable are retracted, and stay in
the table as `INF` so that they can be held. -/
def holdLostRoutes (s : RouterState) (table : Table Prefix SelRoute)
    (calls : List RouterCall) : Table Prefix SelRoute × List RouterCall :=
  s.routes.range (holdLost s) (table, calls)

def newTable (s : RouterState) (now : Time) : Table Prefix SelRoute :=
  selectRoutes (scanNeighbours s).1 (advertisedTable s now (heldTable s now))

def computeRoutes (s : RouterState) (now : Time) : Out :=
  let scanned := {s with neighbours := (scanNeighbours s).2}
  let announced := announceChanges s (newTable s now) (scanned, [])
  let final := holdLostRoutes s (newTable s now) announced.2
  ({announced.1 with routes := final.1}, final.2)

end Nylon.Core
