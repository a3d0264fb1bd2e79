import Nylon.Core.RouterAlgo
import Mathlib.Data.List.Sort
import Mathlib.Data.String.Basic

/-!
The entry points of `core/router_algo.go` that react to messages and timers:
neighbour updates, retraction acknowledgements, seqno requests, starvation and
garbage collection. Messages of unknown neighbours never reach them
(`checkNeigh` in `core/router.go`), so a missing neighbour is a no-op here.
-/

namespace Nylon.Core

open State Netip Lib

/-- The route entry an update leaves for the neighbour. The expiry is only
renewed by a finite update. -/
def storeUpdate (s : RouterState) (now : Time) (adv : PubRoute)
    (neigh : Neighbour) : Neighbour :=
  match neigh.routes.lookup adv.pfx with
  | none =>
    let nr : NeighRoute := ⟨adv, now + s.routeExpiryTime, 0⟩
    {neigh with routes := neigh.routes.insert adv.pfx nr}
  | some nr =>
    let expireAt := if adv.metric ≠ INF then now + s.routeExpiryTime
      else nr.expireAt
    let nr : NeighRoute := ⟨adv, expireAt, nr.smoothedMetric⟩
    {neigh with routes := neigh.routes.insert adv.pfx nr}

/-- The metric an unfeasible update would have if it were selected. -/
def updateMetric (s : RouterState) (n : Neighbour) (adv : PubRoute) : Metric :=
  if n.active then
    addMetric adv.metric
      (addMetric n.linkCost (addMetric s.hopCost s.transitCost))
  else INF

def isSelected (s : RouterState) (neighId : NodeId) (adv : PubRoute) : Bool :=
  match s.routes.lookup adv.pfx with
  | none => false
  | some selRoute => selRoute.nh == neighId && selRoute.toSource == adv.toSource

def isMoreOptimal (s : RouterState) (n : Neighbour) (adv : PubRoute) : Bool :=
  let dummy : SelRoute := ⟨{adv with metric := updateMetric s n adv}, n.id, 0, []⟩
  match s.routes.lookup adv.pfx with
  | none => false
  | some selRoute => isStrictlyBetter selRoute dummy

/-- The seqno of the source table plus one, modulo `2 ^ 16`. -/
def nextSeqno (s : RouterState) (src : Source) : UInt16 :=
  ((s.sources.lookup src).map (·.seqno)).getD 0 + 1

def handleNeighbourUpdate (s : RouterState) (now : Time) (neighId : NodeId)
    (adv : PubRoute) : Out :=
  match s.getNeighbour neighId with
  | none => (s, [])
  | some n =>
    let acks := if adv.metric = INF then
      [RouterCall.sendAckRetract neighId adv.pfx] else []
    let stored := s.modifyNeighbour neighId (storeUpdate s now adv)
    let request := RouterCall.requestSeqno neighId adv.toSource
      (nextSeqno s adv.toSource) s.seqnoRequestHopCount
    match n.routes.lookup adv.pfx with
    | none =>
      if !checkFeasibility s adv then (s, acks)
      else if adv.metric = INF then (s, acks)
      else (stored, acks)
    | some _ =>
      if !checkFeasibility s adv then
        if isSelected s neighId adv then (s, acks ++ [request])
        else if isMoreOptimal s n adv then (stored, acks ++ [request])
        else (stored, acks)
      else (stored, acks)

/-- The entry with the acknowledgement recorded, or `none` if the ack changes
nothing: no entry, a finite entry, or a neighbour that is already listed. -/
def recordAck (s : RouterState) (neighId : NodeId) (pfx : Prefix) : Option RouterState :=
  match s.routes.lookup pfx with
  | none => none
  | some rt =>
    if rt.metric ≠ INF then none
    else if rt.retractedBy.contains neighId then none
    else
      let acked := {rt with retractedBy := rt.retractedBy ++ [neighId]}
      some {s with routes := s.routes.insert pfx acked}

def handleAckRetract (s : RouterState) (now : Time) (neighId : NodeId)
    (pfx : Prefix) : Out :=
  match recordAck s neighId pfx with
  | none => (s, [])
  | some acked => computeRoutes acked now

/-- The first neighbour with a route that satisfies `f`, as `NeighContainsFunc`
leaves it in `nh`. -/
def neighContainsFunc (s : RouterState) (f : NodeId → NeighRoute → Bool) : Option NodeId :=
  (s.neighbours.find? (fun n =>
    n.routes.entries.any (fun entry => f n.id entry.2))).map (·.id)

def canForwardTo (s : RouterState) (fromNeigh : NodeId) (src : Source)
    (neigh : NodeId) (route : NeighRoute) : Bool :=
  (s.getNeighbour neigh).any (·.active) &&
    (src.pfx == route.pfx && neigh != fromNeigh && route.metric != INF)

/-- The neighbour a seqno request is forwarded to: preferably the next hop of a
feasible route, else of any finite one. -/
def forwardTarget (s : RouterState) (fromNeigh : NodeId) (src : Source) : Option NodeId :=
  (neighContainsFunc s (fun neigh route =>
    canForwardTo s fromNeigh src neigh route &&
      checkFeasibility s route.toPubRoute)).orElse fun _ =>
  neighContainsFunc s (canForwardTo s fromNeigh src)

def answersRequest (selRoute : SelRoute) (src : Source) (reqSeqno : UInt16) : Bool :=
  selRoute.metric != INF &&
    (selRoute.nodeId != src.nodeId || seqnoGe selRoute.seqno reqSeqno)

def answerRequest (s : RouterState) (fromNeigh : NodeId) (src : Source)
    (reqSeqno : UInt16) (selRoute : SelRoute) : Out :=
  if answersRequest selRoute src reqSeqno then
    (updateFeasibility s selRoute.toPubRoute, [.sendRouteUpdate fromNeigh selRoute.toPubRoute])
  else (s, [])

/-- Nylon note: the seqno is raised to the requested one, by more than one if
necessary, as it does not survive a restart. -/
def handleSeqnoRequest (s : RouterState) (now : Time) (fromNeigh : NodeId)
    (src : Source) (reqSeqno : UInt16) (hopCnt : UInt8) : Out :=
  match s.routes.lookup src.pfx with
  | none => (s, [])
  | some selRoute =>
    let answered := answerRequest s fromNeigh src reqSeqno selRoute
    if selRoute.nodeId = src.nodeId ∧ seqnoGt reqSeqno selRoute.seqno then
      if selRoute.nodeId = s.id then
        let out := computeRoutes
          (answered.1.setSeqno selRoute.pfx reqSeqno) now
        (out.1, answered.2 ++ out.2)
      else if 2 ≤ hopCnt then
        match forwardTarget answered.1 fromNeigh src with
        | none => answered
        | some nh => (answered.1,
            answered.2 ++ [.requestSeqno nh src reqSeqno (hopCnt - 1)])
      else answered
    else answered

/-- For every source stored for a connected neighbour, whether one of the
finite routes with that source is feasible. -/
def feasibleSources (s : RouterState) : Table Source Bool :=
  s.neighbours.foldl (fun table neigh =>
    if neigh.active then
      neigh.routes.range (fun table _ route =>
        let routeFeasible := route.metric != INF && checkFeasibility s route.toPubRoute
        let curFeasible := (table.lookup route.toSource).getD false
        table.insert route.toSource (curFeasible || routeFeasible)) table
    else table) ∅

def solveStarvation (s : RouterState) : Out :=
  (s, (feasibleSources s).range (fun calls src feasible =>
    if !feasible && src.nodeId != s.id then
      calls ++ [.broadcastRequestSeqno src (nextSeqno s src) s.seqnoRequestHopCount]
    else calls) [])

/-- Expiry of a neighbour's routes: a finite route is marked `INF` with a new
expiry, a route that is already `INF` is removed. -/
def expireNeighRoutes (s : RouterState) (now : Time) (neigh : Neighbour) :
    Neighbour :=
  let expire := fun (routes : Table Prefix NeighRoute) pfx (route : NeighRoute) =>
    if route.expireAt < now then
      if route.metric = INF then routes.erase pfx
      else routes.insert pfx
        {route with metric := INF, expireAt := now + s.routeExpiryTime}
    else routes
  {neigh with routes := neigh.routes.range expire neigh.routes}

def expireAdvertised (s : RouterState) (now : Time) : Table Prefix Advertisement :=
  s.advertised.range (fun table pfx adv =>
    if adv.expiry < now then table.erase pfx else table) s.advertised

/-- The state `RunGC` recomputes the routes of. -/
def expireRoutes (s : RouterState) (now : Time) : RouterState :=
  {s with
    neighbours := s.neighbours.map (expireNeighRoutes s now)
    advertised := expireAdvertised s now}

def sourceInUse (s : RouterState) (src : Source) : Bool :=
  s.neighbours.any (fun neigh =>
    (neigh.routes.lookup src.pfx).any (·.toSource == src)) ||
  (s.routes.lookup src.pfx).any (·.toSource == src) ||
  (s.advertised.lookup src.pfx).any (·.nodeId == src.nodeId)

def collectSources (s : RouterState) : Table Source FD :=
  s.sources.range (fun table src _ =>
    if sourceInUse s src then table else table.erase src) s.sources

def runGC (s : RouterState) (now : Time) : Out :=
  let out := computeRoutes (expireRoutes s now) now
  ({out.1 with sources := collectSources out.1}, out.2)

/-- `updatePassiveClient` of `core/router.go`. The first passive hold of a
client raises the seqno, so that other nodes do not switch away. -/
def updatePassiveClient (s : RouterState) (now : Time) (pfx : Prefix)
    (node : NodeId) (passiveHold : Bool) (metricFn : Option Metric) : RouterState :=
  let hasPassiveHold := (s.advertised.lookup pfx).any fun old =>
    old.nodeId == node && old.isPassiveHold
  let raised := if passiveHold && !hasPassiveHold then
    s.setSeqno pfx (s.getSeqno pfx + 1) else s
  let adv : Advertisement :=
    ⟨node, now + s.clientKeepaliveInterval, passiveHold, metricFn⟩
  {raised with advertised := raised.advertised.insert pfx adv}

/-- The neighbours part of `reconcileRouterState`, where `peers` are the routers
among the configured peers: neighbours that are not desired any more are
dropped, new ones are appended in the order of their ids. -/
def reconcileNeighbours (s : RouterState) (peers : List NodeId) : RouterState :=
  let kept := s.neighbours.filter fun neigh => neigh.id ∈ peers
  let ids := peers.dedup.filter fun id => id ∉ s.neighbours.map (·.id)
  let added := (ids.insertionSort (· ≤ ·)).map fun id => ⟨id, ∅, false, INF⟩
  {s with neighbours := kept ++ added}

end Nylon.Core
