import Nylon.Core.Endpoints
import Nylon.Core.ForwardTable
import Nylon.Core.Unicast
import Nylon.Polyamide.PeerTable
import Nylon.State.Validation

/-!
A running node (`core/nylon.go`): its configuration, the router with its tables,
the peers of the device, and the snapshots the data plane reads. Everything here
is changed by the dispatch goroutine alone, one task after another; data-plane
goroutines read `PeerMap`, the peers and the snapshots at any time.

What a task finds outside of the node (clock, links, name resolution, walk orders
of maps) is its `Env`, with no assumption except that a walk visits every entry.
-/

namespace Nylon.Core

open Lib Netip State Polyamide

/-- The library functions the node relies on. `clone` is the round trip of a
configuration through YAML. -/
structure Libraries extends ConfigLibraries, NetLibraries where
  clone : CentralCfg PrefixHealth → Except String (CentralCfg PrefixHealth)

/-- The local configuration and the tunables, as far as they are read here. -/
structure LocalCfg where
  id : NodeId
  binds : List LocalBind
  noNetConfigure : Bool
  advertiseExitNode : Bool
  exitNode : NodeId
  clientDeadThreshold : Time
  router : RouterTunables
  health : HealthTunables

structure Env where
  now : Time
  /-- The links of a neighbour: whether there is an active one, and their cost. -/
  link : NodeId → Bool × Metric
  /-- What a health check measured last. -/
  lastMetric : Health → Metric
  /-- When the peer with this identity was heard last. -/
  lastReceived : Nat → Time
  familyReachable : Addr → Bool
  /-- What the name of an endpoint is resolved to. -/
  resolved : String → Option AddrPort
  /-- The addresses of the links of a neighbour, best first. -/
  linkEndpoints : NodeId → List AddrPort
  parseEndpoint : AddrPort → Except String Unit
  /-- What `ComputeSysRouteTable` returns. -/
  sysRoutes : List Prefix
  /-- The order in which a map of peers is walked. -/
  peerOrder : List NodeId → List NodeId
  peerOrder_perm : ∀ ids, (peerOrder ids).Perm ids

structure NylonNode (T : Type → Type) where
  localCfg : LocalCfg
  centralCfg : CentralCfg Health
  /-- How often health checks have been created. -/
  generation : Nat
  routerState : RouterState
  /-- The endpoints of each neighbour. -/
  eps : NodeId → List NylonEndpoint
  /-- The health check that is the `MetricFn` of an own advertisement. -/
  metricFn : Table Prefix Health
  /-- The running prefix health monitors. -/
  running : List (Nat × Option Prefix)
  peerMap : Option (Table NyPublicKey NodeId)
  fakeTCPPeers : Option (List NodeId)
  nodeIdMap : Option NodeIdMap
  exitFilter : Option (ExitFilterSnapshot Nat)
  tables : Tables T Nat
  device : PeerTable
  /-- `AppliedSystem`. -/
  appliedPeers : Table NodeId NyPublicKey
  appliedAliases : List (Option Addr)
  appliedRoutes : List Prefix

/-- What no code recovers from on the dispatch goroutine. -/
inductive Panic where
  /-- `GetNode` in `TableInsertRoute`. -/
  | unknownNextHop
  /-- `GetNode` in `SyncWireGuard`. -/
  | unknownPeer
  /-- `GetPeers` on a graph that does not parse. -/
  | badGraph
  /-- `AddrToPrefix`. -/
  | invalidAddress
  /-- `GetRouter` of the local node at startup. -/
  | unknownRouter
  deriving DecidableEq, Repr

/-- How a task ends early. -/
inductive Stop where
  | rejected (err : String)
  | restartRequired (err : String)
  | panicked (p : Panic)
  deriving DecidableEq, Repr

variable {T : Type → Type} [PrefixTable T]

/-- A task of the dispatch goroutine. -/
abbrev Task (T : Type → Type) (α : Type) := Proc (NylonNode T) Stop α

namespace NylonNode

/-- What `TableInsertRoute` sees of the node. -/
def tableConfig (n : NylonNode T) : TableConfig NyPublicKey Nat where
  localId := n.localCfg.id
  pubKey id := (n.centralCfg.tryGetNode id).map (·.pubKey)
  lookupPeer := n.device.peerId

/-- The entry of the first address with a route to a peer. -/
def forwardEntryFor (n : NylonNode T) (addrs : List (Option Addr)) : Option (RouteTableEntry Nat) :=
  addrs.findSome? fun addr => do
    let entry ← PrefixTable.lookup n.tables.forwardTable (← addr)
    if entry.blackhole || entry.peer.isNone then none else some entry

def addNodeForward (n : NylonNode T) (idMap : NodeIdMap)
    (forward : Table NodeIdNumeric (RouteTableEntry Nat)) (node : NodeCfg Health) :
    Table NodeIdNumeric (RouteTableEntry Nat) :=
  if node.id = n.localCfg.id then forward
  else match idMap.toNumeric node.id with
    | none => forward
    | some numeric =>
      if (forward.lookup numeric).isSome then forward
      else match n.forwardEntryFor node.addresses with
        | none => forward
        | some entry => forward.insert numeric entry

def rebuildExitFilterSnapshot (n : NylonNode T) (idMap : NodeIdMap) : ExitFilterSnapshot Nat where
  localIdNumeric := (idMap.toNumeric n.localCfg.id).getD invalidNodeIdNumeric
  advertiseExitNode := n.localCfg.advertiseExitNode
  exitNodeNumeric := if n.localCfg.exitNode = "" then invalidNodeIdNumeric
    else (idMap.toNumeric n.localCfg.exitNode).getD invalidNodeIdNumeric
  nodeForward := n.centralCfg.getNodes.foldl (n.addNodeForward idMap) ∅

def refreshExitFilter (n : NylonNode T) : NylonNode T :=
  match n.nodeIdMap with
  | none => n
  | some idMap => {n with exitFilter := some (n.rebuildExitFilterSnapshot idMap)}

/-- A call of the router: `TableInsertRoute` and `TableDeleteRoute` refresh the
exit filter. The queues of the other calls are not part of the model. -/
def applyRouterCall (n : NylonNode T) (call : RouterCall) : Option (NylonNode T) := do
  let tables ← applyCall n.tableConfig n.tables call
  if call.tablePrefix = none then some n
  else some {n with tables := tables}.refreshExitFilter

def applyRouterCalls (n : NylonNode T) (calls : List RouterCall) : Option (NylonNode T) :=
  calls.foldlM applyRouterCall n

/-- The values that the router reads from endpoints and health checks. -/
def observe (n : NylonNode T) (env : Env) : NylonNode T :=
  let neighbours := n.routerState.neighbours.map fun neigh =>
    {neigh with active := (env.link neigh.id).1, linkCost := (env.link neigh.id).2}
  let advertised := n.routerState.advertised.mapVal fun pfx adv =>
    match n.metricFn.lookup pfx with
    | none => adv
    | some h => {adv with metricFn := some (h.settings.getMetric (env.lastMetric h))}
  {n with routerState :=
    {n.routerState with neighbours := neighbours, advertised := advertised}}

end NylonNode

/-- A task of the router: what an event makes of the router state, and its calls
on the tables. -/
def routerTask (env : Env) (e : Event) : Task T Unit := do
  let n ← Proc.get
  let out := step (n.observe env).routerState e
  match ({n.observe env with routerState := out.1} : NylonNode T).applyRouterCalls out.2 with
  | none => Proc.throw (.panicked .unknownNextHop)
  | some next => Proc.modify fun _ => next

def getPeers (libs : Libraries) (n : NylonNode T) : Except Stop (List NodeId) :=
  (n.centralCfg.getPeers libs.toLower n.localCfg.id).mapError fun _ => .panicked .badGraph

end Nylon.Core
