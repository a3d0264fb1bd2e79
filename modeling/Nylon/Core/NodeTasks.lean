import Nylon.Core.Apply

/-!
The tasks of the dispatch goroutine of a node: applying a configuration, control
messages, timers, the scan for passive clients, and how a node starts
(`core/nylon.go`, `core/nylon_passive.go`, `core/nylon_tc.go`, `core/router.go`).
A run of a node is a sequence of tasks; a panic ends it.
-/

namespace Nylon.Core

open Lib Netip State Polyamide

variable {T : Type → Type}

/-- Whether a neighbour has a finite route of another node for one of the
prefixes. -/
def hasOtherAdvertisers (n : NylonNode T) (prefixes : List Health) : Bool :=
  prefixes.any fun h => n.routerState.neighbours.any fun neigh =>
    neigh.routes.entries.any fun entry =>
      some entry.2.pfx == h.settings.getPrefix && entry.2.nodeId != n.localCfg.id &&
        entry.2.metric != INF

def hasRecentlyAdvertised (n : NylonNode T) (now : Time) (pfx : Prefix) : Bool :=
  (n.routerState.advertised.lookup pfx).any fun adv => now < adv.expiry

/-- `updatePassiveClient` for one prefix of a client. -/
def advertiseClient (env : Env) (nid : NodeId) (passiveHold : Bool) (n : NylonNode T)
    (pfx : Prefix) (h : Health) : NylonNode T :=
  { n with
    routerState := updatePassiveClient n.routerState env.now pfx nid passiveHold
      (some (h.settings.getMetric (env.lastMetric h)))
    metricFn := n.metricFn.insert pfx h }

/-- The scan of one prefix of a client. A client that has not been heard is held
only if no other node advertises it. -/
def scanPrefix (env : Env) (nid : NodeId) (recentlyUpdated otherAdvertisers : Bool)
    (n : NylonNode T) (h : Health) : NylonNode T :=
  match h.settings.getPrefix with
  | none => n
  | some pfx =>
    if recentlyUpdated ||
        (!otherAdvertisers && hasRecentlyAdvertised n env.now pfx) then
      advertiseClient env nid (!recentlyUpdated) n pfx h
    else n

def scanPeer (env : Env) (n : NylonNode T) (key : NyPublicKey) (peer : DevicePeer) : NylonNode T :=
  match n.centralCfg.findNodeBy key with
  | none => n
  | some nid =>
    let prefixes := localPrefixes n.centralCfg nid
    let recentlyUpdated : Bool :=
      env.now - env.lastReceived peer.id < n.localCfg.clientDeadThreshold
    if n.centralCfg.isClient nid then
      prefixes.foldl (scanPrefix env nid recentlyUpdated (hasOtherAdvertisers n prefixes)) n
    else n

def scanPassivePeers (env : Env) : Task T Unit :=
  Proc.modify fun n => n.device.keyMap.range (scanPeer env) n

/-- Control messages after decoding. -/
inductive ControlMsg where
  | routeUpdate (adv : PubRoute)
  | seqnoRequest (src : Source) (seqno : UInt16) (hopCnt : UInt8)
  | ackRetract (pfx : Prefix)
  deriving DecidableEq, Repr

def checkNeigh (n : NylonNode T) (id : NodeId) : Bool :=
  n.routerState.neighbours.any (·.id == id)

def checkPrefix (n : NylonNode T) (pfx : Prefix) : Bool :=
  n.centralCfg.getNodes.any fun node =>
    node.prefixes.any fun h => h.settings.getPrefix == some pfx

def checkNode (n : NylonNode T) (id : NodeId) : Bool :=
  (n.centralCfg.tryGetNode id).isSome

/-- The router event of a message, unless it names something unknown. -/
def controlEvent (n : NylonNode T) (env : Env) (neigh : NodeId) : ControlMsg → Option Event
  | .routeUpdate adv =>
    if checkNeigh n neigh && checkPrefix n adv.pfx && checkNode n adv.nodeId then
      some (.neighbourUpdate env.now neigh adv)
    else none
  | .seqnoRequest src seqno hopCnt =>
    if checkNeigh n neigh && checkPrefix n src.pfx && checkNode n src.nodeId then
      some (.seqnoRequest env.now neigh src seqno hopCnt)
    else none
  | .ackRetract pfx =>
    if checkPrefix n pfx && checkNeigh n neigh then
      some (.ackRetract env.now neigh pfx)
    else none

def ControlMsg.isUpdate : ControlMsg → Bool
  | .routeUpdate _ => true
  | _ => false

/-- The timers of the router, and the update for a neighbour whose link comes up. -/
inductive RouterTimer where
  | computeRoutes
  | fullTableUpdate
  | solveStarvation
  | gc
  | updateNeighbour (neigh : NodeId)
  deriving DecidableEq, Repr

def RouterTimer.event (env : Env) : RouterTimer → Event
  | .computeRoutes => .computeRoutes env.now
  | .fullTableUpdate => .fullTableUpdate
  | .solveStarvation => .solveStarvation
  | .gc => .runGC env.now
  | .updateNeighbour neigh => .pushFullTable neigh

/-- Messages and timers, as opposed to changes of what the router reads. -/
def Event.isInput : Event → Bool
  | .setLink _ _ _ | .advertise _ _ | .withdraw _ | .passiveClient _ _ _ _ _
  | .reconcileNeighbours _ => false
  | _ => true

inductive NodeTask where
  | apply (env : Env) (cfg : CentralCfg PrefixHealth)
  | control (env : Env) (neigh : NodeId) (msgs : List ControlMsg)
  | timer (env : Env) (t : RouterTimer)
  | scanPassivePeers (env : Env)
  | updateWireGuard (env : Env)
  /-- Whatever probes, discovery and the collection of dead endpoints do. -/
  | changeEndpoints (eps : NodeId → List NylonEndpoint)
  /-- A fatal error on the TUN closes the device while the node keeps running. -/
  | closeDevice

/-- The configuration a task applies. -/
def NodeTask.config? : NodeTask → Option (CentralCfg PrefixHealth)
  | .apply _ cfg => some cfg
  | _ => none

variable [PrefixTable T]

/-- The control messages of a packet, and one run of `computeRoutes` if an update
was among them. -/
def handleControl (env : Env) (neigh : NodeId) : List ControlMsg → Bool → Task T Unit
  | [], routeUpdated =>
    if routeUpdated then routerTask env (.computeRoutes env.now) else pure ()
  | msg :: rest, routeUpdated => do
    let n ← Proc.get
    match controlEvent n env neigh msg with
    | none => handleControl env neigh rest routeUpdated
    | some e => do
      routerTask env e
      handleControl env neigh rest (routeUpdated || msg.isUpdate)

def perform (libs : Libraries) : NodeTask → Task T Unit
  | .apply env cfg => do
    let _ ← applyCentralConfig libs env cfg
  | .control env neigh msgs => handleControl env neigh msgs false
  | .timer env t => routerTask env (t.event env)
  | .scanPassivePeers env => scanPassivePeers env
  | .updateWireGuard env => do
    syncWireGuardEndpoints libs env
    syncSystemState env
  | .changeEndpoints eps => Proc.modify fun n => {n with eps := eps}
  | .closeDevice => Proc.modify fun n => {n with device := n.device.close}

/-- The node after a task, or `none` once a panic has ended the process. -/
def afterTask (libs : Libraries) (node : Option (NylonNode T)) (task : NodeTask) :
    Option (NylonNode T) :=
  node.bind fun n =>
    match (perform libs task n).result with
    | .error (.panicked _) => none
    | _ => some (perform libs task n).state

abbrev nodeRun (libs : Libraries) (n : NylonNode T) (tasks : List NodeTask) :
    Option (NylonNode T) :=
  Transitions.run (afterTask libs) (some n) tasks

/-- `InitRouter` on a configuration that has been expanded. -/
def initRouter (localCfg : LocalCfg) (c : CentralCfg PrefixHealth) : NylonNode T :=
  let centralCfg := c.allocate 0
  let health := healthByPrefix (localPrefixes centralCfg localCfg.id)
  let advertised := health.mapVal fun _ h =>
    (⟨localCfg.id, maxConfigTime, false, some (h.settings.getMetric INF)⟩ : Advertisement)
  { localCfg := localCfg
    centralCfg := centralCfg
    generation := 0
    routerState := {RouterState.init localCfg.router localCfg.id with advertised := advertised}
    eps := fun _ => []
    metricFn := health
    running := []
    peerMap := none
    fakeTCPPeers := none
    nodeIdMap := none
    exitFilter := none
    tables := Tables.empty
    device := PeerTable.empty
    appliedPeers := ∅
    appliedAliases := []
    appliedRoutes := [] }

def startAdvertisedPrefixHealth (n : NylonNode T) : NylonNode T :=
  let t := n.localCfg.health
  let prefixes := n.prefixes
  { n with
    centralCfg := n.centralCfg.mapPrefixesOf n.localCfg.id (·.started t)
    metricFn := n.metricFn.mapVal fun _ h => h.started t
    running := n.running ++
      (prefixes.filter (·.settings.isMonitored)).map (·.monitor) }

def init (libs : Libraries) (env : Env) : Task T Unit := do
  let n ← Proc.get
  reconcileRouterState libs env n.centralCfg
  refreshNodeBindings
  syncWireGuard libs env
  Proc.modify startAdvertisedPrefixHealth

/-- `Bootstrap`: a node that is up and running with a valid configuration. -/
def bootstrap (libs : Libraries) (env : Env) (localCfg : LocalCfg)
    (cfg : CentralCfg PrefixHealth) : Except Stop (NylonNode T) := do
  let central ← expandConfig cfg
  (centralConfigValidator libs.toConfigLibraries central).mapError .rejected
  if !central.isRouter localCfg.id then .error (.panicked .unknownRouter)
  else
    let started := init libs env (initRouter localCfg central)
    started.result.map fun _ => started.state

end Nylon.Core
