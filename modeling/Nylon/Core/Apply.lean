import Nylon.Core.WireGuard

/-!
Applying a central configuration (`core/nylon_apply.go`). A configuration is
cloned, expanded and checked first; from then on every step changes the node in
place. The neighbours and `PeerMap` change before the configuration in force
does, and the peers of the device after it.
-/

namespace Nylon.Core

open Lib Netip State Polyamide

inductive ApplyResult where
  | noop
  | applied
  deriving DecidableEq, Repr

/-- `maxConfigTime` in nanoseconds. -/
def maxConfigTime : Time := ((2 ^ 63 - 62135596801) * 1000000000) + 999999999

variable {T : Type → Type}

/-- `ExpandCentralConfig` with its panic. -/
def expandConfig (c : CentralCfg PrefixHealth) : Except Stop (CentralCfg PrefixHealth) :=
  match expandCentralConfig c with
  | none => .error (.panicked .invalidAddress)
  | some expanded => .ok expanded

def localTCPObfuscation {H : Type} (c : CentralCfg H) (localId : NodeId) : Bool :=
  ((c.getRouter localId).map (·.tcpObfuscation)).getD false

/-- What a running node cannot change. -/
def checkRestart (n : NylonNode T) (next : CentralCfg PrefixHealth) : Except Stop Unit :=
  if !next.isRouter n.localCfg.id then
    .error (.restartRequired "local node is not a router in the new central config")
  else if !n.centralCfg.isRouter n.localCfg.id then
    .error (.restartRequired "local node is not a router in the current central config")
  else if localTCPObfuscation n.centralCfg n.localCfg.id !=
      localTCPObfuscation next n.localCfg.id then
    .error (.restartRequired "changing local tcp_obfuscation requires a restart")
  else .ok ()

/-- The checks at the top of `ApplyCentralConfig`, and the configuration they
accept with its new health checks. -/
def acceptConfig (libs : Libraries) (n : NylonNode T) (cfg : CentralCfg PrefixHealth) :
    Except Stop (CentralCfg Health) := do
  let cloned ← (libs.clone cfg).mapError .rejected
  let next ← expandConfig cloned
  (centralConfigValidator libs.toConfigLibraries next).mapError .rejected
  checkRestart n next
  return next.allocate (n.generation + 1)

/-- An argument of `reflect.DeepEqual`: a configuration, or a pointer to one. -/
inductive DeepArg where
  | value (cfg : CentralCfg Health)
  | pointer (cfg : CentralCfg Health)

/-- Values of different types are never deeply equal. -/
def deepEqual : DeepArg → DeepArg → Bool
  | .value a, .value b => a.settings == b.settings
  | .pointer a, .pointer b => a.settings == b.settings
  | _, _ => false

/-- The endpoints the configuration gives a neighbour, and whether both sides use
TCP obfuscation. -/
def desiredEndpoints (libs : Libraries) (env : Env) (n : NylonNode T)
    (next : CentralCfg Health) (id : NodeId) : List NylonEndpoint × Bool :=
  match next.getRouter id with
  | none => ([], false)
  | some cfg =>
    let mutualTCPObfuscation :=
      localTCPObfuscation next n.localCfg.id && cfg.tcpObfuscation
    (configuredEndpoints libs.toNetLibraries env.familyReachable n.localCfg.binds
      cfg.endpoints mutualTCPObfuscation, mutualTCPObfuscation)

def routerPeers (libs : Libraries) (n : NylonNode T) (next : CentralCfg Health) :
    Except Stop (List NodeId) :=
  ((next.getPeers libs.toLower n.localCfg.id).mapError fun _ => .panicked .badGraph).map
    (·.filter next.isRouter)

def reconciledEps (libs : Libraries) (env : Env) (n : NylonNode T)
    (next : CentralCfg Health) (id : NodeId) : List NylonEndpoint :=
  let desired := desiredEndpoints libs env n next id
  if (n.routerState.getNeighbour id).isSome then
    reconcileConfiguredEndpoints (n.eps id) desired.1 desired.2
  else desired.1

def reconcileRouterState (libs : Libraries) (env : Env) (next : CentralCfg Health) :
    Task T Unit := do
  let n ← Proc.get
  let peers ← Proc.lift (routerPeers libs n next)
  Proc.modify fun n =>
    { n with
      routerState := reconcileNeighbours n.routerState peers
      eps := reconciledEps libs env n next }
  Proc.modify fun n => {n with peerMap := some next.pubkeyMap}
  Proc.modify fun n =>
    {n with fakeTCPPeers := some (peers.filter fun id =>
      (desiredEndpoints libs env n next id).2)}

def localPrefixes (c : CentralCfg Health) (localId : NodeId) : List Health :=
  ((c.tryGetNode localId).map (·.prefixes)).getD []

/-- The prefixes of the local node in the configuration in force. -/
abbrev NylonNode.prefixes (n : NylonNode T) : List Health := localPrefixes n.centralCfg n.localCfg.id

def healthByPrefix (prefixes : List Health) : Table Prefix Health :=
  prefixes.foldl (fun m h =>
    match h.settings.getPrefix with
    | none => m
    | some pfx => m.insert pfx h) ∅

/-- The health check that stays or becomes the one of a prefix: the current one if
it has the same settings, otherwise the desired one, which is started. -/
def chooseHealth (t : HealthTunables) (current : Table Prefix Health) (desired : Health) :
    Health :=
  match desired.settings.getPrefix.bind current.lookup with
  | none => desired.started t
  | some cur =>
    if cur.settings.sameConfig t desired.settings then cur else desired.started t

/-- The running monitors after a prefix has been reconciled. -/
def chooseMonitor (t : HealthTunables) (current : Table Prefix Health)
    (running : List (Nat × Option Prefix)) (desired : Health) :
    List (Nat × Option Prefix) :=
  let started := if desired.settings.isMonitored then [desired.monitor] else []
  match desired.settings.getPrefix.bind current.lookup with
  | none => running ++ started
  | some cur =>
    if cur.settings.sameConfig t desired.settings then running
    else running.filter (· ≠ cur.monitor) ++ started

/-- First loop of `reconcileAdvertisedPrefixes`: prefixes the local node has lost. -/
def dropLostPrefixes (n : NylonNode T) (current desired : Table Prefix Health) : NylonNode T :=
  n.routerState.advertised.range (fun n pfx adv =>
    if adv.nodeId ≠ n.localCfg.id ∨ (desired.lookup pfx).isSome then n
    else
      { n with
        routerState := {n.routerState with
          advertised := n.routerState.advertised.erase pfx}
        metricFn := n.metricFn.erase pfx
        running := match current.lookup pfx with
          | none => n.running
          | some old => n.running.filter (· ≠ old.monitor) }) n

/-- Second loop: one prefix of the local node. -/
def advertiseDesired (env : Env) (current : Table Prefix Health) (n : NylonNode T)
    (desired : Health) : NylonNode T :=
  match desired.settings.getPrefix with
  | none => n
  | some pfx =>
    let h := chooseHealth n.localCfg.health current desired
    let adv : Advertisement := ⟨n.localCfg.id, maxConfigTime, false,
      some (h.settings.getMetric (env.lastMetric h))⟩
    { n with
      routerState := {n.routerState with
        advertised := n.routerState.advertised.insert pfx adv}
      metricFn := n.metricFn.insert pfx h
      running := chooseMonitor n.localCfg.health current n.running desired }

/-- The new configuration with the health checks that are kept. -/
def reuseHealth (n : NylonNode T) (next : CentralCfg Health) : CentralCfg Health :=
  let current := healthByPrefix n.prefixes
  next.mapPrefixesOf n.localCfg.id (chooseHealth n.localCfg.health current)

/-- The prefixes of a validated node are distinct, so each entry of `desiredLocal`
is the only one of its prefix. -/
def reconcileAdvertisedPrefixes (env : Env) (n : NylonNode T) (next : CentralCfg Health) :
    NylonNode T :=
  let current := healthByPrefix n.prefixes
  let desired := localPrefixes next n.localCfg.id
  desired.foldl (advertiseDesired env current)
    (dropLostPrefixes n current (healthByPrefix desired))

variable [PrefixTable T]

def refreshNodeBindings : Task T Unit := do
  let n ← Proc.get
  let idMap ← Proc.lift ((buildNodeIdMap n.centralCfg).mapError .rejected)
  Proc.modify fun n =>
    { n with
      nodeIdMap := some idMap
      exitFilter := some (n.rebuildExitFilterSnapshot idMap) }

/-- What follows the checks. -/
def installConfig (libs : Libraries) (env : Env) (next : CentralCfg Health) : Task T Unit := do
  reconcileRouterState libs env next
  let n ← Proc.get
  Proc.modify fun n => reconcileAdvertisedPrefixes env n next
  Proc.modify fun m =>
    {m with centralCfg := reuseHealth n next, generation := m.generation + 1}
  refreshNodeBindings
  syncWireGuard libs env
  syncSystemState env
  routerTask env (.computeRoutes env.now)

def applyCentralConfig (libs : Libraries) (env : Env) (cfg : CentralCfg PrefixHealth) :
    Task T ApplyResult := do
  let n ← Proc.get
  let next ← Proc.lift (acceptConfig libs n cfg)
  if deepEqual (.value n.centralCfg) (.pointer next) then return .noop
  else do
    installConfig libs env next
    return .applied

end Nylon.Core
