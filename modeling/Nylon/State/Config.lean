import Nylon.State.Routing

/-!
The central configuration (`state/config.go`) and the settings of prefix health
checks (`state/prefix_health.go`). A configuration is generic in what stands for
a health check: its settings alone in a file or a bundle, or an object with an
identity in a running node. The zero values that YAML leaves for a missing
address or prefix are `none`.
-/

namespace Nylon.State

open Netip Lib

/-- The 32 bytes of a public key. -/
abbrev NyPublicKey := BitVec 256

/-- The tunables health checks fall back to. -/
structure HealthTunables where
  healthCheckDelay : Time
  healthCheckMaxFailures : Int
  deriving DecidableEq, Repr

inductive PrefixHealth where
  | static (pfx : Option Prefix) (metric : Metric)
  | ping (pfx : Option Prefix) (addr : Option Addr) (maxFailures : Option Int)
      (delay : Option Time) (bindIf : String) (metric : Option Metric)
  | http (pfx : Option Prefix) (url : String) (delay : Option Time)
      (metric : Option Metric)
  deriving DecidableEq, Repr

namespace PrefixHealth

def getPrefix : PrefixHealth → Option Prefix
  | .static pfx _ | .ping pfx _ _ _ _ _ | .http pfx _ _ _ => pfx

/-- Whether the two checks do the same, with missing settings at their
defaults. -/
def sameConfig (t : HealthTunables) : PrefixHealth → PrefixHealth → Bool
  | .static pfx metric, .static pfx' metric' => pfx == pfx' && metric == metric'
  | .ping pfx addr maxFailures delay bindIf metric,
      .ping pfx' addr' maxFailures' delay' bindIf' metric' =>
      pfx == pfx' && addr == addr' && bindIf == bindIf' && metric == metric' &&
        delay.getD t.healthCheckDelay == delay'.getD t.healthCheckDelay &&
        maxFailures.getD t.healthCheckMaxFailures == maxFailures'.getD t.healthCheckMaxFailures
  | .http pfx url delay metric, .http pfx' url' delay' metric' =>
    pfx == pfx' && url == url' && metric == metric' &&
      delay.getD t.healthCheckDelay == delay'.getD t.healthCheckDelay
  | _, _ => false

/-- `Start` writes the defaults into the settings it is missing. -/
def withDefaults (t : HealthTunables) : PrefixHealth → PrefixHealth
  | .static pfx metric => .static pfx metric
  | .ping pfx addr maxFailures delay bindIf metric =>
    .ping pfx addr (some (maxFailures.getD t.healthCheckMaxFailures))
      (some (delay.getD t.healthCheckDelay)) bindIf metric
  | .http pfx url delay metric =>
    .http pfx url (some (delay.getD t.healthCheckDelay)) metric

/-- Only these have a goroutine that `Start` starts. -/
def isMonitored : PrefixHealth → Bool
  | .static _ _ => false
  | .ping _ _ _ _ _ _ | .http _ _ _ _ => true

/-- `GetMetric`, where `last` is what the monitor measured last. -/
def getMetric (last : Metric) : PrefixHealth → Metric
  | .static _ metric => metric
  | .ping _ _ _ _ _ metric | .http _ _ _ metric => metric.getD last

/-- Two checks do the same if they agree once the defaults are written in. -/
theorem sameConfig_iff (t : HealthTunables) (h h' : PrefixHealth) :
    sameConfig t h h' = true ↔ withDefaults t h = withDefaults t h' := by
  cases h <;> cases h' <;> simp [sameConfig, withDefaults, and_assoc] <;> tauto

@[simp] theorem withDefaults_withDefaults (t : HealthTunables) (h : PrefixHealth) :
    withDefaults t (withDefaults t h) = withDefaults t h := by
  cases h <;> rfl

@[simp] theorem getPrefix_withDefaults (t : HealthTunables) (h : PrefixHealth) :
    (withDefaults t h).getPrefix = h.getPrefix := by
  cases h <;> rfl

end PrefixHealth

/-- A health check of a running node. Each configuration that is read makes new
objects; `born` tells the objects of different readings apart. -/
structure Health where
  born : Nat
  settings : PrefixHealth
  deriving DecidableEq, Repr

/-- The monitor of a health check, running or not. -/
def Health.monitor (h : Health) : Nat × Option Prefix := (h.born, h.settings.getPrefix)

/-- The object after `Start`. -/
def Health.started (t : HealthTunables) (h : Health) : Health :=
  {h with settings := h.settings.withDefaults t}

@[simp] theorem Health.isMonitored_started (t : HealthTunables) (h : Health) :
    (h.started t).settings.isMonitored = h.settings.isMonitored := by
  obtain ⟨born, settings⟩ := h
  cases settings <;> rfl

@[simp] theorem Health.monitor_started (t : HealthTunables) (h : Health) :
    (h.started t).monitor = h.monitor := by
  simp [monitor, started]

/-- `numericId` is zero for a node without a pinned id. -/
structure NodeCfg (H : Type) where
  id : NodeId
  pubKey : NyPublicKey
  addresses : List (Option Addr)
  prefixes : List H
  numericId : UInt32
  deriving DecidableEq, Repr

/-- The endpoints are the `Value` strings of dynamic endpoints. -/
structure RouterCfg (H : Type) extends NodeCfg H where
  endpoints : List String
  tcpObfuscation : Bool
  deriving DecidableEq, Repr

structure DistributionCfg where
  key : NyPublicKey
  repos : List String
  deriving DecidableEq, Repr

structure CentralCfg (H : Type) where
  dist : Option DistributionCfg
  routers : List (RouterCfg H)
  clients : List (NodeCfg H)
  graph : List String
  timestamp : Int
  excludeIPs : List (Option Prefix)
  deriving DecidableEq, Repr

variable {H H' : Type}

def NodeCfg.map (f : H → H') (node : NodeCfg H) : NodeCfg H' :=
  {node with prefixes := node.prefixes.map f}

def RouterCfg.map (f : H → H') (router : RouterCfg H) : RouterCfg H' :=
  {router with toNodeCfg := router.toNodeCfg.map f}

namespace CentralCfg

def map (f : H → H') (c : CentralCfg H) : CentralCfg H' :=
  {c with routers := c.routers.map (·.map f), clients := c.clients.map (·.map f)}

/-- The settings of a configuration, without the identity of its objects. -/
def settings (c : CentralCfg Health) : CentralCfg PrefixHealth :=
  c.map Health.settings

/-- The configuration with a new object for each of its health checks. -/
def allocate (born : Nat) (c : CentralCfg PrefixHealth) : CentralCfg Health :=
  c.map (Health.mk born)

/-- The configuration with other health checks for one of its routers. -/
def mapPrefixesOf (node : NodeId) (f : H → H) (c : CentralCfg H) : CentralCfg H :=
  {c with routers := c.routers.map fun router =>
    if router.id = node then {router with prefixes := router.prefixes.map f} else router}

def getNodes (c : CentralCfg H) : List (NodeCfg H) :=
  c.routers.map (·.toNodeCfg) ++ c.clients

def isRouter (c : CentralCfg H) (node : NodeId) : Bool :=
  c.routers.any (·.id == node)

def isClient (c : CentralCfg H) (node : NodeId) : Bool :=
  c.clients.any (·.id == node)

def isNode (c : CentralCfg H) (node : NodeId) : Bool :=
  c.isRouter node || c.isClient node

/-- `none` is a panic. -/
def getRouter (c : CentralCfg H) (node : NodeId) : Option (RouterCfg H) :=
  c.routers.find? (·.id == node)

def getClient (c : CentralCfg H) (node : NodeId) : Option (NodeCfg H) :=
  c.clients.find? (·.id == node)

def tryGetNode (c : CentralCfg H) (node : NodeId) : Option (NodeCfg H) :=
  ((c.getRouter node).map (·.toNodeCfg)).or (c.getClient node)

def findNodeBy (c : CentralCfg H) (pkey : NyPublicKey) : Option NodeId :=
  (c.getNodes.find? (·.pubKey == pkey)).map (·.id)

/-- The map from public keys to nodes; of nodes with one key the last counts. -/
def pubkeyMap (c : CentralCfg H) : Table NyPublicKey NodeId :=
  c.getNodes.foldl (fun m x => m.insert x.pubKey x.id) ∅

@[simp] theorem getNodes_map (f : H → H') (c : CentralCfg H) :
    (c.map f).getNodes = c.getNodes.map (·.map f) := by
  simp [getNodes, map, RouterCfg.map, NodeCfg.map]

@[simp] theorem isRouter_map (f : H → H') (c : CentralCfg H) (node : NodeId) :
    (c.map f).isRouter node = c.isRouter node := by
  simp [isRouter, map, RouterCfg.map, NodeCfg.map, Function.comp_def]

@[simp] theorem settings_allocate (born : Nat) (c : CentralCfg PrefixHealth) :
    (c.allocate born).settings = c := by
  simp [settings, allocate, map, RouterCfg.map, NodeCfg.map, Function.comp_def]

@[simp] theorem isRouter_mapPrefixesOf (node : NodeId) (f : H → H) (c : CentralCfg H)
    (id : NodeId) : (c.mapPrefixesOf node f).isRouter id = c.isRouter id := by
  unfold isRouter mapPrefixesOf
  rw [List.any_map]
  congr 1
  funext router
  dsimp only [Function.comp_apply]
  split <;> rfl

@[simp] theorem isNode_mapPrefixesOf (node : NodeId) (f : H → H) (c : CentralCfg H)
    (id : NodeId) : (c.mapPrefixesOf node f).isNode id = c.isNode id := by
  rw [isNode, isRouter_mapPrefixesOf]
  rfl

/-- Whatever does not depend on the health checks stays. -/
theorem getNodes_mapPrefixesOf {α : Type} (node : NodeId) (f : H → H) (c : CentralCfg H)
    {g : NodeCfg H → α} (hg : ∀ x prefixes, g {x with prefixes := prefixes} = g x) :
    (c.mapPrefixesOf node f).getNodes.map g = c.getNodes.map g := by
  unfold mapPrefixesOf getNodes
  simp only [List.map_append, List.map_map]
  congr 1
  apply List.map_congr_left
  intro router _
  dsimp only [Function.comp_apply]
  split
  · exact hg router.toNodeCfg _
  · rfl

theorem getRouter_mapPrefixesOf (node : NodeId) (f : H → H) (c : CentralCfg H) (id : NodeId) :
    (c.mapPrefixesOf node f).getRouter id = (c.getRouter id).map fun router =>
      if router.id = node then {router with prefixes := router.prefixes.map f}
      else router := by
  unfold getRouter mapPrefixesOf
  rw [List.find?_map]
  congr 2
  funext router
  dsimp only [Function.comp_apply]
  split <;> rfl

theorem tryGetNode_mapPrefixesOf {α : Type} (node : NodeId) (f : H → H) (c : CentralCfg H)
    {g : NodeCfg H → α} (hg : ∀ x prefixes, g {x with prefixes := prefixes} = g x)
    (id : NodeId) :
    ((c.mapPrefixesOf node f).tryGetNode id).map g = (c.tryGetNode id).map g := by
  unfold tryGetNode
  rw [getRouter_mapPrefixesOf, Option.map_or, Option.map_or, Option.map_map, Option.map_map,
    Option.map_map]
  congr 2
  funext router
  dsimp only [Function.comp_apply]
  split
  · exact hg router.toNodeCfg _
  · rfl

theorem getRouter_map (f : H → H') (c : CentralCfg H) (node : NodeId) :
    (c.map f).getRouter node = (c.getRouter node).map (·.map f) := by
  simp [getRouter, map, List.find?_map, RouterCfg.map, NodeCfg.map]

theorem getRouter_of_mem {c : CentralCfg H} {router : RouterCfg H}
    (hdistinct : (c.routers.map (·.id)).Nodup) (h : router ∈ c.routers) :
    c.getRouter router.id = some router := by
  obtain ⟨found, hfound⟩ := Option.isSome_iff_exists.mp
    (List.find?_isSome (p := (·.id == router.id)) |>.mpr ⟨router, h, beq_self_eq_true _⟩)
  have hid := List.find?_some hfound
  simp only [beq_iff_eq] at hid
  rw [getRouter, hfound,
    List.inj_on_of_nodup_map hdistinct (List.mem_of_find?_eq_some hfound) h hid]

theorem getRouter_isSome (c : CentralCfg H) (node : NodeId) :
    (c.getRouter node).isSome = c.isRouter node := by
  rw [Bool.eq_iff_iff, getRouter, List.find?_isSome, isRouter, List.any_eq_true]

theorem getClient_isSome (c : CentralCfg H) (node : NodeId) :
    (c.getClient node).isSome = c.isClient node := by
  rw [Bool.eq_iff_iff, getClient, List.find?_isSome, isClient, List.any_eq_true]

theorem tryGetNode_isSome (c : CentralCfg H) (node : NodeId) :
    (c.tryGetNode node).isSome = c.isNode node := by
  simp [tryGetNode, isNode, getRouter_isSome, getClient_isSome]

theorem mem_getNodes_of_tryGetNode {c : CentralCfg H} {node : NodeId} {x : NodeCfg H}
    (h : c.tryGetNode node = some x) : x ∈ c.getNodes ∧ x.id = node := by
  unfold tryGetNode at h
  rcases Option.or_eq_some_iff.mp h with h | ⟨_, h⟩
  · obtain ⟨router, hrouter, rfl⟩ := Option.map_eq_some_iff.mp h
    have hmem := List.mem_of_find?_eq_some hrouter
    have hid := List.find?_some hrouter
    simp only [beq_iff_eq] at hid
    refine ⟨List.mem_append_left _ ?_, hid⟩
    exact List.mem_map_of_mem (f := RouterCfg.toNodeCfg) hmem
  · have hid := List.find?_some h
    simp only [beq_iff_eq] at hid
    exact ⟨List.mem_append_right _ (List.mem_of_find?_eq_some h), hid⟩

/-- The keys of the map are the keys of the nodes. -/
theorem pubkeyMap_isSome (c : CentralCfg H) (key : NyPublicKey) :
    (c.pubkeyMap.lookup key).isSome ↔ key ∈ c.getNodes.map (·.pubKey) := by
  unfold pubkeyMap
  have hfold : ∀ (nodes : List (NodeCfg H)) (m : Table NyPublicKey NodeId),
      ((nodes.foldl (fun m x => m.insert x.pubKey x.id) m).lookup key).isSome ↔
        (m.lookup key).isSome ∨ key ∈ nodes.map (·.pubKey) := by
    intro nodes
    induction nodes with
    | nil => simp
    | cons x rest ih =>
      intro m
      rw [List.foldl_cons, ih, Table.lookup_insert_eq]
      by_cases heq : key = x.pubKey <;> simp [heq]
  simpa using hfold c.getNodes ∅

end CentralCfg

/-- `AddrToPrefix` of a valid address: the prefix of this one address. -/
def addrToPrefix (addr : Addr) : Prefix := ⟨addr, addr.bitLen, le_rfl⟩

/-- Each address is put in front of the prefixes as a static one. `none` is the
panic of `AddrToPrefix` on an invalid address. -/
def expandPrefixes (addresses : List (Option Addr)) (prefixes : List PrefixHealth) :
    Option (List PrefixHealth) :=
  addresses.foldlM (fun prefixes addr =>
    addr.map fun addr => .static (some (addrToPrefix addr)) 0 :: prefixes) prefixes

def expandNode (node : NodeCfg PrefixHealth) : Option (NodeCfg PrefixHealth) :=
  (expandPrefixes node.addresses node.prefixes).map fun prefixes =>
    {node with prefixes := prefixes}

def expandCentralConfig (c : CentralCfg PrefixHealth) : Option (CentralCfg PrefixHealth) := do
  let routers ← c.routers.mapM fun router =>
    (expandNode router.toNodeCfg).map fun node => {router with toNodeCfg := node}
  let clients ← c.clients.mapM expandNode
  some {c with routers := routers, clients := clients}

end Nylon.State
