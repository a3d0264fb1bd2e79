import Nylon.Core.NodeTasks

/-!
What applying a configuration does, said once for all results about it: the
states it goes through as far as the data plane can tell, the node on which the
peers are synchronised, and where it can stop.
-/

namespace Nylon.Core

open Lib Netip State Polyamide

variable {T : Type → Type}

section Checks

variable {libs : Libraries} {n : NylonNode T} {next : CentralCfg Health}

/-- What the checks of `ApplyCentralConfig` say about the configuration they let
pass. -/
structure Checked (n : NylonNode T) (next : CentralCfg Health) : Prop where
  accepted : Accepted next.settings
  isRouter : next.isRouter n.localCfg.id
  wasRouter : n.centralCfg.isRouter n.localCfg.id
  fresh : next = next.settings.allocate (n.generation + 1)

theorem acceptConfig_ok {cfg : CentralCfg PrefixHealth}
    (h : acceptConfig libs n cfg = .ok next) : Checked n next := by
  unfold acceptConfig at h
  obtain ⟨cloned, _, h⟩ := bind_eq_ok h
  obtain ⟨expanded, _, h⟩ := bind_eq_ok h
  obtain ⟨_, hvalid, h⟩ := bind_eq_ok h
  obtain ⟨_, hrestart, h⟩ := bind_eq_ok h
  cases h
  unfold checkRestart at hrestart
  split_ifs at hrestart with hrouter hcurrent
  refine ⟨?_, ?_, by simpa using hcurrent, by rw [CentralCfg.settings_allocate]⟩
  · rw [CentralCfg.settings_allocate]
    exact centralConfigValidator_accepted (mapError_eq_ok hvalid)
  · simpa [CentralCfg.allocate] using hrouter

/-- An error of the checks is no panic of the route table. -/
theorem acceptConfig_error {cfg : CentralCfg PrefixHealth} {e : Stop}
    (h : acceptConfig libs n cfg = .error e) : e ≠ .panicked .unknownNextHop := by
  rintro rfl
  unfold acceptConfig at h
  rcases bind_eq_error h with h | ⟨cloned, _, h⟩
  · obtain ⟨err, _, herr⟩ := mapError_eq_error h
    cases herr
  rcases bind_eq_error h with h | ⟨expanded, _, h⟩
  · unfold expandConfig at h
    split at h <;> cases h
  rcases bind_eq_error h with h | ⟨_, _, h⟩
  · obtain ⟨err, _, herr⟩ := mapError_eq_error h
    cases herr
  rcases bind_eq_error h with h | ⟨_, _, h⟩
  · unfold checkRestart at h
    split_ifs at h <;> cases h
  · cases h

end Checks

section Reconcile

/-- Reconciling the prefixes changes the own advertisements and the monitors. -/
def SameButAdvertised (n m : NylonNode T) : Prop :=
  m = { n with
    routerState := {n.routerState with advertised := m.routerState.advertised}
    metricFn := m.metricFn
    running := m.running }

theorem SameButAdvertised.trans {n m k : NylonNode T} (h : SameButAdvertised n m)
    (h' : SameButAdvertised m k) : SameButAdvertised n k := by
  unfold SameButAdvertised at h h' ⊢
  rw [h', h]

theorem dropLostPrefixes_frame (n : NylonNode T) (current desired : Table Prefix Health) :
    SameButAdvertised n (dropLostPrefixes n current desired) := by
  unfold dropLostPrefixes
  refine Table.range_invariant _ _ _ (SameButAdvertised n) rfl ?_
  intro m pfx adv _ hm
  split
  · exact hm
  · exact hm.trans rfl

theorem advertiseDesired_frame (env : Env) (current : Table Prefix Health)
    (n : NylonNode T) (desired : Health) :
    SameButAdvertised n (advertiseDesired env current n desired) := by
  unfold advertiseDesired
  split <;> rfl

theorem reconcileAdvertisedPrefixes_frame (env : Env) (n : NylonNode T) (next : CentralCfg Health) :
    SameButAdvertised n (reconcileAdvertisedPrefixes env n next) := by
  unfold reconcileAdvertisedPrefixes
  dsimp only
  have hfold : ∀ (desired : List Health) (current : Table Prefix Health) (m : NylonNode T),
      SameButAdvertised m (desired.foldl (advertiseDesired env current) m) := by
    intro desired current
    induction desired with
    | nil => exact fun _ => rfl
    | cons h rest ih => exact fun m => (advertiseDesired_frame env current m h).trans (ih _)
  exact (dropLostPrefixes_frame n _ _).trans (hfold _ _ _)

/-- The node with its new neighbours, endpoints and `PeerMap`. -/
def withRouterState (libs : Libraries) (env : Env) (n : NylonNode T)
    (next : CentralCfg Health) (peers : List NodeId) : NylonNode T :=
  { n with
    routerState := reconcileNeighbours n.routerState peers
    eps := reconciledEps libs env n next
    peerMap := some next.pubkeyMap
    fakeTCPPeers := some (peers.filter fun id => (desiredEndpoints libs env n next id).2) }

/-- The node once the new configuration is in force. -/
def reconciled (libs : Libraries) (env : Env) (n : NylonNode T)
    (next : CentralCfg Health) (peers : List NodeId) : NylonNode T :=
  let m := reconcileAdvertisedPrefixes env (withRouterState libs env n next peers) next
  {m with centralCfg := reuseHealth n next, generation := m.generation + 1}

theorem reconciled_eq (libs : Libraries) (env : Env) (n : NylonNode T)
    (next : CentralCfg Health) (peers : List NodeId) :
    reconciled libs env n next peers =
      { withRouterState libs env n next peers with
        routerState := {reconcileNeighbours n.routerState peers with
          advertised := (reconciled libs env n next peers).routerState.advertised}
        metricFn := (reconciled libs env n next peers).metricFn
        running := (reconciled libs env n next peers).running
        centralCfg := reuseHealth n next
        generation := n.generation + 1 } := by
  have hframe := reconcileAdvertisedPrefixes_frame env
    (withRouterState libs env n next peers) next
  unfold SameButAdvertised at hframe
  unfold reconciled
  dsimp only
  rw [hframe]
  rfl

def withBindings [PrefixTable T] (n : NylonNode T) (idMap : NodeIdMap) : NylonNode T :=
  { n with
    nodeIdMap := some idMap
    exitFilter := some (n.rebuildExitFilterSnapshot idMap) }

def withSystemState (env : Env) (n : NylonNode T) : NylonNode T :=
  if n.localCfg.noNetConfigure then n
  else
    { n with
      appliedAliases := ((n.centralCfg.getRouter n.localCfg.id).map (·.addresses)).getD []
      appliedRoutes := env.sysRoutes }

theorem withSystemState_eq (env : Env) (n : NylonNode T) : withSystemState env n =
      { n with
        appliedAliases := (withSystemState env n).appliedAliases
        appliedRoutes := (withSystemState env n).appliedRoutes } := by
  unfold withSystemState
  split <;> rfl

end Reconcile

/-- What the data plane can see of the peers while a configuration is installed:
the old `PeerMap` with the old peers, or the new `PeerMap` with peers that were
there before or belong to the new configuration. -/
def PeersBetween (n : NylonNode T) (next : CentralCfg Health) (m : NylonNode T) : Prop :=
  (m.peerMap = n.peerMap ∧ m.device = n.device) ∨
    (m.peerMap = some next.pubkeyMap ∧ ∀ key, (m.device.peerId key).isSome →
      (n.device.peerId key).isSome ∨ key ∈ next.getNodes.map (·.pubKey))

variable {libs : Libraries} {env : Env} {n : NylonNode T} {next : CentralCfg Health}

/-- The numeric ids have been checked with the configuration. -/
theorem buildNodeIdMap_reuseHealth (h : Checked n next) :
    ∃ idMap, buildNodeIdMap (reuseHealth n next) = .ok idMap := by
  obtain ⟨idMap, hbuild⟩ := h.accepted.nodeIds
  refine ⟨idMap, ?_⟩
  rw [← hbuild]
  apply buildNodeIdMap_congr
  rw [reuseHealth, CentralCfg.getNodes_mapPrefixesOf _ _ _ fun _ _ => rfl,
    CentralCfg.settings, CentralCfg.getNodes_map]
  simp [NodeCfg.map, Function.comp_def]

theorem isRouter_of_mem_routerPeers {peers : List NodeId} {id : NodeId}
    (h : routerPeers libs n next = .ok peers) (hid : id ∈ peers) : next.isRouter id := by
  unfold routerPeers at h
  cases hgraph : next.getPeers libs.toLower n.localCfg.id with
  | error err => rw [hgraph] at h; cases h
  | ok all =>
    rw [hgraph] at h
    cases h
    exact (List.mem_filter.mp hid).2

theorem reconcileRouterState_meets {seen : NylonNode T → Prop}
    {fail : Stop → NylonNode T → Prop} (hseen : ∀ m, PeersBetween n next m → seen m)
    (hfail : fail (.panicked .badGraph) n) :
    Proc.Meets (· = n) (reconcileRouterState libs env next) seen
      (fun _ m => ∃ peers, routerPeers libs n next = .ok peers ∧
        m = withRouterState libs env n next peers) fail := by
  unfold reconcileRouterState
  refine Proc.Meets.get_bind (Proc.Meets.lift_bind (fun peers hpeers => ?_) fun e he => ?_)
  · have hold : ∀ key, (n.device.peerId key).isSome →
        (n.device.peerId key).isSome ∨ key ∈ next.getNodes.map (·.pubKey) :=
      fun _ h => Or.inl h
    refine Proc.Meets.modify_bind (hseen _ (Or.inl ⟨rfl, rfl⟩)) ?_
    refine Proc.Meets.modify_bind (hseen _ (Or.inr ⟨rfl, hold⟩)) ?_
    exact Proc.Meets.modify (hseen _ (Or.inr ⟨rfl, hold⟩)) ⟨peers, hpeers, rfl⟩
  · obtain rfl : e = .panicked .badGraph := by
      unfold routerPeers at he
      cases hpeers : next.getPeers libs.toLower n.localCfg.id with
      | ok peers => rw [hpeers] at he; cases he
      | error err =>
        rw [hpeers] at he
        cases he
        rfl
    exact hfail

theorem mem_keys_of_configuredKey {n : NylonNode T} {peer : NodeId} {key : NyPublicKey}
    (h : configuredKey libs n peer = some key) :
    key ∈ n.centralCfg.getNodes.map (·.pubKey) := by
  obtain ⟨ncfg, hncfg, rfl⟩ :=
    Option.map_eq_some_iff.mp (CentralCfg.tryGetNode_of_peerKey libs.toLower h)
  exact List.mem_map_of_mem (CentralCfg.mem_getNodes_of_tryGetNode hncfg).1

theorem PeersBetween.congr {m m' : NylonNode T} (h : PeersBetween n next m)
    (hmap : m'.peerMap = m.peerMap) (hdevice : m'.device = m.device) :
    PeersBetween n next m' := by
  unfold PeersBetween
  rw [hmap, hdevice]
  exact h

variable [PrefixTable T]

section RouterCalls

/-- The calls of the router change the tables and the exit filter. -/
def SameButTables (n m : NylonNode T) : Prop :=
  m = {n with tables := m.tables, exitFilter := m.exitFilter}

theorem applyRouterCall_frame {n m : NylonNode T} {call : RouterCall}
    (h : n.applyRouterCall call = some m) : SameButTables n m := by
  unfold NylonNode.applyRouterCall at h
  obtain ⟨tables, _, h⟩ := Option.bind_eq_some_iff.mp h
  split at h
  · cases h
    rfl
  · cases h
    unfold SameButTables NylonNode.refreshExitFilter
    split <;> rfl

theorem applyRouterCalls_frame {n m : NylonNode T} {calls : List RouterCall}
    (h : n.applyRouterCalls calls = some m) : SameButTables n m := by
  unfold NylonNode.applyRouterCalls at h
  induction calls generalizing n with
  | nil =>
    cases h
    rfl
  | cons call rest ih =>
    rw [List.foldlM_cons] at h
    obtain ⟨k, hcall, hrest⟩ := Option.bind_eq_some_iff.mp h
    have hfirst := applyRouterCall_frame hcall
    have hlast := ih hrest
    unfold SameButTables at hfirst hlast ⊢
    rw [hlast, hfirst]

/-- The state of the router after an event, before its calls on the tables. -/
def withEvent (env : Env) (e : Event) (n : NylonNode T) : NylonNode T :=
  {n.observe env with routerState := (step (n.observe env).routerState e).1}

/-- A task of the router has run to its end. -/
def RouterRan (env : Env) (e : Event) (n m : NylonNode T) : Prop :=
  (withEvent env e n).applyRouterCalls (step (n.observe env).routerState e).2 = some m

/-- It has met a finite route to a node that is not configured. -/
def RouterPanics (env : Env) (e : Event) (n : NylonNode T) : Prop :=
  (withEvent env e n).applyRouterCalls (step (n.observe env).routerState e).2 = none

theorem routerTask_meets {env : Env} {e : Event} {n : NylonNode T}
    {seen : NylonNode T → Prop} {post : Unit → NylonNode T → Prop}
    {fail : Stop → NylonNode T → Prop}
    (hok : ∀ m, RouterRan env e n m → seen m ∧ post () m)
    (hpanic : RouterPanics env e n → fail (.panicked .unknownNextHop) n) :
    Proc.Meets (· = n) (routerTask env e) seen post fail := by
  unfold routerTask
  refine Proc.Meets.get_bind ?_
  dsimp only
  split
  · next hnone => exact Proc.Meets.throw (hpanic hnone)
  · next m hsome => exact Proc.Meets.modify (hok m hsome).1 (hok m hsome).2

theorem RouterRan.frame {env : Env} {e : Event} {n m : NylonNode T} (h : RouterRan env e n m) :
    m = { n with
      routerState := (step (n.observe env).routerState e).1
      tables := m.tables
      exitFilter := m.exitFilter } := by
  have hcalls := applyRouterCalls_frame h
  unfold SameButTables at hcalls
  rw [hcalls]
  rfl

end RouterCalls

section Install

variable (libs : Libraries) (env : Env) (n : NylonNode T) (next : CentralCfg Health)

/-- The node whose peers are synchronised. -/
def bound (peers : List NodeId) (idMap : NodeIdMap) : NylonNode T :=
  withBindings (reconciled libs env n next peers) idMap

/-- A node on which the routes are computed at the end. -/
def Synced (m : NylonNode T) : Prop :=
  ∃ peers idMap k, routerPeers libs n next = .ok peers ∧
    Syncing (configuredKey libs (bound libs env n next peers idMap))
      (bound libs env n next peers idMap) k ∧
    NoStale (configuredKey libs (bound libs env n next peers idMap)) k ∧
    AllAdded (configuredKey libs (bound libs env n next peers idMap)) k ∧
    m = withSystemState env k

/-- Where installing a configuration can stop. -/
def InstallStopped : Stop → NylonNode T → Prop
  | .rejected _, m => ∃ peers idMap, routerPeers libs n next = .ok peers ∧
      Syncing (configuredKey libs (bound libs env n next peers idMap))
        (bound libs env n next peers idMap) m ∧
      NoStale (configuredKey libs (bound libs env n next peers idMap)) m
  | .restartRequired _, _ => False
  | .panicked .unknownNextHop, m => Synced libs env n next m ∧
      RouterPanics env (.computeRoutes env.now) m
  | .panicked _, _ => True

end Install

/-- Synchronising the peers adds only peers of the new configuration. -/
theorem Syncing.peersBetween {peers : List NodeId} {idMap : NodeIdMap} {m : NylonNode T}
    (h : Syncing (configuredKey libs (bound libs env n next peers idMap))
      (bound libs env n next peers idMap) m) : PeersBetween n next m := by
  have hmap : m.peerMap = some next.pubkeyMap := by
    rw [h.frame, bound, reconciled_eq]
    rfl
  refine Or.inr ⟨hmap, fun key hkey => (h.known key hkey).imp (fun hold => ?_) ?_⟩
  · rw [bound, reconciled_eq] at hold
    exact hold
  · rintro ⟨peer, hpeer⟩
    have hmem := mem_keys_of_configuredKey hpeer
    rw [bound, reconciled_eq] at hmem
    change key ∈ (reuseHealth n next).getNodes.map (·.pubKey) at hmem
    rwa [reuseHealth, CentralCfg.getNodes_mapPrefixesOf _ _ _ fun _ _ => rfl] at hmem

theorem Synced.peersBetween {m : NylonNode T} (h : Synced libs env n next m) :
    PeersBetween n next m := by
  obtain ⟨peers, idMap, k, _, hsync, _, _, rfl⟩ := h
  rw [withSystemState_eq]
  exact hsync.peersBetween.congr rfl rfl

theorem refreshNodeBindings_meets {n : NylonNode T} {seen : NylonNode T → Prop}
    {post : Unit → NylonNode T → Prop} {fail : Stop → NylonNode T → Prop}
    (hok : ∀ idMap, seen (withBindings n idMap) ∧ post () (withBindings n idMap))
    (hfail : ∀ err, buildNodeIdMap n.centralCfg = .error err → fail (.rejected err) n) :
    Proc.Meets (· = n) refreshNodeBindings seen post fail := by
  unfold refreshNodeBindings
  refine Proc.Meets.get_bind (Proc.Meets.lift_bind (fun idMap _ => ?_) fun e he => ?_)
  · exact Proc.Meets.modify (hok idMap).1 (hok idMap).2
  · obtain ⟨err, hbuild, rfl⟩ := mapError_eq_error he
    exact hfail err hbuild

theorem installConfig_meets (hnext : Checked n next) :
    Proc.Meets (· = n) (installConfig libs env next) (PeersBetween n next)
      (fun _ m => ∃ k, Synced libs env n next k ∧ RouterRan env (.computeRoutes env.now) k m)
      (InstallStopped libs env n next) := by
  unfold installConfig
  refine (reconcileRouterState_meets (fun _ h => h) trivial).bind fun _ => ?_
  refine Proc.Meets.of_states ?_
  rintro _ ⟨peers, hpeers, rfl⟩
  have hreconciled : PeersBetween n next (reconciled libs env n next peers) := by
    rw [reconciled_eq]
    exact Or.inr ⟨rfl, fun _ h => Or.inl h⟩
  refine Proc.Meets.get_bind (Proc.Meets.modify_bind ?_ (Proc.Meets.modify_bind ?_ ?_))
  · exact hreconciled.congr rfl rfl
  · exact hreconciled
  refine Proc.Meets.bind (m := fun _ m => ∃ idMap, m = bound libs env n next peers idMap)
    (refreshNodeBindings_meets ?_ fun err herr => ?_) fun _ => Proc.Meets.of_states ?_
  · exact fun idMap => ⟨(Syncing.refl _ (bound libs env n next peers idMap)).peersBetween,
      idMap, rfl⟩
  · obtain ⟨idMap, hbuild⟩ := buildNodeIdMap_reuseHealth hnext
    exact absurd (herr.symm.trans hbuild) (by simp)
  rintro _ ⟨idMap, rfl⟩
  refine ((syncWireGuard_meets libs env (bound libs env n next peers idMap)).weaken
    (fun _ h => h) (fun _ h => h.peersBetween) (fun _ _ h => h) ?_).bind fun _ =>
    Proc.Meets.of_states ?_
  · rintro e m ⟨hsync, ⟨err, rfl, hstale⟩ | rfl | rfl⟩
    · exact ⟨peers, idMap, hpeers, hsync, hstale⟩
    · trivial
    · trivial
  rintro k ⟨hsync, hstale, hadded⟩
  have hsynced : Synced libs env n next (withSystemState env k) :=
    ⟨peers, idMap, k, hpeers, hsync, hstale, hadded, rfl⟩
  have hbetween := hsynced.peersBetween
  refine Proc.Meets.modify_bind hbetween (routerTask_meets (fun m hran => ?_) fun hpanics => ?_)
  · refine ⟨hbetween.congr ?_ ?_, withSystemState env k, hsynced, hran⟩
    · rw [hran.frame]
      rfl
    · rw [hran.frame]
      rfl
  · exact ⟨hsynced, hpanics⟩

theorem applyCentralConfig_meets {cfg : CentralCfg PrefixHealth} {seen : NylonNode T → Prop}
    {post : ApplyResult → NylonNode T → Prop} {fail : Stop → NylonNode T → Prop}
    (hstop : ∀ e, acceptConfig libs n cfg = .error e → fail e n)
    (hinstall : ∀ next, acceptConfig libs n cfg = .ok next →
      Proc.Meets (· = n) (installConfig libs env next) seen (fun _ => post .applied) fail) :
    Proc.Meets (· = n) (applyCentralConfig libs env cfg) seen post fail := by
  unfold applyCentralConfig
  refine Proc.Meets.get_bind (Proc.Meets.lift_bind (fun next hnext => ?_) hstop)
  have hdiffer : ¬ deepEqual (.value n.centralCfg) (.pointer next) = true := Bool.false_ne_true
  rw [if_neg hdiffer]
  exact (hinstall next hnext).bind fun _ => Proc.Meets.of_states fun _ h => Proc.Meets.pure h

/-- A call of `ApplyCentralConfig` that succeeds. -/
theorem applied_of_ok {cfg : CentralCfg PrefixHealth} {r : ApplyResult}
    (h : (applyCentralConfig libs env cfg n).result = .ok r) :
    r = .applied ∧ ∃ next, acceptConfig libs n cfg = .ok next ∧ ∃ k, Synced libs env n next k ∧
      RouterRan env (.computeRoutes env.now) k (applyCentralConfig libs env cfg n).state := by
  have hmeets : Proc.Meets (· = n) (applyCentralConfig libs env cfg) (fun _ => True)
      (fun r m => r = .applied ∧ ∃ next, acceptConfig libs n cfg = .ok next ∧
        ∃ k, Synced libs env n next k ∧ RouterRan env (.computeRoutes env.now) k m)
      fun _ _ => True :=
    applyCentralConfig_meets (fun _ _ => trivial) fun next hnext =>
      (installConfig_meets (acceptConfig_ok hnext)).weaken (fun _ h => h) (fun _ _ => trivial)
        (fun _ _ hdone => ⟨rfl, next, hnext, hdone⟩) fun _ _ _ => trivial
  obtain ⟨_, hend⟩ := hmeets n rfl
  rw [h] at hend
  exact hend

end Nylon.Core
