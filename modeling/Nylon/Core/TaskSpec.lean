import Nylon.Core.ApplySpec

/-!
Rules for whole runs of a node. A property that the router, the scan for passive
clients and the other small changes keep is kept by every task that applies no
configuration; what is left to show about a run is one statement about applying a
configuration. The end of the module describes a node that has just started.
-/

namespace Nylon.Core

open Lib Netip State Polyamide

variable {T : Type → Type}

/-- A scan changes advertisements and their metrics. -/
def SameButRouter (n m : NylonNode T) : Prop :=
  m = {n with routerState := m.routerState, metricFn := m.metricFn}

theorem SameButRouter.trans {n m k : NylonNode T} (h : SameButRouter n m)
    (h' : SameButRouter m k) : SameButRouter n k := by
  unfold SameButRouter at h h' ⊢
  rw [h', h]

theorem scanPeer_frame (env : Env) (n : NylonNode T) (key : NyPublicKey)
    (peer : DevicePeer) : SameButRouter n (scanPeer env n key peer) := by
  unfold scanPeer
  split
  · rfl
  · dsimp only
    split
    · refine List.foldlRecOn _ _ rfl fun m hm h _ => hm.trans ?_
      unfold scanPrefix
      split
      · rfl
      · split <;> rfl
    · rfl

theorem scanPassivePeers_frame (env : Env) (n : NylonNode T) :
    SameButRouter n (n.device.keyMap.range (scanPeer env) n) :=
  Table.range_invariant _ _ _ (SameButRouter n) rfl fun m key peer _ hm =>
    hm.trans (scanPeer_frame env m key peer)

theorem controlEvent_isInput {n : NylonNode T} {env : Env} {neigh : NodeId}
    {msg : ControlMsg} {e : Event} (h : controlEvent n env neigh msg = some e) :
    e.isInput := by
  unfold controlEvent at h
  cases msg <;> dsimp only at h <;> split at h <;> cases h <;> rfl

variable [PrefixTable T]

/-- A property of nodes that every change outside of an update keeps. `seen` is
what other goroutines may rely on, `fail` what holds when a task ends early. -/
structure KeptByTasks (inv seen : NylonNode T → Prop) (fail : Stop → NylonNode T → Prop) :
    Prop where
  visible : ∀ n, inv n → seen n
  router : ∀ env e n, e.isInput → inv n → (∀ m, RouterRan env e n m → inv m) ∧
    (RouterPanics env e n → fail (.panicked .unknownNextHop) n)
  scan : ∀ env n, inv n → inv (n.device.keyMap.range (scanPeer env) n)
  endpoints : ∀ n key eps, inv n → inv {n with device := n.device.setEndpoints key eps}
  system : ∀ env n, inv n → inv (withSystemState env n)
  links : ∀ n eps, inv n → inv {n with eps := eps}
  close : ∀ n, inv n → inv {n with device := n.device.close}
  stop : ∀ e n, e ≠ .panicked .unknownNextHop → inv n → fail e n

section Tasks

variable {inv seen : NylonNode T → Prop} {fail : Stop → NylonNode T → Prop}

theorem KeptByTasks.routerTask (h : KeptByTasks inv seen fail) (env : Env) {e : Event}
    (he : e.isInput) : Proc.Meets inv (routerTask env e) seen (fun _ => inv) fail := by
  refine Proc.Meets.of_states fun n hn => routerTask_meets (fun m hran => ?_) ?_
  · have hm := (h.router env e n he hn).1 m hran
    exact ⟨h.visible m hm, hm⟩
  · exact (h.router env e n he hn).2

theorem KeptByTasks.handleControl (h : KeptByTasks inv seen fail) (env : Env)
    (neigh : NodeId) (msgs : List ControlMsg) (routeUpdated : Bool) :
    Proc.Meets inv (handleControl env neigh msgs routeUpdated) seen (fun _ => inv) fail := by
  induction msgs generalizing routeUpdated with
  | nil =>
    unfold Core.handleControl
    split
    · exact h.routerTask env rfl
    · exact Proc.Meets.of_states fun _ hn => Proc.Meets.pure hn
  | cons msg rest ih =>
    unfold Core.handleControl
    refine Proc.Meets.of_states fun n hn => Proc.Meets.get_bind ?_
    split
    · exact (ih routeUpdated).start hn
    · next e he =>
      exact ((h.routerTask env (controlEvent_isInput he)).start hn).bind fun _ => ih _

/-- Only an update changes the configuration in force. -/
theorem keptByTasks_config (P : CentralCfg Health → Prop) :
    KeptByTasks (fun n : NylonNode T => P n.centralCfg) (fun _ => True)
      (fun e n => (∀ p, e ≠ .panicked p) → P n.centralCfg) where
  visible _ _ := trivial
  router env e n _ hn := by
    refine ⟨fun m hran => ?_, fun _ _ => hn⟩
    rw [hran.frame]
    exact hn
  scan env n hn := by
    rw [scanPassivePeers_frame env n]
    exact hn
  endpoints _ _ _ hn := hn
  system env n hn := by
    rw [withSystemState_eq]
    exact hn
  links _ _ hn := hn
  close _ hn := hn
  stop _ _ _ hn _ := hn

theorem KeptByTasks.syncWireGuardEndpoints (h : KeptByTasks inv seen fail)
    (libs : Libraries) (env : Env) :
    Proc.Meets inv (syncWireGuardEndpoints libs env) seen (fun _ => inv) fail := by
  refine Core.syncWireGuardEndpoints_meets libs env (fun m key eps hm => ?_) fun m e hm he => ?_
  · have hset := h.endpoints m key eps hm
    exact ⟨h.visible _ hset, hset⟩
  · refine h.stop e m ?_ hm
    rintro rfl
    simp at he

theorem KeptByTasks.perform (h : KeptByTasks inv seen fail) {libs : Libraries}
    {n : NylonNode T} {task : NodeTask} (hn : inv n)
    (happly : ∀ env cfg, task = .apply env cfg →
      Proc.Meets (· = n) (applyCentralConfig libs env cfg) seen (fun _ => inv) fail) :
    Proc.Meets (· = n) (perform libs task) seen (fun _ => inv) fail := by
  have hwrite : ∀ f : NylonNode T → NylonNode T, inv (f n) →
      Proc.Meets (· = n) (Proc.modify f) seen (fun _ => inv) fail :=
    fun f hf => Proc.Meets.modify (h.visible _ hf) hf
  cases task with
  | apply env cfg =>
    exact (happly env cfg rfl).bind fun _ => Proc.Meets.of_states fun _ h => Proc.Meets.pure h
  | control env neigh msgs => exact (h.handleControl env neigh msgs false).start hn
  | timer env t => exact (h.routerTask env (by cases t <;> rfl)).start hn
  | scanPassivePeers env => exact hwrite _ (h.scan env n hn)
  | updateWireGuard env =>
    refine ((h.syncWireGuardEndpoints libs env).start hn).bind fun _ =>
      Proc.Meets.of_states fun m hm => ?_
    have hsystem := h.system env m hm
    exact Proc.Meets.modify (h.visible _ hsystem) hsystem
  | changeEndpoints eps => exact hwrite _ (h.links n eps hn)
  | closeDevice => exact hwrite _ (h.close n hn)

/-- The rule for updates: the property holds once the new configuration is in force and
its peers have been synchronised. -/
theorem KeptByTasks.apply (h : KeptByTasks inv seen fail) {libs : Libraries} {env : Env}
    {n : NylonNode T} {cfg : CentralCfg PrefixHealth} (hn : inv n)
    (hseen : ∀ next m, acceptConfig libs n cfg = .ok next → PeersBetween n next m → seen m)
    (hsynced : ∀ next peers idMap m, acceptConfig libs n cfg = .ok next →
      routerPeers libs n next = .ok peers →
      Syncing (configuredKey libs (bound libs env n next peers idMap))
        (bound libs env n next peers idMap) m →
      NoStale (configuredKey libs (bound libs env n next peers idMap)) m → inv m)
    (hpanic : ∀ p m, p ≠ .unknownNextHop → fail (.panicked p) m) :
    Proc.Meets (· = n) (applyCentralConfig libs env cfg) seen (fun _ => inv) fail := by
  refine applyCentralConfig_meets (fun e he => h.stop e n (acceptConfig_error he) hn)
    fun next hnext => ?_
  have hsystem : ∀ m, Synced libs env n next m → inv m := by
    rintro m ⟨peers, idMap, k, hpeers, hsync, hstale, _, rfl⟩
    exact h.system env k (hsynced next peers idMap k hnext hpeers hsync hstale)
  refine (installConfig_meets (acceptConfig_ok hnext)).weaken (fun _ h => h)
    (fun m => hseen next m hnext) ?_ ?_
  · rintro _ m ⟨k, hk, hran⟩
    exact (h.router env _ k rfl (hsystem k hk)).1 m hran
  · intro e m hstopped
    cases e with
    | rejected err =>
      obtain ⟨peers, idMap, hpeers, hsync, hstale⟩ := hstopped
      exact h.stop _ m (by simp) (hsynced next peers idMap m hnext hpeers hsync hstale)
    | restartRequired err => exact hstopped.elim
    | panicked p =>
      by_cases hp : p = .unknownNextHop
      · subst hp
        exact (h.router env _ m rfl (hsystem m hstopped.1)).2 hstopped.2
      · exact hpanic p m hp

end Tasks

/-- What holds after a task that does not panic. -/
theorem afterTask_of_meets {libs : Libraries} {n m : NylonNode T} {task : NodeTask}
    {inv seen : NylonNode T → Prop} {fail : Stop → NylonNode T → Prop}
    (hmeets : Proc.Meets (· = n) (perform libs task) seen (fun _ => inv) fail)
    (hfail : ∀ e m, (∀ p, e ≠ .panicked p) → fail e m → inv m)
    (h : afterTask libs (some n) task = some m) : inv m := by
  obtain ⟨_, hend⟩ := hmeets n rfl
  unfold afterTask at h
  rw [Option.bind_some] at h
  cases hresult : (perform libs task n).result with
  | ok u =>
    rw [hresult] at h hend
    cases h
    exact hend
  | error e =>
    rw [hresult] at h hend
    cases e with
    | panicked p => cases h
    | rejected err =>
      cases h
      exact hfail _ _ (by simp) hend
    | restartRequired err =>
      cases h
      exact hfail _ _ (by simp) hend

/-- The configuration in force after a task is the old one, or the one that the
task has applied, with the health checks that were kept. -/
theorem centralCfg_afterTask {libs : Libraries} {n m : NylonNode T} {task : NodeTask}
    (h : afterTask libs (some n) task = some m) :
    m.centralCfg = n.centralCfg ∨ ∃ cfg ∈ task.config?, ∃ next,
      acceptConfig libs n cfg = .ok next ∧ m.centralCfg = reuseHealth n next := by
  let inForce (c : CentralCfg Health) : Prop :=
    c = n.centralCfg ∨ ∃ cfg ∈ task.config?, ∃ next,
      acceptConfig libs n cfg = .ok next ∧ c = reuseHealth n next
  have hkept : KeptByTasks (fun k : NylonNode T => inForce k.centralCfg) _ _ :=
    keptByTasks_config inForce
  refine afterTask_of_meets (hkept.perform (Or.inl rfl) ?_) (fun _ _ hp hk => hk hp) h
  rintro env cfg rfl
  refine hkept.apply (Or.inl rfl) (fun _ _ _ _ => trivial) ?_ fun p _ _ h => absurd rfl (h p)
  intro next peers idMap m hnext _ hsync _
  refine Or.inr ⟨cfg, rfl, next, hnext, ?_⟩
  rw [hsync.frame, bound, reconciled_eq]
  rfl

theorem nodeRun_invariant {libs : Libraries} {inv : NylonNode T → Prop}
    {cond : Option (NylonNode T) → NodeTask → Prop}
    (hstep : ∀ n task m, inv n → cond (some n) task → afterTask libs (some n) task = some m →
      inv m) {n : NylonNode T} {tasks : List NodeTask} (hn : inv n)
    (hmeets : Transitions.Along (afterTask libs) cond (some n) tasks) :
    ∀ m ∈ nodeRun libs n tasks, inv m := by
  refine Transitions.run_invariant (fun node task (hnode : ∀ m ∈ node, inv m)
    (htask : cond node task) => ?_) ?_ hmeets
  · intro m hm
    cases node with
    | none => cases hm
    | some first => exact hstep first task m (hnode first rfl) htask hm
  · rintro m ⟨rfl⟩
    exact hn

section Start

variable (libs : Libraries) (env : Env) (localCfg : LocalCfg)

/-- The node whose peers are added at startup. -/
def starting (central : CentralCfg PrefixHealth) (peers : List NodeId) (idMap : NodeIdMap) :
    NylonNode T :=
  withBindings (withRouterState libs env (initRouter localCfg central)
    (central.allocate 0) peers) idMap

/-- A node that has just started: `m` is the node whose peers were added, and
`k` the node when they had been. -/
def Started (n : NylonNode T) : Prop :=
  ∃ (central : CentralCfg PrefixHealth) (peers : List NodeId) (idMap : NodeIdMap)
    (m k : NylonNode T), Accepted central ∧ central.isRouter localCfg.id ∧
    routerPeers libs (initRouter localCfg central : NylonNode T) (central.allocate 0) = .ok peers ∧
    m = starting libs env localCfg central peers idMap ∧
    Syncing (configuredKey libs m) m k ∧ NoStale (configuredKey libs m) k ∧
    AllAdded (configuredKey libs m) k ∧ n = startAdvertisedPrefixHealth k

variable {libs env localCfg}

theorem bootstrap_ok {cfg : CentralCfg PrefixHealth} {n : NylonNode T}
    (h : bootstrap libs env localCfg cfg = .ok n) : Started libs env localCfg n := by
  unfold bootstrap at h
  obtain ⟨central, _, h⟩ := bind_eq_ok h
  obtain ⟨_, hvalid, h⟩ := bind_eq_ok h
  split at h
  · cases h
  · next hrouter =>
    have hinit : Proc.Meets (· = (initRouter localCfg central : NylonNode T)) (init libs env)
        (fun _ => True) (fun _ => Started libs env localCfg) fun _ _ => True := by
      unfold init
      refine Proc.Meets.get_bind ?_
      refine (reconcileRouterState_meets (fun _ _ => trivial) trivial).bind fun _ =>
        Proc.Meets.of_states ?_
      rintro _ ⟨peers, hpeers, rfl⟩
      refine Proc.Meets.bind (m := fun _ m => ∃ idMap,
        m = starting libs env localCfg central peers idMap)
        (refreshNodeBindings_meets (fun idMap => ⟨trivial, idMap, rfl⟩) fun _ _ => trivial)
        fun _ => Proc.Meets.of_states ?_
      rintro _ ⟨idMap, rfl⟩
      refine ((syncWireGuard_meets libs env _).weaken (fun _ h => h) (fun _ _ => trivial)
        (fun _ _ h => h) fun _ _ _ => trivial).bind fun _ => Proc.Meets.of_states ?_
      rintro k ⟨hsync, hstale, hadded⟩
      refine Proc.Meets.modify trivial ⟨central, peers, idMap, _, k, ?_, ?_, hpeers, rfl, hsync,
        hstale, hadded, rfl⟩
      · exact centralConfigValidator_accepted (mapError_eq_ok hvalid)
      · simpa using hrouter
    obtain ⟨_, hend⟩ := hinit _ rfl
    dsimp only at h
    cases hresult : (init libs env (initRouter localCfg central : NylonNode T)).result with
    | ok u =>
      rw [hresult] at h hend
      cases h
      exact hend
    | error e =>
      rw [hresult] at h
      cases h

end Start

section Sample

/-- Libraries for configurations in ASCII without endpoints and repositories. -/
def plainLibraries : Libraries where
  toLower := Char.toLower
  parseURL _ := .error "not a URL"
  formatPrefix _ := ""
  formatHealth _ := ""
  parseAddrPort _ := none
  splitHostPort _ := none
  parsePort _ := none
  parseAddr _ := none
  formatAddr _ := ""
  clone := .ok

/-- All links are up, and every peer has just been heard. -/
def idleEnv (now : Time) : Env where
  now := now
  link _ := (true, 10)
  lastMetric _ := INF
  lastReceived _ := now
  familyReachable _ := true
  resolved _ := none
  linkEndpoints _ := []
  parseEndpoint _ := .ok ()
  sysRoutes := []
  peerOrder ids := ids
  peerOrder_perm := List.Perm.refl

def plainLocal (id : NodeId) : LocalCfg where
  id := id
  binds := []
  noNetConfigure := true
  advertiseExitNode := false
  exitNode := ""
  clientDeadThreshold := 6000000000
  router := defaultRouterTunables
  health := ⟨15000000000, 3⟩

def plainNode (id : NodeId) (key : NyPublicKey) (prefixes : List PrefixHealth) :
    NodeCfg PrefixHealth :=
  ⟨id, key, [], prefixes, 0⟩

def plainRouter (id : NodeId) (key : NyPublicKey) (prefixes : List PrefixHealth) :
    RouterCfg PrefixHealth :=
  ⟨plainNode id key prefixes, [], false⟩

def plainConfig (timestamp : Int) (routers : List (RouterCfg PrefixHealth))
    (clients : List (NodeCfg PrefixHealth)) (graph : List String) :
    CentralCfg PrefixHealth :=
  ⟨none, routers, clients, graph, timestamp, []⟩

def startPlain (cfg : CentralCfg PrefixHealth) : Except Stop (NylonNode PrefixMap) :=
  bootstrap plainLibraries (idleEnv 0) (plainLocal "a") cfg

end Sample

end Nylon.Core
