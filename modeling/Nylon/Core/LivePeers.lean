import Nylon.Core.TaskSpec

/-!
Control packets on the data plane (`handleNylonPacket` of `core/nylon_tc.go`)
while the dispatch goroutine runs its tasks. A packet comes from a peer of the
device, and its sender is looked up in `PeerMap` by public key; a peer without an
entry is taken for impossible and ends the process.

The machine interleaves both sides: a task writes one state after another, and
between any two writes packets arrive. `PeerMap` is replaced before the peers of
the device are, so a peer that an update removes is unknown for a while.
-/

namespace Nylon.Core

open Lib Netip State Polyamide

/-- A message of a packet. Probes are answered on the data plane. -/
inductive Ny where
  | control (msg : ControlMsg)
  | probe
  deriving DecidableEq, Repr

def Ny.control? : Ny → Option ControlMsg
  | .control msg => some msg
  | .probe => none

variable {T : Type → Type}

/-- The tasks that a packet from the peer with this key is turned into, or `none`
for the panic. `packet` is what the bytes unmarshal to, and `env` is what the
task will find when it runs. -/
def handleNylonPacket (n : NylonNode T) (env : Env) (key : NyPublicKey)
    (packet : Option (List Ny)) : Option (List NodeTask) :=
  match packet, n.peerMap with
  | none, _ | some _, none => some []
  | some pkts, some peerMap =>
    match peerMap.lookup key with
    | none => none
    | some neigh =>
      let controlPackets := pkts.filterMap Ny.control?
      if controlPackets = [] then some []
      else some [.control env neigh controlPackets]

/-- The node and its goroutines. `left` is what the running task is still to
write, and the next task starts in `after`, which is `none` once a task has
panicked. `crashed` is a panic on the data plane. -/
structure Machine (T : Type → Type) where
  visible : NylonNode T
  left : List (NylonNode T)
  after : Option (NylonNode T)
  queue : List NodeTask
  crashed : Bool

def Machine.start (n : NylonNode T) : Machine T := ⟨n, [], some n, [], false⟩

inductive MachineEvent where
  /-- Timers, repositories and the control socket dispatch a task. -/
  | submit (task : NodeTask)
  | begin
  | write
  | receive (env : Env) (key : NyPublicKey) (packet : Option (List Ny))

def MachineEvent.isBegin : MachineEvent → Bool
  | .begin => true
  | _ => false

/-- The task that starts next, and the node it starts on. -/
def Machine.ready (m : Machine T) : Option (NylonNode T × NodeTask) :=
  if m.left.isEmpty then m.after.bind fun n => m.queue.head?.map fun task => (n, task)
  else none

/-- `PeerMap` has every peer of the device. -/
def PeersKnown (n : NylonNode T) : Prop :=
  ∃ peerMap, n.peerMap = some peerMap ∧
    ∀ key, (n.device.peerId key).isSome → (peerMap.lookup key).isSome

/-- A configuration that passes the checks still has all peers of the device. -/
def KeepsPeers (libs : Libraries) (n : NylonNode T) (cfg : CentralCfg PrefixHealth) : Prop :=
  ∀ next ∈ (acceptConfig libs n cfg).toOption,
    ∀ key ∈ n.device.keyMap.keys, key ∈ next.getNodes.map (·.pubKey)

/-- The update that starts with this event, if any, keeps the peers. -/
def StartKeepsPeers (libs : Libraries) (m : Machine T) (e : MachineEvent) : Prop :=
  e.isBegin → ∀ start ∈ m.ready, ∀ cfg ∈ start.2.config?, KeepsPeers libs start.1 cfg

instance (libs : Libraries) (n : NylonNode T) (cfg : CentralCfg PrefixHealth) :
    Decidable (KeepsPeers libs n cfg) :=
  decidable_of_iff ((acceptConfig libs n cfg).toOption.all fun next =>
    n.device.keyMap.keys.all fun key => key ∈ next.getNodes.map (·.pubKey))
    (by simp [KeepsPeers, Option.all_eq_true])

theorem PeersKnown.handled {n : NylonNode T} (h : PeersKnown n) (env : Env)
    {key : NyPublicKey} (hkey : (n.device.peerId key).isSome) (packet : Option (List Ny)) :
    ∃ tasks, handleNylonPacket n env key packet = some tasks := by
  obtain ⟨peerMap, hmap, hknown⟩ := h
  obtain ⟨neigh, hneigh⟩ := Option.isSome_iff_exists.mp (hknown key hkey)
  unfold handleNylonPacket
  cases packet with
  | none => exact ⟨_, rfl⟩
  | some pkts =>
    simp only [hmap, hneigh]
    split
    · exact ⟨_, rfl⟩
    · exact ⟨_, rfl⟩

/-- Peers may go, but none may come. -/
theorem PeersKnown.mono {n m : NylonNode T} (h : PeersKnown n) (hmap : m.peerMap = n.peerMap)
    (hdevice : ∀ key, (m.device.peerId key).isSome → (n.device.peerId key).isSome) :
    PeersKnown m := by
  obtain ⟨peerMap, hpeerMap, hknown⟩ := h
  exact ⟨peerMap, hmap.trans hpeerMap, fun key hkey => hknown key (hdevice key hkey)⟩

/-- The states of an update that keeps the peers. -/
theorem PeersBetween.known {n m : NylonNode T} {next : CentralCfg Health}
    (h : PeersBetween n next m) (hn : PeersKnown n)
    (hkept : ∀ key ∈ n.device.keyMap.keys, key ∈ next.getNodes.map (·.pubKey)) :
    PeersKnown m := by
  rcases h with ⟨hmap, hdevice⟩ | ⟨hmap, hdevice⟩
  · exact hn.mono hmap fun key hkey => hdevice ▸ hkey
  · refine ⟨next.pubkeyMap, hmap, fun key hkey => ?_⟩
    rw [CentralCfg.pubkeyMap_isSome]
    rcases hdevice key hkey with hold | hnew
    · exact hkept key (PeerTable.mem_keys_of_peerId hold)
    · exact hnew

variable [PrefixTable T] {libs : Libraries} {n : NylonNode T}

def machineStep (libs : Libraries) (m : Machine T) : MachineEvent → Machine T
  | .submit task => {m with queue := m.queue ++ [task]}
  | .begin =>
    match m.ready with
    | none => m
    | some (n, task) =>
      { m with
        left := (perform libs task n).written
        after := afterTask libs (some n) task
        queue := m.queue.tail }
  | .write =>
    match m.left with
    | [] => m
    | n :: rest => {m with visible := n, left := rest}
  | .receive env key packet =>
    if (m.visible.device.peerId key).isNone then m
    else match handleNylonPacket m.visible env key packet with
      | none => {m with crashed := true}
      | some tasks => {m with queue := m.queue ++ tasks}

abbrev machineRun (libs : Libraries) (n : NylonNode T) (events : List MachineEvent) : Machine T :=
  Transitions.run (machineStep libs) (Machine.start n) events

/-- Outside of updates `PeerMap` stays, and so do the peers unless the device is
closed. -/
theorem peersKnown_kept : KeptByTasks (PeersKnown (T := T)) PeersKnown
      (fun e n => (∀ p, e ≠ .panicked p) → PeersKnown n) where
  visible _ h := h
  router env e n _ hn := by
    refine ⟨fun m hran => hn.mono ?_ fun key hkey => ?_, fun _ _ => hn⟩
    · rw [hran.frame]
    · rw [hran.frame] at hkey
      exact hkey
  scan env n hn := by
    have hframe := scanPassivePeers_frame env n
    refine hn.mono ?_ fun key hkey => ?_
    · rw [hframe]
    · rw [hframe] at hkey
      exact hkey
  endpoints n key eps hn := hn.mono rfl fun key hkey => by simpa using hkey
  system env n hn := by
    rw [withSystemState_eq]
    exact hn.mono rfl fun _ hkey => hkey
  links n eps hn := hn.mono rfl fun _ hkey => hkey
  close n hn := hn.mono rfl fun key hkey => by
    rw [PeerTable.peerId_of_closed rfl] at hkey
    cases hkey
  stop _ _ _ hn _ := hn

theorem peersKnown_apply (hn : PeersKnown n)
    (env : Env) {cfg : CentralCfg PrefixHealth} (hcfg : KeepsPeers libs n cfg) :
    Proc.Meets (· = n) (applyCentralConfig libs env cfg) PeersKnown (fun _ => PeersKnown)
      (fun e m => (∀ p, e ≠ .panicked p) → PeersKnown m) := by
  have hkept : ∀ next, acceptConfig libs n cfg = .ok next →
      ∀ key ∈ n.device.keyMap.keys, key ∈ next.getNodes.map (·.pubKey) :=
    fun next hnext => hcfg next (by rw [hnext]; rfl)
  exact peersKnown_kept.apply hn (fun next m hnext hm => hm.known hn (hkept next hnext))
    (fun next _ _ m hnext _ hsync _ => hsync.peersBetween.known hn (hkept next hnext))
    fun p _ _ h => absurd rfl (h p)

theorem Started.peersKnown {env : Env} {localCfg : LocalCfg}
    (h : Started libs env localCfg n) : PeersKnown n := by
  obtain ⟨central, peers, idMap, m, k, _, _, _, rfl, hsync, _, _, rfl⟩ := h
  refine ⟨(central.allocate 0).pubkeyMap, ?_, fun key hkey => ?_⟩
  · rw [hsync.frame]
    rfl
  · rw [CentralCfg.pubkeyMap_isSome]
    rcases hsync.known key hkey with hold | ⟨peer, hpeer⟩
    · cases hold
    · exact mem_keys_of_configuredKey hpeer

/-- All states that packets meet or will meet know their peers. -/
structure Machine.Safe (m : Machine T) : Prop where
  visible : PeersKnown m.visible
  left : ∀ n ∈ m.left, PeersKnown n
  after : ∀ n ∈ m.after, PeersKnown n
  running : m.crashed = false

theorem machineStep_safe {m : Machine T} {e : MachineEvent}
    (hm : m.Safe) (he : StartKeepsPeers libs m e) : (machineStep libs m e).Safe := by
  cases e with
  | submit task => exact ⟨hm.visible, hm.left, hm.after, hm.running⟩
  | begin =>
    cases hready : m.ready with
    | none =>
      simp only [machineStep, hready]
      exact hm
    | some start =>
      obtain ⟨n, task⟩ := start
      simp only [machineStep, hready]
      have hn : PeersKnown n := by
        unfold Machine.ready at hready
        split at hready
        · obtain ⟨first, hfirst, hmap⟩ := Option.bind_eq_some_iff.mp hready
          obtain ⟨_, _, heq⟩ := Option.map_eq_some_iff.mp hmap
          obtain ⟨rfl, rfl⟩ := Prod.mk.inj heq
          exact hm.after first hfirst
        · cases hready
      have hperform : Proc.Meets (· = n) (perform libs task) PeersKnown
          (fun _ => PeersKnown) fun e m => (∀ p, e ≠ .panicked p) → PeersKnown m := by
        refine peersKnown_kept.perform hn ?_
        rintro env cfg rfl
        exact peersKnown_apply hn env (he rfl _ hready cfg rfl)
      refine ⟨hm.visible, (hperform n rfl).1, fun k hk => ?_, hm.running⟩
      exact afterTask_of_meets hperform (fun _ _ hp h => h hp) hk
  | write =>
    cases hleft : m.left with
    | nil =>
      simp only [machineStep, hleft]
      exact hm
    | cons n rest =>
      simp only [machineStep, hleft]
      have hall := hm.left
      rw [hleft, List.forall_mem_cons] at hall
      exact ⟨hall.1, hall.2, hm.after, hm.running⟩
  | receive env key packet =>
    rw [machineStep]
    split
    · exact hm
    · next hpeer =>
      obtain ⟨tasks, htasks⟩ := hm.visible.handled env
        (by simpa [Option.isSome_iff_ne_none] using hpeer) packet
      rw [htasks]
      exact ⟨hm.visible, hm.left, hm.after, hm.running⟩

/-- Whatever the interleaving, no packet of a live peer is taken for impossible
as long as every update that starts keeps the peers of the device. -/
theorem live_peers_known {libs : Libraries} {env : Env} {localCfg : LocalCfg}
    {cfg : CentralCfg PrefixHealth} {n : NylonNode T} {events : List MachineEvent}
    (hstart : bootstrap libs env localCfg cfg = .ok n)
    (hkeep : Transitions.Along (machineStep libs) (StartKeepsPeers libs)
      (Machine.start n) events) :
    (machineRun libs n events).crashed = false ∧ PeersKnown (machineRun libs n events).visible := by
  have hn := (bootstrap_ok hstart).peersKnown
  have hinit : (Machine.start n).Safe := by
    refine ⟨hn, fun _ h => absurd h List.not_mem_nil, ?_, rfl⟩
    rintro m hm
    cases hm
    exact hn
  have hsafe := Transitions.run_invariant
    (fun m e (hm : m.Safe) (he : StartKeepsPeers libs m e) => machineStep_safe hm he)
    hinit hkeep
  exact ⟨hsafe.running, hsafe.visible⟩

/-- Two neighbours `a` and `b`. -/
def neighbours : CentralCfg PrefixHealth :=
  plainConfig 1 [plainRouter "a" 1 [], plainRouter "b" 2 []] [] ["a, b"]

/-- A third router joins them. -/
def withThird : CentralCfg PrefixHealth :=
  plainConfig 2 [plainRouter "a" 1 [], plainRouter "b" 2 [], plainRouter "c" 3 []] []
    ["a, b", "a, c"]

/-- An update starts, gets as far as the new `PeerMap`, and `b` sends a packet. -/
def packetDuringUpdate (cfg : CentralCfg PrefixHealth) : List MachineEvent :=
  [.submit (.apply (idleEnv 1) cfg), .begin, .write, .write, .receive (idleEnv 1) 2 (some [.probe])]

theorem live_peers_known_third : ∃ n, startPlain neighbours = .ok n ∧
      (machineRun plainLibraries n (packetDuringUpdate withThird)).crashed = false := by
  have hrun : (startPlain neighbours).toOption.any (fun n =>
      decide (KeepsPeers plainLibraries n withThird)) = true := by decide +kernel
  obtain ⟨n, hn, hkeeps⟩ := exists_of_any hrun
  have halong : Transitions.Along (machineStep plainLibraries)
      (StartKeepsPeers plainLibraries) (Machine.start n) (packetDuringUpdate withThird) := by
    refine ⟨nofun, ?_, nofun, nofun, nofun, trivial⟩
    intro _ start hstart cfg hcfg
    obtain rfl : (n, NodeTask.apply (idleEnv 1) withThird) = start := Option.some.inj hstart
    obtain rfl : withThird = cfg := Option.some.inj hcfg
    exact of_decide_eq_true hkeeps
  exact ⟨n, hn, (live_peers_known hn halong).1⟩

theorem removed_peer_crashes : ∃ n, startPlain neighbours = .ok n ∧ (machineRun plainLibraries n
        (packetDuringUpdate (plainConfig 2 [plainRouter "a" 1 []] [] []))).crashed = true :=
  exists_of_any (by decide +kernel)

end Nylon.Core
