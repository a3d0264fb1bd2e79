import Nylon.Core.TaskSpec

/-!
The peers of the device over repeated runs of `SyncWireGuard`. Every run leaves exactly
the configured peers, under their present keys, whatever the configurations before.
Peers of clients are told to prefer the endpoint they roam to, and nothing takes that
back. So a client that becomes a router and keeps its key also keeps the preference,
unless the peer is removed for the sake of another node that had the same key.
-/

namespace Nylon.Core

open Lib Netip State Polyamide

variable {T : Type → Type}

section Synced

variable {libs : Libraries} {env : Env} {n m : NylonNode T}

/-- What is configured for a peer of the local node: its key, and whether it is a
client. -/
def peerRole (libs : Libraries) (n : NylonNode T) (peer : NodeId) : Option (NyPublicKey × Bool) :=
  (configuredKey libs n peer).map fun key => (key, n.centralCfg.isClient peer)

theorem peerRole_eq_some {peer : NodeId} {key : NyPublicKey} {client : Bool} :
    peerRole libs n peer = some (key, client) ↔
      configuredKey libs n peer = some key ∧ n.centralCfg.isClient peer = client := by
  simp [peerRole]

/-- A configured peer with the key is a client. -/
def ClientKey (roles : NodeId → Option (NyPublicKey × Bool)) (key : NyPublicKey) : Prop :=
  ∃ peer, roles peer = some (key, true)

def PeerKey (roles : NodeId → Option (NyPublicKey × Bool)) (key : NyPublicKey) : Prop :=
  ∃ peer client, roles peer = some (key, client)

/-- A recorded peer has lost the key. -/
def LostKey (roles : NodeId → Option (NyPublicKey × Bool)) (n : NylonNode T)
    (key : NyPublicKey) : Prop :=
  ∃ peer, n.appliedPeers.lookup peer = some key ∧ ∀ client, roles peer ≠ some (key, client)

/-- The outcome of a run of `SyncWireGuard` from `n`. -/
structure PeersSynced (libs : Libraries) (n m : NylonNode T) : Prop where
  central : m.centralCfg = n.centralCfg
  localCfg : m.localCfg = n.localCfg
  records : ∀ peer, m.appliedPeers.lookup peer = configuredKey libs n peer
  wanted : ∀ key, PeerKey (peerRole libs n) key → ∃ roams, m.device.roams key = some roams ∧
    (roams = true ↔ (¬ LostKey (peerRole libs n) n key ∧ n.device.roams key = some true) ∨
      ClientKey (peerRole libs n) key)
  lost : ∀ key, ¬ PeerKey (peerRole libs n) key → LostKey (peerRole libs n) n key →
    m.device.roams key = none
  others : ∀ key, ¬ PeerKey (peerRole libs n) key → ¬ LostKey (peerRole libs n) n key →
    m.device.roams key = n.device.roams key

/-- Endpoints do not change which peers there are and what they prefer. -/
theorem syncWireGuardEndpoints_synced (libs : Libraries) (env : Env) (h : PeersSynced libs n m) :
    PeersSynced libs n (syncWireGuardEndpoints libs env m).state := by
  have hmeets : Proc.Meets (PeersSynced libs n) (syncWireGuardEndpoints libs env)
      (fun _ => True) (fun _ => PeersSynced libs n) (fun _ => PeersSynced libs n) := by
    refine syncWireGuardEndpoints_meets libs env (fun m key eps hm => ⟨trivial, hm.central,
      hm.localCfg, hm.records, ?_, ?_, ?_⟩) fun _ _ hm _ => hm
    · simpa only [PeerTable.roams_setEndpoints] using hm.wanted
    · simpa only [PeerTable.roams_setEndpoints] using hm.lost
    · simpa only [PeerTable.roams_setEndpoints] using hm.others
  obtain ⟨_, hend⟩ := hmeets m h
  generalize syncWireGuardEndpoints libs env m = out at hend
  obtain ⟨_, state, result⟩ := out
  cases result with
  | ok _ => exact hend
  | error e => exact hend

theorem PeersAdded.synced (h : PeersAdded libs n m) : PeersSynced libs n m := by
  obtain ⟨peers, desired, base, hpeers, hdesired, hremoved, hadded⟩ := h
  have hgone : ∀ key, StaleKey desired.lookup n [] key → base.device.roams key = none := by
    intro key hstale
    rw [PeerTable.roams, hremoved.removed key hstale]
    rfl
  have hstays : ∀ key, ¬ StaleKey desired.lookup n [] key →
      base.device.roams key = n.device.roams key := by
    intro key hstale
    rw [PeerTable.roams, hremoved.kept key hstale]
    rfl
  have hcentral : base.centralCfg = n.centralCfg := by rw [hremoved.frame]
  have hkeyOf : keyOf base = keyOf n := by
    funext peer
    rw [keyOf, keyOf, hcentral]
  have hkeys : ∀ peer, desired.lookup peer = if peer ∈ peers then keyOf n peer else none :=
    lookup_desiredPeers hdesired
  have hconfigured : ∀ peer, configuredKey libs n peer = desired.lookup peer :=
    congrFun (configuredKey_eq hpeers hdesired)
  have hwanted : ∀ peer key, configuredKey libs n peer = some key ↔
      peer ∈ sortNames peers ∧ keyOf base peer = some key := by
    intro peer key
    rw [hconfigured, hkeys, hkeyOf, mem_sortNames]
    split
    · next hmem => simp [hmem]
    · next hmem => simp [hmem]
  have hpeerKey : ∀ key, (sortNames peers).any (keyOf base · == some key) = true ↔
      PeerKey (peerRole libs n) key := by
    intro key
    simp only [PeerKey, peerRole_eq_some, hwanted, List.any_eq_true, beq_iff_eq]
    refine exists_congr fun peer => ⟨fun h => ⟨_, h, rfl⟩, ?_⟩
    rintro ⟨_, h, _⟩
    exact h
  have hclientKey : ∀ key, ((sortNames peers).any fun peer =>
      keyOf base peer == some key && base.centralCfg.isClient peer) = true ↔
      ClientKey (peerRole libs n) key := by
    intro key
    simp only [ClientKey, peerRole_eq_some, hwanted, List.any_eq_true, Bool.and_eq_true,
      beq_iff_eq, hcentral, and_assoc]
  have hlostKey : ∀ key, StaleKey desired.lookup n [] key ↔ LostKey (peerRole libs n) n key := by
    intro key
    constructor
    · rintro ⟨peer, _, hrecord, hwant⟩
      refine ⟨peer, hrecord, fun client hrole => hwant ?_⟩
      exact (hconfigured peer).symm.trans (peerRole_eq_some.mp hrole).1
    · rintro ⟨peer, hrecord, hwant⟩
      exact ⟨peer, List.not_mem_nil, hrecord,
        fun h => hwant _ (peerRole_eq_some.mpr ⟨(hconfigured peer).trans h, rfl⟩)⟩
  refine ⟨?_, ?_, fun peer => ?_, fun key hkey => ?_, fun key hkey hlost => ?_,
    fun key hkey hlost => ?_⟩
  · rw [hadded.frame]
    exact hcentral
  · rw [hadded.frame]
    change base.localCfg = _
    rw [hremoved.frame]
  · rw [hadded.records, hconfigured, hkeys, hkeyOf, hremoved.records, hkeys]
    simp only [mem_sortNames, List.not_mem_nil, false_or]
    split
    · rfl
    · split
      · next hsame => exact hsame.symm
      · rfl
  · rw [hadded.roams, if_pos ((hpeerKey key).mpr hkey)]
    refine ⟨_, rfl, ?_⟩
    rw [Bool.or_eq_true, hclientKey]
    apply or_congr_left
    by_cases hlost : LostKey (peerRole libs n) n key
    · simp [hgone key ((hlostKey key).mpr hlost), hlost]
    · rw [hstays key fun h => hlost ((hlostKey key).mp h)]
      simp only [hlost, not_false_eq_true, true_and]
      cases n.device.roams key <;> simp
  · rw [hadded.roams, if_neg (fun h => hkey ((hpeerKey key).mp h))]
    exact hgone key ((hlostKey key).mpr hlost)
  · rw [hadded.roams, if_neg (fun h => hkey ((hpeerKey key).mp h))]
    exact hstays key fun h => hlost ((hlostKey key).mp h)

theorem syncPeers_synced (h : (syncPeers libs env n).result = .ok ()) :
    PeersSynced libs n (syncPeers libs env n).state := by
  obtain ⟨_, hend⟩ := syncPeers_meets libs env n n rfl
  rw [h] at hend
  exact hend.2.2.synced

end Synced

section History

variable {libs : Libraries} {n m : NylonNode T} {roles : NodeId → Option (NyPublicKey × Bool)}

/-- The device and the records are as the roles ask for: one peer for each key, every
configured peer recorded under its key, and a peer prefers roaming exactly if a
configured peer with its key is a client. -/
structure PeersMatch (roles : NodeId → Option (NyPublicKey × Bool)) (n : NylonNode T) : Prop where
  keys : ∀ key, (n.device.lookupPeer key).isSome ↔ PeerKey roles key
  records : ∀ peer, n.appliedPeers.lookup peer = (roles peer).map Prod.fst
  roaming : ∀ key peer, n.device.lookupPeer key = some peer →
    (peer.preferRoaming = true ↔ ClientKey roles key)

/-- Where a client was configured with a key and all peers with that key keep it, a client
is still configured with it. -/
def ClientsKeepRole (roles roles' : NodeId → Option (NyPublicKey × Bool)) : Prop :=
  ∀ key, ClientKey roles key →
    (∀ peer client, roles peer = some (key, client) → ∃ client', roles' peer = some (key, client')) →
    ClientKey roles' key

/-- Between two runs anything may change but the local node, the recorded peers, and
which peers the device has and what they prefer. -/
structure PeersUntouched (n m : NylonNode T) : Prop where
  localId : m.localCfg.id = n.localCfg.id
  records : m.appliedPeers = n.appliedPeers
  device : ∀ key, m.device.roams key = n.device.roams key

/-- Runs of `SyncWireGuard`, one after another, in which no call of `NewPeer` fails. The
list has the node after each of them. -/
inductive SyncHistory (libs : Libraries) : NylonNode T → List (NylonNode T) → Prop where
  | none (n : NylonNode T) : SyncHistory libs n []
  | sync {n m : NylonNode T} {later : List (NylonNode T)} (env : Env)
      (huntouched : PeersUntouched n m) (hadded : (syncPeers libs env m).result = .ok ())
      (hlater : SyncHistory libs (syncWireGuard libs env m).state later) :
      SyncHistory libs n ((syncWireGuard libs env m).state :: later)

theorem SyncHistory.two {env env' : Env} {next : CentralCfg Health}
    (hfirst : (syncPeers libs env n).result = .ok ())
    (hsecond : (syncPeers libs env'
      {(syncWireGuard libs env n).state with centralCfg := next}).result = .ok ()) :
    SyncHistory libs n [(syncWireGuard libs env n).state,
      (syncWireGuard libs env'
        {(syncWireGuard libs env n).state with centralCfg := next}).state] :=
  .sync env ⟨rfl, rfl, fun _ => rfl⟩ hfirst
    (.sync env' ⟨rfl, rfl, fun _ => rfl⟩ hsecond (.none _))

theorem PeerKey.of_client {key : NyPublicKey} (h : ClientKey roles key) : PeerKey roles key :=
  h.imp fun _ hpeer => ⟨true, hpeer⟩

/-- What the device says about a key in a state as the roles ask for. -/
theorem PeersMatch.roams (h : PeersMatch roles n) (key : NyPublicKey) :
    ((n.device.roams key).isSome ↔ PeerKey roles key) ∧
      (n.device.roams key = some true ↔ ClientKey roles key) := by
  have hkeys := h.keys key
  unfold PeerTable.roams
  cases hpeer : n.device.lookupPeer key with
  | none =>
    rw [hpeer] at hkeys
    have hnone : ¬ PeerKey roles key := fun hkey => by simpa using hkeys.mpr hkey
    simpa [hnone] using fun hclient => hnone (.of_client hclient)
  | some peer =>
    rw [hpeer] at hkeys
    simpa [← hkeys] using h.roaming key peer hpeer

theorem lostKey_iff {roles' : NodeId → Option (NyPublicKey × Bool)}
    (hrecords : ∀ peer, n.appliedPeers.lookup peer = (roles peer).map Prod.fst)
    (key : NyPublicKey) :
    ¬ LostKey roles' n key ↔ ∀ peer client, roles peer = some (key, client) →
      ∃ client', roles' peer = some (key, client') := by
  unfold LostKey
  constructor
  · intro hkept peer client hrole
    by_contra hlost
    exact hkept ⟨peer, by rw [hrecords, hrole]; rfl, fun client' h => hlost ⟨client', h⟩⟩
  · rintro hkept ⟨peer, hrecord, hlost⟩
    rw [hrecords] at hrecord
    obtain ⟨⟨_, client⟩, hrole, rfl⟩ := Option.map_eq_some_iff.mp hrecord
    obtain ⟨client', hrole'⟩ := hkept peer client hrole
    exact hlost client' hrole'

/-- One run: peers and keys are always right, and the preferences are if the clients keep
their role. -/
theorem peersMatch_synced
    (hbefore : PeersMatch roles n) (huntouched : PeersUntouched n m) {env : Env}
    (hadded : (syncPeers libs env m).result = .ok ()) :
    PeersMatch (peerRole libs (syncWireGuard libs env m).state)
        (syncWireGuard libs env m).state ↔
      ClientsKeepRole roles (peerRole libs (syncWireGuard libs env m).state) := by
  have hsynced : PeersSynced libs m (syncWireGuard libs env m).state := by
    rw [syncWireGuard, Proc.state_bind_of_ok hadded]
    exact syncWireGuardEndpoints_synced libs env (syncPeers_synced hadded)
  generalize (syncWireGuard libs env m).state = after at hsynced
  have hroles : peerRole libs after = peerRole libs m := by
    funext peer
    rw [peerRole, peerRole, configuredKey, configuredKey, hsynced.central, hsynced.localCfg]
  rw [hroles]
  have hkept : ∀ key, ¬ LostKey (peerRole libs m) m key ↔
      ∀ peer client, roles peer = some (key, client) →
        ∃ client', peerRole libs m peer = some (key, client') := by
    apply lostKey_iff
    rw [huntouched.records]
    exact hbefore.records
  -- a key that is kept was one of the old peers, and is one of the new ones
  have hstays : ∀ key, PeerKey roles key → ¬ LostKey (peerRole libs m) m key →
      PeerKey (peerRole libs m) key := by
    rintro key ⟨peer, client, hrole⟩ hlost
    obtain ⟨client', hrole'⟩ := (hkept key).mp hlost peer client hrole
    exact ⟨peer, client', hrole'⟩
  have hold : ∀ key, m.device.roams key = some true ↔ ClientKey roles key := by
    intro key
    rw [huntouched.device]
    exact (hbefore.roams key).2
  have hkeys : ∀ key, (after.device.lookupPeer key).isSome ↔ PeerKey (peerRole libs m) key := by
    intro key
    have hsome : (after.device.lookupPeer key).isSome = (after.device.roams key).isSome := by
      simp [PeerTable.roams]
    rw [hsome]
    constructor
    · intro hpeer
      by_contra hnone
      by_cases hlost : LostKey (peerRole libs m) m key
      · rw [hsynced.lost key hnone hlost] at hpeer
        cases hpeer
      · rw [hsynced.others key hnone hlost, huntouched.device, (hbefore.roams key).1] at hpeer
        exact hnone (hstays key hpeer hlost)
    · intro hkey
      obtain ⟨roams, hroams, _⟩ := hsynced.wanted key hkey
      rw [hroams]
      rfl
  have hrecords : ∀ peer, after.appliedPeers.lookup peer =
      (peerRole libs m peer).map Prod.fst := by
    intro peer
    rw [hsynced.records, peerRole, Option.map_map]
    exact Option.map_id'.symm
  constructor
  · intro hmatch key hclient hsame
    have hlost := (hkept key).mpr hsame
    have hkey := hstays key (.of_client hclient) hlost
    obtain ⟨roams, hroams, hwhy⟩ := hsynced.wanted key hkey
    have htrue := hwhy.mpr (Or.inl ⟨hlost, (hold key).mpr hclient⟩)
    rw [htrue] at hroams
    exact (hmatch.roams key).2.mp hroams
  · intro hclients
    refine ⟨hkeys, hrecords, fun key peer hpeer => ?_⟩
    have hkey := (hkeys key).mp (by rw [hpeer]; rfl)
    obtain ⟨roams, hroams, hwhy⟩ := hsynced.wanted key hkey
    have hsame : peer.preferRoaming = roams := by
      simpa [PeerTable.roams, hpeer] using hroams
    rw [hsame, hwhy]
    constructor
    · rintro (⟨hlost, hroaming⟩ | hclient)
      · exact hclients key ((hold key).mp hroaming) ((hkept key).mp hlost)
      · exact hclient
    · exact Or.inr

/-- After every run of `SyncWireGuard` the peers are as configured exactly if, between
consecutive configurations, clients keep their role. -/
theorem peers_match_iff {states : List (NylonNode T)}
    (hpeers : ∀ key, n.device.lookupPeer key = none)
    (hrecords : ∀ peer, n.appliedPeers.lookup peer = none)
    (hhistory : SyncHistory libs n states) :
    (∀ m ∈ states, PeersMatch (peerRole libs m) m) ↔
      (states.map (peerRole libs)).IsChain ClientsKeepRole := by
  have hchain : ∀ {n : NylonNode T} {states : List (NylonNode T)}
      {roles : NodeId → Option (NyPublicKey × Bool)}, PeersMatch roles n →
      SyncHistory libs n states →
      ((∀ m ∈ states, PeersMatch (peerRole libs m) m) ↔
        (roles :: states.map (peerRole libs)).IsChain ClientsKeepRole) := by
    intro n states roles hmatch hhistory
    induction hhistory generalizing roles with
    | none n => simp
    | sync env huntouched hadded hlater ih =>
      rw [List.forall_mem_cons, List.map_cons, List.isChain_cons_cons,
        ← peersMatch_synced hmatch huntouched hadded]
      exact and_congr_right fun hnow => ih hnow
  have hfresh : PeersMatch (fun _ => none) n := by
    refine ⟨fun key => ?_, fun peer => hrecords peer, fun key peer hpeer => ?_⟩
    · simp [hpeers, PeerKey]
    · rw [hpeers] at hpeer
      cases hpeer
  rw [hchain hfresh hhistory]
  cases states with
  | nil => simp
  | cons m later =>
    rw [List.map_cons, List.isChain_cons_cons, and_iff_right]
    rintro key ⟨peer, hnone⟩
    cases hnone

end History

section Sample

def clientAttached : CentralCfg PrefixHealth :=
  plainConfig 1 [plainRouter "a" 1 []] [plainNode "c" 3 []] ["a, c"]

/-- The client has become a router. -/
def clientPromoted (key : NyPublicKey) : CentralCfg PrefixHealth :=
  plainConfig 2 [plainRouter "a" 1 [], plainRouter "c" key []] [] ["a, c"]

def beforeSync : NylonNode PrefixMap := initRouter (plainLocal "a") clientAttached

def afterFirst : NylonNode PrefixMap := (syncWireGuard plainLibraries (idleEnv 0) beforeSync).state

def afterSecond (key : NyPublicKey) : NylonNode PrefixMap :=
  (syncWireGuard plainLibraries (idleEnv 1)
    {afterFirst with centralCfg := (clientPromoted key).allocate 1}).state

theorem sample_history {key : NyPublicKey} (hsecond : (syncPeers plainLibraries (idleEnv 1)
      {afterFirst with centralCfg := (clientPromoted key).allocate 1}).result = .ok ()) :
    SyncHistory plainLibraries beforeSync [afterFirst, afterSecond key] := by
  have hfirst : (syncPeers plainLibraries (idleEnv 0) beforeSync).result = .ok () := by
    decide +kernel
  unfold afterSecond
  unfold afterFirst at hsecond ⊢
  exact SyncHistory.two hfirst hsecond

/-- With another key the former client gets a new peer. -/
theorem peers_match_iff_rekeyed :
    SyncHistory plainLibraries beforeSync [afterFirst, afterSecond 4] ∧
      ∀ m ∈ [afterFirst, afterSecond 4], PeersMatch (peerRole plainLibraries m) m := by
  have hhistory := @sample_history 4 (by decide +kernel)
  refine ⟨hhistory, (peers_match_iff (fun _ => rfl) (fun _ => rfl) hhistory).mpr ?_⟩
  have hclients : afterFirst.centralCfg.clients.map (·.id) = ["c"] := by decide +kernel
  have hbefore : peerRole plainLibraries afterFirst "c" = some (3, true) := by decide +kernel
  have hafter : peerRole plainLibraries (afterSecond 4) "c" = some (4, false) := by
    decide +kernel
  refine List.isChain_pair.mpr ?_
  rintro key ⟨peer, hrole⟩ hkept
  obtain ⟨client', hsame⟩ := hkept peer true hrole
  have hclient := (peerRole_eq_some.mp hrole).2
  have hpeer : peer = "c" := by
    rw [CentralCfg.isClient, List.any_eq_true] at hclient
    obtain ⟨x, hx, hid⟩ := hclient
    have hmem := List.mem_map_of_mem (f := (·.id)) hx
    rw [hclients, List.mem_singleton] at hmem
    rw [← beq_iff_eq.mp hid, hmem]
  subst hpeer
  rw [hbefore] at hrole
  rw [hafter] at hsame
  cases hrole
  cases hsame

/-- With the same key it keeps the peer and the preference of a client. -/
theorem former_client_still_roams :
    centralConfigValidator plainLibraries.toConfigLibraries clientAttached = .ok () ∧
      centralConfigValidator plainLibraries.toConfigLibraries (clientPromoted 3) = .ok () ∧
      SyncHistory plainLibraries beforeSync [afterFirst, afterSecond 3] ∧
      (afterSecond 3).device.roams 3 = some true ∧
      ¬ ∀ m ∈ [afterFirst, afterSecond 3], PeersMatch (peerRole plainLibraries m) m := by
  have hroams : (afterSecond 3).device.roams 3 = some true := by decide +kernel
  have hclients : (afterSecond 3).centralCfg.clients = [] := by decide +kernel
  refine ⟨by decide +kernel, by decide +kernel, sample_history (by decide +kernel), hroams, ?_⟩
  intro hmatch
  obtain ⟨peer, hrole⟩ := ((hmatch (afterSecond 3) (by simp)).roams 3).2.mp hroams
  have hclient := (peerRole_eq_some.mp hrole).2
  rw [CentralCfg.isClient, hclients] at hclient
  cases hclient

end Sample

end Nylon.Core
