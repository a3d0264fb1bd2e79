import Nylon.Core.NylonNode

/-!
Synchronisation of the device with the configuration in force
(`core/nylon_wireguard.go`). `AppliedSystem.Peers` records the key under which a
node has been added to the device. Peers whose node is gone or has another key
are removed first, then the missing ones are added in the order of their names.
Adding a peer can fail, and then the rest is left undone.
-/

namespace Nylon.Core

open Lib Netip State Polyamide

variable {T : Type → Type}

def desiredPeers (n : NylonNode T) (peers : List NodeId) : Except Stop (Table NodeId NyPublicKey) :=
  peers.foldlM (fun desired peer =>
    match n.centralCfg.tryGetNode peer with
    | none => .error (.panicked .unknownPeer)
    | some ncfg => .ok (desired.insert peer ncfg.pubKey)) ∅

def removeStalePeer (desired : Table NodeId NyPublicKey) (peer : NodeId) : Task T Unit := do
  let n ← Proc.get
  match n.appliedPeers.lookup peer with
  | none => pure ()
  | some oldKey =>
    if desired.lookup peer = some oldKey then pure ()
    else do
      Proc.modify fun n => {n with device := n.device.removePeer oldKey}
      Proc.modify fun n => {n with appliedPeers := n.appliedPeers.erase peer}

/-- The device has a peer for the key, an old or a new one. -/
def ensurePeer (key : NyPublicKey) : Task T Unit := do
  let n ← Proc.get
  if (n.device.lookupPeer key).isSome then pure ()
  else match n.device.newPeer key with
    | .error err => Proc.throw (.rejected err)
    | .ok device => Proc.modify fun n => {n with device := device}

def addPeer (peer : NodeId) : Task T Unit := do
  let n ← Proc.get
  match n.centralCfg.tryGetNode peer with
  | none => Proc.throw (.panicked .unknownPeer)
  | some ncfg => do
    ensurePeer ncfg.pubKey
    Proc.modify fun n =>
      if n.centralCfg.isClient peer then
        {n with device := n.device.setPreferRoaming ncfg.pubKey true}
      else n
    Proc.modify fun n => {n with appliedPeers := n.appliedPeers.insert peer ncfg.pubKey}

/-- The links of a router come first, then its configured endpoints that are not
among them. -/
def peerEndpoints (env : Env) (n : NylonNode T) (pcfg : RouterCfg Health) :
    Except String (List AddrPort) :=
  let links := if (n.routerState.getNeighbour pcfg.id).isSome then
    env.linkEndpoints pcfg.id else []
  pcfg.endpoints.foldlM (fun eps ep =>
    match env.resolved ep with
    | none => .ok eps
    | some ap =>
      if ap ∈ eps then .ok eps
      else (env.parseEndpoint ap).map fun _ => eps ++ [ap]) links

def syncPeerEndpoints (env : Env) (peer : NodeId) : Task T Unit := do
  let n ← Proc.get
  if n.centralCfg.isClient peer then pure ()
  else match n.centralCfg.getRouter peer with
    | none => Proc.throw (.panicked .unknownPeer)
    | some pcfg =>
      match peerEndpoints env n pcfg with
      | .error err => Proc.throw (.rejected err)
      | .ok eps => Proc.modify fun n =>
        {n with device := n.device.setEndpoints pcfg.pubKey eps}

def syncWireGuardEndpoints (libs : Libraries) (env : Env) : Task T Unit := do
  let n ← Proc.get
  let peers ← Proc.lift (getPeers libs n)
  Proc.forEach (syncPeerEndpoints env) (sortNames peers)

/-- The first part of `SyncWireGuard`, up to the endpoints. -/
def syncPeers (libs : Libraries) (env : Env) : Task T Unit := do
  let n ← Proc.get
  let peers ← Proc.lift (getPeers libs n)
  let desired ← Proc.lift (desiredPeers n peers)
  Proc.forEach (removeStalePeer desired) (env.peerOrder n.appliedPeers.keys)
  Proc.forEach addPeer (sortNames peers)

def syncWireGuard (libs : Libraries) (env : Env) : Task T Unit := do
  syncPeers libs env
  syncWireGuardEndpoints libs env

/-- The aliases and routes of the host follow the configuration. The errors of
the commands this runs are logged, and none is returned. -/
def syncSystemState (env : Env) : Task T Unit :=
  Proc.modify fun n =>
    if n.localCfg.noNetConfigure then n
    else
      { n with
        appliedAliases := ((n.centralCfg.getRouter n.localCfg.id).map (·.addresses)).getD []
        appliedRoutes := env.sysRoutes }

/-- The key that the configuration in force has for a peer of the local node. -/
def configuredKey (libs : Libraries) (n : NylonNode T) (peer : NodeId) : Option NyPublicKey :=
  n.centralCfg.peerKey libs.toLower n.localCfg.id peer

theorem lookup_desiredPeers {n : NylonNode T} {peers : List NodeId}
    {desired : Table NodeId NyPublicKey} (h : desiredPeers n peers = .ok desired)
    (peer : NodeId) :
    desired.lookup peer =
      if peer ∈ peers then (n.centralCfg.tryGetNode peer).map (·.pubKey) else none := by
  unfold desiredPeers at h
  have hfold : ∀ (peers : List NodeId) (acc desired : Table NodeId NyPublicKey),
      peers.foldlM (fun desired peer =>
        match n.centralCfg.tryGetNode peer with
        | none => (.error (.panicked .unknownPeer) : Except Stop _)
        | some ncfg => .ok (desired.insert peer ncfg.pubKey)) acc = .ok desired →
      desired.lookup peer = if peer ∈ peers then
        (n.centralCfg.tryGetNode peer).map (·.pubKey) else acc.lookup peer := by
    intro peers
    induction peers with
    | nil =>
      intro acc desired h
      cases h
      simp
    | cons x rest ih =>
      intro acc desired h
      rw [List.foldlM_cons] at h
      cases hx : n.centralCfg.tryGetNode x with
      | none =>
        rw [hx] at h
        cases h
      | some ncfg =>
        rw [hx] at h
        rw [ih (acc.insert x ncfg.pubKey) desired h, Table.lookup_insert_eq]
        by_cases heq : peer = x
        · subst heq
          simp [hx]
        · simp [heq]
  simpa using hfold peers ∅ desired h

theorem getPeers_error {libs : Libraries} {n : NylonNode T} {e : Stop}
    (h : getPeers libs n = .error e) : e = .panicked .badGraph := by
  obtain ⟨_, _, rfl⟩ := mapError_eq_error h
  rfl

theorem desiredPeers_error {n : NylonNode T} {peers : List NodeId} {e : Stop}
    (h : desiredPeers n peers = .error e) : e = .panicked .unknownPeer := by
  unfold desiredPeers at h
  generalize (∅ : Table NodeId NyPublicKey) = acc at h
  induction peers generalizing acc with
  | nil => cases h
  | cons x rest ih =>
    rw [List.foldlM_cons] at h
    cases hx : n.centralCfg.tryGetNode x with
    | none =>
      rw [hx] at h
      cases h
      rfl
    | some ncfg =>
      rw [hx] at h
      exact ih _ h

/-- A node on which only the device and the record of its peers may differ. -/
def SameButPeers (n m : NylonNode T) : Prop :=
  m = {n with device := m.device, appliedPeers := m.appliedPeers}

/-- What synchronising the peers of `n` can do at any time: only a stale peer is
removed, and only a desired one is added. -/
structure Syncing (desired : NodeId → Option NyPublicKey) (n m : NylonNode T) : Prop where
  frame : SameButPeers n m
  closed : m.device.closed = n.device.closed
  kept : ∀ key id, n.device.peerId key = some id → m.device.peerId key = some id ∨
    ∃ peer, n.appliedPeers.lookup peer = some key ∧ desired peer ≠ some key
  known : ∀ key, (m.device.peerId key).isSome →
    (n.device.peerId key).isSome ∨ ∃ peer, desired peer = some key

def NoStale (desired : NodeId → Option NyPublicKey) (m : NylonNode T) : Prop :=
  ∀ peer key, m.appliedPeers.lookup peer = some key → desired peer = some key

/-- Every desired peer is recorded and in the device. -/
def AllAdded (desired : NodeId → Option NyPublicKey) (m : NylonNode T) : Prop :=
  ∀ peer key, desired peer = some key →
    m.appliedPeers.lookup peer = some key ∧ (m.device.peerId key).isSome

theorem SameButPeers.refl (n : NylonNode T) : SameButPeers n n := rfl

theorem SameButPeers.change {n m : NylonNode T} (h : SameButPeers n m)
    (device : PeerTable) (applied : Table NodeId NyPublicKey) :
    SameButPeers n {m with device := device, appliedPeers := applied} := by
  unfold SameButPeers at h ⊢
  rw [h]

theorem Syncing.refl (desired : NodeId → Option NyPublicKey) (n : NylonNode T) :
    Syncing desired n n :=
  ⟨SameButPeers.refl n, rfl, fun _ _ h => Or.inl h, fun _ h => Or.inl h⟩

/-- Peers may be added or changed in place. -/
theorem Syncing.change {desired : NodeId → Option NyPublicKey} {n m : NylonNode T}
    (h : Syncing desired n m) {device : PeerTable} (applied : Table NodeId NyPublicKey)
    (hclosed : device.closed = m.device.closed)
    (hkept : ∀ key id, m.device.peerId key = some id → device.peerId key = some id)
    (hknown : ∀ key, (device.peerId key).isSome →
      (m.device.peerId key).isSome ∨ ∃ peer, desired peer = some key) :
    Syncing desired n {m with device := device, appliedPeers := applied} := by
  refine ⟨h.frame.change device applied, hclosed.trans h.closed, fun key id hid => ?_,
    fun key hkey => ?_⟩
  · exact (h.kept key id hid).imp_left (hkept key id)
  · exact (hknown key hkey).elim (h.known key) Or.inr

section Removing

variable {desired : NodeId → Option NyPublicKey} {n m : NylonNode T} {peer : NodeId}
  {rest : List NodeId}

/-- A recorded peer other than those in `left` has this key and is not to keep it. -/
def StaleKey (desired : NodeId → Option NyPublicKey) (n : NylonNode T) (left : List NodeId)
    (key : NyPublicKey) : Prop :=
  ∃ peer, peer ∉ left ∧ n.appliedPeers.lookup peer = some key ∧ desired peer ≠ some key

/-- What the first loop has done when the peers in `left` are still to be looked at. -/
structure RemovedBut (desired : NodeId → Option NyPublicKey) (n : NylonNode T)
    (left : List NodeId) (m : NylonNode T) : Prop where
  frame : SameButPeers n m
  closed : m.device.closed = n.device.closed
  records : ∀ peer, m.appliedPeers.lookup peer =
    if peer ∈ left ∨ desired peer = n.appliedPeers.lookup peer then
      n.appliedPeers.lookup peer else none
  removed : ∀ key, StaleKey desired n left key → m.device.lookupPeer key = none
  kept : ∀ key, ¬ StaleKey desired n left key → m.device.lookupPeer key = n.device.lookupPeer key

theorem RemovedBut.syncing {left : List NodeId} (h : RemovedBut desired n left m) :
    Syncing desired n m := by
  refine ⟨h.frame, h.closed, fun key id hid => ?_, fun key hkey => Or.inl ?_⟩
  · by_cases hstale : StaleKey desired n left key
    · obtain ⟨peer, _, hrecord⟩ := hstale
      exact Or.inr ⟨peer, hrecord⟩
    · rw [PeerTable.peerId, h.kept key hstale]
      exact Or.inl hid
  · by_cases hstale : StaleKey desired n left key
    · rw [PeerTable.peerId, h.removed key hstale] at hkey
      cases hkey
    · rwa [PeerTable.peerId, h.kept key hstale] at hkey

/-- A peer without a record, or with the right one, needs no removal. -/
theorem RemovedBut.skip (h : RemovedBut desired n (peer :: rest) m)
    (hfine : n.appliedPeers.lookup peer = none ∨ desired peer = n.appliedPeers.lookup peer) :
    RemovedBut desired n rest m := by
  have hstale : ∀ key, StaleKey desired n rest key ↔ StaleKey desired n (peer :: rest) key := by
    intro key
    constructor
    · rintro ⟨other, hleft, hrecord, hdesired⟩
      refine ⟨other, ?_, hrecord, hdesired⟩
      rintro hmem
      rcases List.mem_cons.mp hmem with rfl | hmem
      · rcases hfine with hnone | hsame
        · rw [hnone] at hrecord
          cases hrecord
        · exact hdesired (hsame.trans hrecord)
      · exact hleft hmem
    · rintro ⟨other, hleft, hrecord, hdesired⟩
      exact ⟨other, fun hmem => hleft (List.mem_cons_of_mem _ hmem), hrecord, hdesired⟩
  refine ⟨h.frame, h.closed, fun other => ?_, fun key hkey => h.removed key ((hstale key).mp hkey),
    fun key hkey => h.kept key fun hs => hkey ((hstale key).mpr hs)⟩
  rw [h.records]
  by_cases heq : other = peer
  · subst heq
    rcases hfine with hnone | hsame
    · simp [hnone]
    · simp [hsame]
  · simp [heq]

theorem RemovedBut.remove {key : NyPublicKey} (h : RemovedBut desired n (peer :: rest) m)
    (hnodup : (peer :: rest).Nodup) (hrecord : n.appliedPeers.lookup peer = some key)
    (hdesired : desired peer ≠ some key) :
    RemovedBut desired n rest { m with
      device := m.device.removePeer key
      appliedPeers := m.appliedPeers.erase peer } := by
  have hpeer := (List.nodup_cons.mp hnodup).1
  have hstale : ∀ other, StaleKey desired n rest other ↔
      other = key ∨ StaleKey desired n (peer :: rest) other := by
    intro other
    constructor
    · rintro ⟨p, hleft, hp, hwant⟩
      by_cases heq : p = peer
      · subst heq
        rw [hrecord] at hp
        exact Or.inl (Option.some.inj hp).symm
      · exact Or.inr ⟨p, by simp [heq, hleft], hp, hwant⟩
    · rintro (rfl | ⟨p, hleft, hp, hwant⟩)
      · exact ⟨peer, hpeer, hrecord, hdesired⟩
      · exact ⟨p, fun hmem => hleft (List.mem_cons_of_mem _ hmem), hp, hwant⟩
  refine ⟨h.frame.change _ _, h.closed, fun other => ?_, fun other hother => ?_,
    fun other hother => ?_⟩
  · dsimp only
    rw [Table.lookup_erase_eq, h.records]
    by_cases heq : other = peer
    · subst heq
      simp [hpeer, hrecord, hdesired]
    · simp [heq]
  · dsimp only
    rw [PeerTable.lookupPeer_removePeer]
    split
    · rfl
    · next hne => exact h.removed other (((hstale other).mp hother).resolve_left hne)
  · dsimp only
    rw [hstale, not_or] at hother
    rw [PeerTable.lookupPeer_removePeer, if_neg hother.1]
    exact h.kept other hother.2

theorem removeStalePeer_meets {desired : Table NodeId NyPublicKey} (peer : NodeId)
    (rest : List NodeId) (fail : Stop → NylonNode T → Prop) :
    Proc.Meets (fun m => (peer :: rest).Nodup ∧ RemovedBut desired.lookup n (peer :: rest) m)
      (removeStalePeer desired peer) (Syncing desired.lookup n)
      (fun _ m => rest.Nodup ∧ RemovedBut desired.lookup n rest m) fail := by
  refine Proc.Meets.of_states fun m hm => ?_
  obtain ⟨hnodup, hremoved⟩ := hm
  have hrest := (List.nodup_cons.mp hnodup).2
  have hrecord : m.appliedPeers.lookup peer = n.appliedPeers.lookup peer := by
    rw [hremoved.records]
    simp
  unfold removeStalePeer
  refine Proc.Meets.get_bind ?_
  rw [hrecord]
  cases hpeer : n.appliedPeers.lookup peer with
  | none => exact Proc.Meets.pure ⟨hrest, hremoved.skip (Or.inl hpeer)⟩
  | some oldKey =>
    dsimp only
    split
    · next hsame =>
      exact Proc.Meets.pure ⟨hrest, hremoved.skip (Or.inr (hsame.trans hpeer.symm))⟩
    · next hstale =>
      have hafter := hremoved.remove hnodup hpeer hstale
      -- between the two writes the record is still there
      have hbetween := hafter.syncing.change m.appliedPeers rfl (fun _ _ h => h) fun _ => Or.inl
      exact Proc.Meets.modify_bind hbetween (Proc.Meets.modify hafter.syncing ⟨hrest, hafter⟩)

/-- The first loop starts with all recorded peers. -/
theorem removedBut_start (env : Env) (desired : NodeId → Option NyPublicKey) (n : NylonNode T) :
    (env.peerOrder n.appliedPeers.keys).Nodup ∧
      RemovedBut desired n (env.peerOrder n.appliedPeers.keys) n := by
  have hmem : ∀ peer, peer ∉ env.peerOrder n.appliedPeers.keys →
      n.appliedPeers.lookup peer = none := by
    intro peer hpeer
    rw [(env.peerOrder_perm _).mem_iff] at hpeer
    exact AList.lookup_eq_none.mpr fun h => hpeer (AList.mem_keys.mp h)
  refine ⟨(env.peerOrder_perm _).nodup_iff.mpr n.appliedPeers.keys_nodup,
    SameButPeers.refl n, rfl, fun peer => ?_, ?_, fun _ _ => rfl⟩
  · by_cases hpeer : peer ∈ env.peerOrder n.appliedPeers.keys
    · simp [hpeer]
    · simp [hmem peer hpeer]
  · rintro key ⟨peer, hleft, hrecord, _⟩
    rw [hmem peer hleft] at hrecord
    cases hrecord

end Removing

/-- How the synchronisation may fail: with a panic about the configuration, or
with an error when nothing stale is left. -/
def SyncFailed (desired : NodeId → Option NyPublicKey) (n : NylonNode T) (e : Stop)
    (m : NylonNode T) : Prop :=
  Syncing desired n m ∧ ((∃ err, e = .rejected err ∧ NoStale desired m) ∨
    e = .panicked .unknownPeer ∨ e = .panicked .badGraph)

section Adding

variable {base m m' : NylonNode T} {key : NyPublicKey}

def keyOf (n : NylonNode T) (peer : NodeId) : Option NyPublicKey :=
  (n.centralCfg.tryGetNode peer).map (·.pubKey)

/-- What the second loop has done for the peers in `done`. -/
structure AddedFor (base : NylonNode T) (done : List NodeId) (m : NylonNode T) : Prop where
  frame : SameButPeers base m
  records : ∀ peer, m.appliedPeers.lookup peer =
    if peer ∈ done then keyOf base peer else base.appliedPeers.lookup peer
  roams : ∀ key, m.device.roams key =
    if done.any (keyOf base · == some key) then
      some ((base.device.roams key).getD false || done.any fun peer =>
        keyOf base peer == some key && base.centralCfg.isClient peer)
    else base.device.roams key

theorem AddedFor.refl (base : NylonNode T) : AddedFor base [] base :=
  ⟨SameButPeers.refl base, by simp, by simp⟩

/-- The device has a peer for the key, which was there or is new; a client prefers
roaming. -/
structure Ensured (key : NyPublicKey) (client : Bool) (m m' : NylonNode T) : Prop where
  frame : m' = {m with device := m'.device}
  closed : m'.device.closed = m.device.closed
  found : ∃ peer, peer = (m.device.lookupPeer key).getD ⟨m.device.created, false, []⟩ ∧
    ∀ k, m'.device.lookupPeer k = if k = key then
      some {peer with preferRoaming := peer.preferRoaming || client} else m.device.lookupPeer k

theorem ensurePeer_meets {seen : NylonNode T → Prop} {fail : Stop → NylonNode T → Prop}
    (hseen : ∀ m', Ensured key false m m' → seen m') (hfail : ∀ err, fail (.rejected err) m) :
    Proc.Meets (· = m) (ensurePeer key) seen (fun _ => Ensured key false m) fail := by
  unfold ensurePeer
  refine Proc.Meets.get_bind ?_
  cases hfound : m.device.lookupPeer key with
  | some peer =>
    refine Proc.Meets.pure ⟨rfl, rfl, peer, by rw [hfound]; rfl, fun k => ?_⟩
    split
    · next heq => rw [heq, hfound, Bool.or_false]
    · rfl
  | none =>
    rw [if_neg (by simp)]
    cases hnew : m.device.newPeer key with
    | error err => exact Proc.Meets.throw (hfail err)
    | ok device =>
      obtain ⟨hclosed, hlookup⟩ := PeerTable.lookupPeer_newPeer hnew
      have hensured : Ensured key false m {m with device := device} :=
        ⟨rfl, hclosed, ⟨m.device.created, false, []⟩, by rw [hfound]; rfl, hlookup⟩
      exact Proc.Meets.modify (hseen _ hensured) hensured

theorem Ensured.prefer (h : Ensured key false m m') (client : Bool) :
    Ensured key client m
      (if client then {m' with device := m'.device.setPreferRoaming key true} else m') := by
  cases client with
  | false => exact h
  | true =>
    obtain ⟨hframe, hclosed, peer, hpeer, hlookup⟩ := h
    refine ⟨?_, (PeerTable.closed_modifyPeer _ _ _).trans hclosed, peer, hpeer, fun k => ?_⟩
    · rw [hframe]
      rfl
    · rw [if_pos rfl, PeerTable.setPreferRoaming, PeerTable.lookupPeer_modifyPeer, hlookup, hlookup]
      split
      · simp
      · rfl

theorem Ensured.roams {client : Bool} (h : Ensured key client m m') (other : NyPublicKey) :
    m'.device.roams other = if other = key then
      some ((m.device.roams key).getD false || client) else m.device.roams other := by
  obtain ⟨_, _, peer, rfl, hlookup⟩ := h
  unfold PeerTable.roams
  rw [hlookup]
  split
  · cases m.device.lookupPeer key <;> rfl
  · rfl

/-- No peer is lost or replaced. -/
theorem Ensured.syncing {desired : NodeId → Option NyPublicKey} {n : NylonNode T} {client : Bool}
    {peer : NodeId} (h : Ensured key client m m') (hm : Syncing desired n m)
    (hdesired : desired peer = some key) : Syncing desired n m' := by
  obtain ⟨hframe, hclosed, found, hfound, hlookup⟩ := h
  have hchange := hm.change m.appliedPeers hclosed (fun k id hid => ?_) fun k hk => ?_
  · rw [hframe]
    exact hchange
  · rw [PeerTable.peerId, hlookup]
    split
    · next heq =>
      obtain ⟨old, hold, rfl⟩ := Option.map_eq_some_iff.mp (heq ▸ hid)
      rw [hold] at hfound
      rw [hfound]
      rfl
    · exact hid
  · by_cases heq : k = key
    · exact Or.inr ⟨peer, heq ▸ hdesired⟩
    · rw [PeerTable.peerId, hlookup, if_neg heq] at hk
      exact Or.inl hk

theorem AddedFor.add {peer : NodeId} {done : List NodeId} (hm : AddedFor base done m)
    (hkey : keyOf base peer = some key)
    (h : Ensured key (base.centralCfg.isClient peer) m m') :
    AddedFor base (done ++ [peer])
      {m' with appliedPeers := m'.appliedPeers.insert peer key} := by
  have happlied : m'.appliedPeers = m.appliedPeers := by rw [h.frame]
  refine ⟨?_, fun other => ?_, fun other => ?_⟩
  · rw [h.frame]
    exact hm.frame.change _ _
  · dsimp only
    rw [Table.lookup_insert_eq, happlied, hm.records]
    by_cases heq : other = peer
    · simp [heq, hkey]
    · simp [heq]
  · dsimp only
    rw [h.roams, List.any_append, List.any_append]
    by_cases heq : other = key
    · subst heq
      by_cases hbefore : (done.any (keyOf base · == some other)) = true
      · simp [hm.roams, hbefore, hkey, Bool.or_assoc]
      · have hclients : (done.any fun peer => keyOf base peer == some other &&
            base.centralCfg.isClient peer) = false := by
          rw [List.any_eq_false]
          intro p hp hboth
          apply hbefore
          rw [List.any_eq_true]
          exact ⟨p, hp, (Bool.and_eq_true_iff.mp hboth).1⟩
        simp [hm.roams, hbefore, hkey, hclients]
    · have hne : (keyOf base peer == some other) = false := by
        rw [hkey]
        simpa using fun h => heq h.symm
      simp [heq, hne, hm.roams other]

end Adding

section Sync

variable {desired : NodeId → Option NyPublicKey} {n base : NylonNode T} {peers : List NodeId}

/-- The invariant of the second loop. -/
def Adding (desired : NodeId → Option NyPublicKey) (n base : NylonNode T) (peers left : List NodeId)
    (m : NylonNode T) : Prop :=
  Syncing desired n m ∧ ∃ done, done ++ left = peers ∧ AddedFor base done m

/-- Nothing stale is recorded while peers are added. -/
theorem Adding.noStale {left : List NodeId} {m : NylonNode T} (h : Adding desired n base peers left m)
    (hbase : RemovedBut desired n [] base) (hkeys : ∀ peer ∈ peers, desired peer = keyOf n peer) :
    NoStale desired m := by
  obtain ⟨_, done, rfl, hadded⟩ := h
  intro peer key hrecord
  rw [hadded.records] at hrecord
  split at hrecord
  · next hdone =>
    rw [hkeys peer (List.mem_append_left _ hdone), ← hrecord, keyOf, keyOf, hbase.frame]
  · rw [hbase.records] at hrecord
    split at hrecord
    · next hsame => exact (hsame.resolve_left List.not_mem_nil).trans hrecord
    · cases hrecord

theorem addPeer_meets {peer : NodeId} {rest : List NodeId} (hbase : RemovedBut desired n [] base)
    (hkeys : ∀ peer ∈ peers, desired peer = keyOf n peer) (hpeer : peer ∈ peers) :
    Proc.Meets (Adding desired n base peers (peer :: rest)) (addPeer peer) (Syncing desired n)
      (fun _ => Adding desired n base peers rest) (SyncFailed desired n) := by
  refine Proc.Meets.of_states fun m hm => ?_
  have hstale := hm.noStale hbase hkeys
  obtain ⟨hsync, done, hdone, hadded⟩ := hm
  have hcfg : m.centralCfg = n.centralCfg := by rw [hsync.frame]
  have hcfg' : base.centralCfg = n.centralCfg := by rw [hbase.frame]
  unfold addPeer
  refine Proc.Meets.get_bind ?_
  rw [hcfg]
  cases hnode : n.centralCfg.tryGetNode peer with
  | none => exact Proc.Meets.throw ⟨hsync, Or.inr (Or.inl rfl)⟩
  | some ncfg =>
    have hdesired : desired peer = some ncfg.pubKey := by
      rw [hkeys peer hpeer, keyOf, hnode]
      rfl
    refine (ensurePeer_meets (fun m' h => h.syncing hsync hdesired) fun err =>
      ⟨hsync, Or.inl ⟨err, rfl, hstale⟩⟩).bind fun _ => Proc.Meets.of_states fun m' h => ?_
    have hclient : m'.centralCfg.isClient peer = base.centralCfg.isClient peer := by
      rw [h.frame, hcfg']
      exact congrArg (·.isClient peer) hcfg
    have hprefers := h.prefer (base.centralCfg.isClient peer)
    rw [← hclient] at hprefers
    refine Proc.Meets.modify_bind (hprefers.syncing hsync hdesired) ?_
    generalize (if m'.centralCfg.isClient peer then
      {m' with device := m'.device.setPreferRoaming ncfg.pubKey true} else m') = m'' at hprefers ⊢
    have hrecorded := (hprefers.syncing hsync hdesired).change
      (m''.appliedPeers.insert peer ncfg.pubKey) rfl (fun _ _ h => h) fun _ => Or.inl
    refine Proc.Meets.modify hrecorded ⟨hrecorded, done ++ [peer], by simpa using hdone,
      hadded.add ?_ (hclient ▸ hprefers)⟩
    rw [keyOf, hcfg', hnode]
    rfl

end Sync

/-- Setting endpoints is all that the last loop does. -/
theorem syncWireGuardEndpoints_meets {inv seen : NylonNode T → Prop}
    {fail : Stop → NylonNode T → Prop} (libs : Libraries) (env : Env)
    (hset : ∀ m key eps, inv m → seen {m with device := m.device.setEndpoints key eps} ∧
      inv {m with device := m.device.setEndpoints key eps})
    (hfail : ∀ m e, inv m → (∃ err, e = .rejected err) ∨ e = .panicked .unknownPeer ∨
      e = .panicked .badGraph → fail e m) :
    Proc.Meets inv (syncWireGuardEndpoints libs env) seen (fun _ => inv) fail := by
  unfold syncWireGuardEndpoints
  refine Proc.Meets.of_states fun n hn => Proc.Meets.get_bind
    (Proc.Meets.lift_bind (fun peers _ => ?_) fun e he => ?_)
  · refine (Proc.Meets.forEach (l := fun _ => inv) fun peer _ _ => ?_).start hn
    unfold syncPeerEndpoints
    refine Proc.Meets.of_states fun m hm => Proc.Meets.get_bind ?_
    split
    · exact Proc.Meets.pure hm
    · split
      · exact Proc.Meets.throw (hfail m _ hm (Or.inr (Or.inl rfl)))
      · next pcfg _ =>
        split
        · next err _ => exact Proc.Meets.throw (hfail m _ hm (Or.inl ⟨err, rfl⟩))
        · next eps _ =>
          obtain ⟨hseen, hinv⟩ := hset m pcfg.pubKey eps hm
          exact Proc.Meets.modify hseen hinv
  · exact hfail n e hn (Or.inr (Or.inr (getPeers_error he)))

section Run

variable {libs : Libraries} {n m : NylonNode T}

/-- What both loops have done. -/
def PeersAdded (libs : Libraries) (n m : NylonNode T) : Prop :=
  ∃ peers desired base, getPeers libs n = .ok peers ∧ desiredPeers n peers = .ok desired ∧
    RemovedBut desired.lookup n [] base ∧ AddedFor base (sortNames peers) m

theorem configuredKey_eq {peers : List NodeId} {desired : Table NodeId NyPublicKey}
    (hpeers : getPeers libs n = .ok peers) (hdesired : desiredPeers n peers = .ok desired) :
    configuredKey libs n = desired.lookup := by
  funext peer
  rw [lookup_desiredPeers hdesired, configuredKey, CentralCfg.peerKey, mapError_eq_ok hpeers]

theorem syncPeers_meets (libs : Libraries) (env : Env) (n : NylonNode T) :
    Proc.Meets (· = n) (syncPeers libs env) (Syncing (configuredKey libs n) n)
      (fun _ m => Syncing (configuredKey libs n) n m ∧ NoStale (configuredKey libs n) m ∧
        PeersAdded libs n m) (SyncFailed (configuredKey libs n) n) := by
  unfold syncPeers
  refine Proc.Meets.get_bind (Proc.Meets.lift_bind (fun peers hpeers => ?_)
    fun e he => ⟨Syncing.refl _ n, Or.inr (Or.inr (getPeers_error he))⟩)
  refine Proc.Meets.lift_bind (fun desired hdesired => ?_)
    fun e he => ⟨Syncing.refl _ n, Or.inr (Or.inl (desiredPeers_error he))⟩
  rw [configuredKey_eq hpeers hdesired]
  have hkeys : ∀ peer ∈ sortNames peers, desired.lookup peer = keyOf n peer := by
    intro peer hpeer
    rw [lookup_desiredPeers hdesired, if_pos (mem_sortNames.mp hpeer)]
    rfl
  refine Proc.Meets.bind (m := fun _ => RemovedBut desired.lookup n []) ?_ fun _ =>
    Proc.Meets.of_states fun base hbase => ?_
  · refine (Proc.Meets.forEach (l := fun left m => left.Nodup ∧
      RemovedBut desired.lookup n left m) fun peer rest _ =>
        removeStalePeer_meets peer rest _).weaken ?_ (fun _ h => h) (fun _ _ h => h.2) fun _ _ h => h
    rintro m rfl
    exact removedBut_start env _ m
  · refine (Proc.Meets.forEach (l := Adding desired.lookup n base (sortNames peers))
      fun peer rest hpeer => addPeer_meets hbase hkeys hpeer).weaken ?_ (fun _ h => h) ?_
        fun _ _ h => h
    · rintro _ rfl
      exact ⟨hbase.syncing, [], rfl, AddedFor.refl _⟩
    · intro _ m hm
      have hstale := hm.noStale hbase hkeys
      obtain ⟨hsync, done, hdone, hadded⟩ := hm
      rw [List.append_nil] at hdone
      subst hdone
      exact ⟨hsync, hstale, peers, desired, base, hpeers, hdesired, hbase, hadded⟩

/-- Every desired peer is recorded and in the device. -/
theorem PeersAdded.allAdded (h : PeersAdded libs n m) : AllAdded (configuredKey libs n) m := by
  obtain ⟨peers, desired, base, hpeers, hdesired, hbase, hadded⟩ := h
  intro peer key hkey
  rw [configuredKey_eq hpeers hdesired] at hkey
  dsimp only at hkey
  rw [lookup_desiredPeers hdesired] at hkey
  split at hkey
  · next hmem =>
    have hsorted := mem_sortNames.mpr hmem
    have hkeyOf : keyOf base peer = some key := by
      rw [← hkey, keyOf, hbase.frame]
    have hany : (sortNames peers).any (keyOf base · == some key) = true :=
      List.any_eq_true.mpr ⟨peer, hsorted, beq_iff_eq.mpr hkeyOf⟩
    have hroams := hadded.roams key
    rw [if_pos hany, PeerTable.roams] at hroams
    refine ⟨by rw [hadded.records, if_pos hsorted, hkeyOf], ?_⟩
    obtain ⟨found, hfound, _⟩ := Option.map_eq_some_iff.mp hroams
    rw [PeerTable.peerId, hfound]
    rfl
  · cases hkey

/-- What `SyncWireGuard` does, whatever happens while it runs. -/
theorem syncWireGuard_meets (libs : Libraries) (env : Env) (n : NylonNode T) :
    Proc.Meets (· = n) (syncWireGuard libs env) (Syncing (configuredKey libs n) n)
      (fun _ m => Syncing (configuredKey libs n) n m ∧ NoStale (configuredKey libs n) m ∧
        AllAdded (configuredKey libs n) m)
      (SyncFailed (configuredKey libs n) n) := by
  rw [syncWireGuard]
  refine Proc.Meets.bind (m := fun _ m => Syncing (configuredKey libs n) n m ∧
      NoStale (configuredKey libs n) m ∧ AllAdded (configuredKey libs n) m)
    ((syncPeers_meets libs env n).weaken (fun _ h => h) (fun _ h => h)
      (fun _ m h => ⟨h.1, h.2.1, h.2.2.allAdded⟩) fun _ _ h => h) fun _ => ?_
  refine syncWireGuardEndpoints_meets libs env (fun m key eps hm => ?_) fun m e hm he => ?_
  · obtain ⟨hsync, hstale, hadded⟩ := hm
    have hids : ∀ k, (m.device.setEndpoints key eps).peerId k = m.device.peerId k :=
      fun k => PeerTable.peerId_setEndpoints _ _ k _
    have hset := hsync.change m.appliedPeers (PeerTable.closed_modifyPeer m.device key _)
      (fun k id hid => (hids k).trans hid) fun k hk => Or.inl (hids k ▸ hk)
    refine ⟨hset, hset, hstale, fun peer k hk => ?_⟩
    dsimp only
    rw [hids]
    exact hadded peer k hk
  · exact ⟨hm.1, he.imp_left fun ⟨err, herr⟩ => ⟨err, herr, hm.2.1⟩⟩

end Run

end Nylon.Core
