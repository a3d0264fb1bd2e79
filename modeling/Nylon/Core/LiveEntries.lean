import Nylon.Core.TaskSpec

/-!
Which peers the forwarding entries point at. An entry keeps the peer that the
device had for its next hop when the route was inserted, and a route is inserted
again only if its next hop or its reachability changes. `SyncWireGuard` replaces
the peer of a node whose key changes, and `ComputeRoutes` sees no difference.

The invariant compares an entry with the key that was recorded when the peer was
added: as long as the record of a next hop stays, its entries have the peer of
the device.
-/

namespace Nylon.Core

open Lib Netip State Polyamide

variable {T : Type → Type} [PrefixTable T]

/-- An entry of `ForwardTable` that leads to a peer. -/
def Forwards (n : NylonNode T) (e : RouteTableEntry Nat) : Prop :=
  e.blackhole = false ∧ ∃ p, PrefixTable.get n.tables.forwardTable p = some e

/-- An entry of the exit snapshot. -/
def InSnapshot (n : NylonNode T) (e : RouteTableEntry Nat) : Prop :=
  ∃ snapshot numeric, n.exitFilter = some snapshot ∧ snapshot.nodeForward.lookup numeric = some e

/-- The entry has the peer that the device holds for its next hop, if that is a
configured peer. -/
def PointsAtLivePeer (libs : Libraries) (n : NylonNode T) (e : RouteTableEntry Nat) : Prop :=
  e.nh ≠ n.localCfg.id → ∀ key, configuredKey libs n e.nh = some key →
    ∃ id, n.device.peerId key = some id ∧ e.peer = some id

/-- What the node keeps between its tasks. -/
structure EntriesTracked (n : NylonNode T) : Prop where
  recorded : ∀ id key, n.appliedPeers.lookup id = some key →
    (n.centralCfg.tryGetNode id).map (·.pubKey) = some key
  entries : n.device.closed = false → ∀ e, Forwards n e → e.nh ≠ n.localCfg.id →
    ∀ key, n.appliedPeers.lookup e.nh = some key → e.peer = n.device.peerId key
  numbered : n.nodeIdMap.isSome
  snapshot : ∀ e, InSnapshot n e → Forwards n e

section Snapshot

variable [LawfulPrefixTable T]

theorem forwards_of_forwardEntryFor {n : NylonNode T} {addrs : List (Option Addr)}
    {e : RouteTableEntry Nat} (h : n.forwardEntryFor addrs = some e) : Forwards n e := by
  unfold NylonNode.forwardEntryFor at h
  obtain ⟨addr, _, h⟩ := List.exists_of_findSome?_eq_some h
  obtain ⟨a, _, h⟩ := Option.bind_eq_some_iff.mp h
  obtain ⟨entry, hlookup, h⟩ := Option.bind_eq_some_iff.mp h
  split at h
  · cases h
  · next hblackhole =>
    cases h
    obtain ⟨p, _, _, hget, _⟩ := (LawfulPrefixTable.lookup_eq_some _ a e).mp hlookup
    simp only [Bool.or_eq_true, not_or, Bool.not_eq_true] at hblackhole
    exact ⟨hblackhole.1, p, hget⟩

/-- A snapshot that has just been built has entries of the table only. -/
theorem forwards_of_rebuilt {n : NylonNode T} {idMap : NodeIdMap} {numeric : NodeIdNumeric}
    {e : RouteTableEntry Nat}
    (h : (n.rebuildExitFilterSnapshot idMap).nodeForward.lookup numeric = some e) :
    Forwards n e := by
  unfold NylonNode.rebuildExitFilterSnapshot at h
  dsimp only at h
  revert numeric e
  refine List.foldlRecOn (motive := fun forward : Table NodeIdNumeric (RouteTableEntry Nat) =>
    ∀ {numeric e}, forward.lookup numeric = some e → Forwards n e) _ _ (by simp) ?_
  intro forward hforward node _ numeric e h
  unfold NylonNode.addNodeForward at h
  split at h
  · exact hforward h
  · split at h
    · exact hforward h
    · split at h
      · exact hforward h
      · split at h
        · exact hforward h
        · next entry hentry =>
          rw [Table.lookup_insert_eq] at h
          split at h
          · cases h
            exact forwards_of_forwardEntryFor hentry
          · exact hforward h

end Snapshot

/-- Only the fields that the invariant is about matter. -/
theorem EntriesTracked.congr {n m : NylonNode T} (hn : EntriesTracked n)
    (h : (m.localCfg, m.centralCfg, m.appliedPeers, m.nodeIdMap, m.exitFilter, m.tables) =
      (n.localCfg, n.centralCfg, n.appliedPeers, n.nodeIdMap, n.exitFilter, n.tables))
    (hclosed : m.device.closed = n.device.closed)
    (hids : ∀ key, m.device.peerId key = n.device.peerId key) : EntriesTracked m := by
  simp only [Prod.mk.injEq] at h
  obtain ⟨hlocal, hcentral, happlied, hnodeIdMap, hexit, htables⟩ := h
  have hforwards : ∀ e, Forwards m e ↔ Forwards n e := by
    intro e
    unfold Forwards
    rw [htables]
  have hsnapshot : ∀ e, InSnapshot m e ↔ InSnapshot n e := by
    intro e
    unfold InSnapshot
    rw [hexit]
  constructor
  · rw [happlied, hcentral]
    exact hn.recorded
  · rw [hclosed, hlocal, happlied]
    intro hopen e he
    rw [hforwards] at he
    simp only [hids]
    exact hn.entries hopen e he
  · rw [hnodeIdMap]
    exact hn.numbered
  · intro e he
    exact (hforwards e).mpr (hn.snapshot e ((hsnapshot e).mp he))

section Router

variable [LawfulPrefixTable T]

/-- An entry after a call was there before, is a blackhole, or has the present
peer of its next hop. -/
theorem forwardTable_applyCall {Key Peer : Type} {cfg : TableConfig Key Peer}
    {tables tables' : Tables T Peer} {call : RouterCall}
    (h : applyCall cfg tables call = some tables') {p : Prefix} {e : RouteTableEntry Peer}
    (he : PrefixTable.get tables'.forwardTable p = some e) :
    PrefixTable.get tables.forwardTable p = some e ∨ e.blackhole = true ∨
      ∃ key, cfg.pubKey e.nh = some key ∧ e.peer = cfg.lookupPeer key := by
  cases call with
  | tableInsertRoute pfx route =>
    change tableInsertRoute cfg tables pfx route = some tables' at h
    unfold tableInsertRoute at h
    split at h
    · cases h
      rw [LawfulPrefixTable.get_insert] at he
      split at he
      · cases he
        exact Or.inr (Or.inl rfl)
      · exact Or.inl he
    · obtain ⟨key, hkey, h⟩ := Option.bind_eq_some_iff.mp h
      cases h
      rw [LawfulPrefixTable.get_insert] at he
      split at he
      · cases he
        exact Or.inr (Or.inr ⟨key, hkey, rfl⟩)
      · exact Or.inl he
  | tableDeleteRoute pfx =>
    cases h
    unfold tableDeleteRoute at he
    rw [LawfulPrefixTable.get_delete] at he
    split at he
    · cases he
    · exact Or.inl he
  | _ =>
    cases h
    exact Or.inl he

theorem EntriesTracked.applyRouterCall {n m : NylonNode T} (hn : EntriesTracked n)
    {call : RouterCall} (h : n.applyRouterCall call = some m) : EntriesTracked m := by
  unfold NylonNode.applyRouterCall at h
  obtain ⟨tables, htables, h⟩ := Option.bind_eq_some_iff.mp h
  split at h
  · cases h
    exact hn
  · cases h
    obtain ⟨idMap, hidMap⟩ := Option.isSome_iff_exists.mp hn.numbered
    have hrefresh : ({n with tables := tables} : NylonNode T).refreshExitFilter =
        { n with
          tables := tables
          exitFilter := some (({n with tables := tables} :
            NylonNode T).rebuildExitFilterSnapshot idMap) } := by
      unfold NylonNode.refreshExitFilter
      rw [hidMap]
    rw [hrefresh]
    refine ⟨hn.recorded, fun hclosed e he hlocal key hkey => ?_, hn.numbered, ?_⟩
    · obtain ⟨hblackhole, p, hget⟩ := he
      rcases forwardTable_applyCall htables hget with hold | hnew | ⟨key', hpub, hpeer⟩
      · exact hn.entries hclosed e ⟨hblackhole, p, hold⟩ hlocal key hkey
      · rw [hblackhole] at hnew
        cases hnew
      · have heq := (hn.recorded e.nh key hkey).symm.trans hpub
        cases heq
        exact hpeer
    · rintro e ⟨snapshot, numeric, hsnapshot, hlookup⟩
      cases hsnapshot
      exact forwards_of_rebuilt hlookup

theorem EntriesTracked.applyRouterCalls {n m : NylonNode T} (hn : EntriesTracked n)
    {calls : List RouterCall} (h : n.applyRouterCalls calls = some m) : EntriesTracked m := by
  unfold NylonNode.applyRouterCalls at h
  induction calls generalizing n with
  | nil =>
    cases h
    exact hn
  | cons call rest ih =>
    rw [List.foldlM_cons] at h
    obtain ⟨k, hcall, hrest⟩ := Option.bind_eq_some_iff.mp h
    exact ih (hn.applyRouterCall hcall) hrest

theorem EntriesTracked.ran {n m : NylonNode T} (hn : EntriesTracked n) {env : Env}
    {e : Event} (h : RouterRan env e n m) : EntriesTracked m :=
  (hn.congr rfl rfl fun _ => rfl : EntriesTracked (withEvent env e n)).applyRouterCalls h

theorem entriesTracked_kept : KeptByTasks (EntriesTracked (T := T)) (fun _ => True)
      (fun e n => (∀ p, e ≠ .panicked p) → EntriesTracked n) where
  visible _ _ := trivial
  router env e n _ hn := ⟨fun m hran => hn.ran hran, fun _ _ => hn⟩
  scan env n hn := by
    rw [scanPassivePeers_frame env n]
    exact hn.congr rfl rfl fun _ => rfl
  endpoints n key eps hn :=
    hn.congr rfl (PeerTable.closed_modifyPeer _ _ _) (PeerTable.peerId_setEndpoints _ _ · _)
  system env n hn := by
    rw [withSystemState_eq]
    exact hn.congr rfl rfl fun _ => rfl
  links n eps hn := hn.congr rfl rfl fun _ => rfl
  close n hn := ⟨hn.recorded, nofun, hn.numbered, hn.snapshot⟩
  stop _ _ _ hn _ := hn

end Router

section Update

variable (libs : Libraries) (n : NylonNode T)

/-- The next hop of an entry keeps its peer: it was added under the key that it
has in the new configuration, the device still has the peer, and no node that was
added under the same key gives it up. -/
def KeepsPeerOf (next : CentralCfg Health) (e : RouteTableEntry Nat) : Prop :=
  ∀ key ∈ next.peerKey libs.toLower n.localCfg.id e.nh,
    n.appliedPeers.lookup e.nh = some key ∧ (n.device.peerId key).isSome ∧
      ∀ other old, n.appliedPeers.lookup other = some old → old = key →
        next.peerKey libs.toLower n.localCfg.id other = some key

instance (next : CentralCfg Health) (e : RouteTableEntry Nat) :
    Decidable (KeepsPeerOf libs n next e) :=
  decidable_of_iff ((next.peerKey libs.toLower n.localCfg.id e.nh).all fun key =>
    decide (n.appliedPeers.lookup e.nh = some key) && (n.device.peerId key).isSome &&
      n.appliedPeers.entries.all fun entry => decide (entry.2 = key →
        next.peerKey libs.toLower n.localCfg.id entry.1 = some key)) <| by
    simp only [KeepsPeerOf, Option.all_eq_true, Bool.and_eq_true, decide_eq_true_eq,
      List.all_eq_true, Option.mem_def, and_assoc]
    exact forall₂_congr fun key _ => and_congr_right fun _ => and_congr_right fun _ =>
      ⟨fun h => Table.forall_lookup h, fun h entry hentry =>
        h entry.1 entry.2 ((Table.mem_entries_iff _ entry.1 entry.2).mp hentry)⟩

/-- A configuration that passes the checks keeps the peers of all next hops. -/
def KeepsEntryPeers (cfg : CentralCfg PrefixHealth) : Prop :=
  ∀ next ∈ (acceptConfig libs n cfg).toOption, n.device.closed = false →
    ∀ e, Forwards n e → e.nh ≠ n.localCfg.id → KeepsPeerOf libs n next e

variable {libs n} {env : Env} {next : CentralCfg Health} {peers : List NodeId} {idMap : NodeIdMap}

theorem configuredKey_bound (peer : NodeId) :
    configuredKey libs (bound libs env n next peers idMap) peer =
      next.peerKey libs.toLower n.localCfg.id peer := by
  rw [bound, reconciled_eq]
  exact CentralCfg.peerKey_mapPrefixesOf libs.toLower _ _ next _ peer

/-- Entries keep their peers while those of the device are synchronised. -/
theorem EntriesTracked.synced [LawfulPrefixTable T] {m : NylonNode T} (hn : EntriesTracked n)
    (hkept : n.device.closed = false → ∀ e, Forwards n e → e.nh ≠ n.localCfg.id →
      KeepsPeerOf libs n next e)
    (hsync : Syncing (configuredKey libs (bound libs env n next peers idMap))
      (bound libs env n next peers idMap) m)
    (hstale : NoStale (configuredKey libs (bound libs env n next peers idMap)) m) :
    EntriesTracked m := by
  have hbound : (bound libs env n next peers idMap).localCfg = n.localCfg ∧
      (bound libs env n next peers idMap).tables = n.tables ∧
      (bound libs env n next peers idMap).device = n.device ∧
      (bound libs env n next peers idMap).appliedPeers = n.appliedPeers := by
    rw [bound, reconciled_eq]
    exact ⟨rfl, rfl, rfl, rfl⟩
  obtain ⟨hlocal, htables, hdevice, happlied⟩ := hbound
  have hframe := hsync.frame
  have hforwards : ∀ e, Forwards m e ↔ Forwards n e := by
    intro e
    unfold Forwards
    rw [hframe, ← htables]
  constructor
  · intro id key hid
    rw [hframe]
    exact CentralCfg.tryGetNode_of_peerKey libs.toLower (hstale id key hid)
  · intro hopen e he hnh key hkey
    rw [hforwards] at he
    rw [hsync.closed, hdevice] at hopen
    rw [hframe] at hnh
    have hnh : e.nh ≠ n.localCfg.id := hlocal ▸ hnh
    have hconfigured := hstale e.nh key hkey
    rw [configuredKey_bound] at hconfigured
    obtain ⟨hrecorded, hpresent, hshared⟩ := hkept hopen e he hnh key hconfigured
    obtain ⟨id, hid⟩ := Option.isSome_iff_exists.mp hpresent
    rw [hn.entries hopen e he hnh key hrecorded, hid]
    rcases hsync.kept key id (hdevice ▸ hid) with hsame | ⟨other, hother, hlost⟩
    · exact hsame.symm
    · rw [configuredKey_bound] at hlost
      exact absurd (hshared other key (happlied ▸ hother) rfl) hlost
  · rw [hframe]
    rfl
  · rintro e ⟨snapshot, numeric, hsnapshot, hlookup⟩
    rw [hframe] at hsnapshot
    cases hsnapshot
    obtain ⟨hblackhole, p, hget⟩ := forwards_of_rebuilt hlookup
    refine (hforwards e).mpr ⟨hblackhole, p, ?_⟩
    rw [← htables]
    exact hget

variable [LawfulPrefixTable T]

theorem entriesTracked_apply (hn : EntriesTracked n) (env : Env)
    {cfg : CentralCfg PrefixHealth} (hcfg : KeepsEntryPeers libs n cfg) :
    Proc.Meets (· = n) (applyCentralConfig libs env cfg) (fun _ => True)
      (fun _ => EntriesTracked)
      (fun e m => (∀ p, e ≠ .panicked p) → EntriesTracked m) := by
  exact entriesTracked_kept.apply hn (fun _ _ _ _ => trivial)
    (fun next _ _ m hnext _ hsync hstale => hn.synced (hcfg next (by rw [hnext]; rfl)) hsync hstale)
    fun p _ _ h => absurd rfl (h p)

omit [LawfulPrefixTable T] in
/-- An update that succeeds has added every configured peer. -/
theorem allAdded_of_applied {m : NylonNode T} (hran : ∃ k, Synced libs env n next k ∧
    RouterRan env (.computeRoutes env.now) k m) : AllAdded (configuredKey libs m) m := by
  obtain ⟨_, ⟨peers, idMap, k, _, hsync, _, hadded, rfl⟩, hran⟩ := hran
  intro peer key hkey
  rw [hran.frame, withSystemState_eq] at hkey ⊢
  refine hadded peer key ?_
  rw [← hkey, hsync.frame]
  rfl

end Update

/-- Entries that are tracked lead to live peers once every configured peer has
been added. -/
theorem EntriesTracked.live {libs : Libraries} {n : NylonNode T} (hn : EntriesTracked n)
    (hadded : AllAdded (configuredKey libs n) n) {e : RouteTableEntry Nat}
    (he : Forwards n e) : PointsAtLivePeer libs n e := by
  intro hlocal key hkey
  obtain ⟨hrecorded, hpresent⟩ := hadded e.nh key hkey
  obtain ⟨id, hid⟩ := Option.isSome_iff_exists.mp hpresent
  have hopen : n.device.closed = false := by
    by_contra hclosed
    rw [PeerTable.peerId_of_closed (by simpa using hclosed)] at hid
    cases hid
  exact ⟨id, hid, (hn.entries hopen e he hlocal key hrecorded).trans hid⟩

section Runs

variable [LawfulPrefixTable T]

/-- A node that has just started forwards nothing. -/
theorem Started.entriesTracked {libs : Libraries} {env : Env} {localCfg : LocalCfg}
    {n : NylonNode T} (h : Started libs env localCfg n) : EntriesTracked n := by
  obtain ⟨central, peers, idMap, m, k, _, _, _, rfl, hsync, hstale, _, rfl⟩ := h
  have hframe := hsync.frame
  have hnone : ∀ e, ¬ Forwards (starting libs env localCfg central peers idMap : NylonNode T)
      e := by
    rintro e ⟨_, p, hget⟩
    rw [show (starting libs env localCfg central peers idMap : NylonNode T).tables.forwardTable =
      PrefixTable.empty from rfl, LawfulPrefixTable.get_empty] at hget
    cases hget
  constructor
  · intro id key hid
    have hkey := CentralCfg.tryGetNode_of_peerKey libs.toLower (hstale id key hid)
    unfold startAdvertisedPrefixHealth
    dsimp only
    rw [CentralCfg.tryGetNode_mapPrefixesOf _ _ _ fun _ _ => rfl, hframe]
    exact hkey
  · intro _ e he
    refine absurd ?_ (hnone e)
    unfold Forwards startAdvertisedPrefixHealth at he
    rw [hframe] at he
    exact he
  · unfold startAdvertisedPrefixHealth
    rw [hframe]
    rfl
  · rintro e ⟨snapshot, numeric, hsnapshot, hlookup⟩
    unfold startAdvertisedPrefixHealth at hsnapshot
    rw [hframe] at hsnapshot
    cases hsnapshot
    exact absurd (forwards_of_rebuilt hlookup) (hnone e)

/-- The configuration that a task applies, if any, keeps the peers of next hops. -/
def TaskKeepsEntryPeers (libs : Libraries) (node : Option (NylonNode T)) (task : NodeTask) :
    Prop :=
  ∀ n ∈ node, ∀ cfg ∈ task.config?, KeepsEntryPeers libs n cfg

/-- After a successful update all entries lead to live peers, in every run whose
updates keep the peers of the next hops. -/
theorem entries_point_at_live_peers {libs : Libraries} {env env' : Env} {localCfg : LocalCfg}
    {cfg cfg' : CentralCfg PrefixHealth} {n m : NylonNode T} {tasks : List NodeTask}
    {r : ApplyResult} (hstart : bootstrap libs env localCfg cfg = .ok n)
    (hrun : nodeRun libs n tasks = some m)
    (htasks : Transitions.Along (afterTask libs) (TaskKeepsEntryPeers libs) (some n) tasks)
    (hcfg : KeepsEntryPeers libs m cfg')
    (happly : (applyCentralConfig libs env' cfg' m).result = .ok r) :
    ∀ e, Forwards (applyCentralConfig libs env' cfg' m).state e ∨
        InSnapshot (applyCentralConfig libs env' cfg' m).state e →
      PointsAtLivePeer libs (applyCentralConfig libs env' cfg' m).state e := by
  have hm : EntriesTracked m := by
    refine nodeRun_invariant (fun k task k' hk htask hafter => ?_)
      (bootstrap_ok hstart).entriesTracked htasks m hrun
    refine afterTask_of_meets (entriesTracked_kept.perform hk ?_) (fun _ _ hp h => h hp) hafter
    rintro env cfg rfl
    exact entriesTracked_apply hk env (htask k rfl cfg rfl)
  obtain ⟨_, htracked⟩ := entriesTracked_apply hm env' hcfg m rfl
  rw [happly] at htracked
  obtain ⟨_, _, _, hran⟩ := applied_of_ok happly
  have hadded := allAdded_of_applied hran
  rintro e (he | he)
  · exact htracked.live hadded he
  · exact htracked.live hadded (htracked.snapshot e he)

end Runs

/-- Neighbours `a` and `b`, where `b` has the prefix 10.0.1.0/24. -/
def withPrefix (timestamp : Int) (key : NyPublicKey) : CentralCfg PrefixHealth :=
  plainConfig timestamp [plainRouter "a" 1 [], plainRouter "b" key
    [.static (some ⟨.v4 0x0A000100, 24, Prefix.bits24_le⟩) 0]] [] ["a, b"]

/-- The announcement of that prefix. -/
def prefixAnnounced : List NodeTask :=
  [.control (idleEnv 1) "b" [.routeUpdate ⟨⟨"b", ⟨.v4 0x0A000100, 24, Prefix.bits24_le⟩⟩, ⟨0, 10⟩⟩]]

/-- A table that can be listed is checked entry by entry. -/
theorem keepsEntryPeers_of_entries {libs : Libraries} {n : NylonNode PrefixMap}
    {cfg : CentralCfg PrefixHealth}
    (h : (acceptConfig libs n cfg).toOption.all (fun next =>
      n.tables.forwardTable.entries.entries.all fun entry =>
        decide (KeepsPeerOf libs n next entry.2)) = true) : KeepsEntryPeers libs n cfg := by
  rintro next hnext _ e ⟨_, p, hget⟩ _
  have hentries := (Option.all_eq_true _ _).mp h next hnext
  have hentry := List.all_eq_true.mp hentries ⟨p.masked, e⟩
    ((Table.mem_entries_iff _ p.masked e).mpr hget)
  exact of_decide_eq_true hentry

theorem entries_point_at_live_peers_same_key :
    ∃ n m : NylonNode PrefixMap, startPlain (withPrefix 1 2) = .ok n ∧
      nodeRun plainLibraries n prefixAnnounced = some m ∧
      ∃ e, Forwards (applyCentralConfig plainLibraries (idleEnv 2) (withPrefix 2 2) m).state e ∧
        PointsAtLivePeer plainLibraries
          (applyCentralConfig plainLibraries (idleEnv 2) (withPrefix 2 2) m).state e := by
  have hrun : (startPlain (withPrefix 1 2)).toOption.any (fun n =>
      (nodeRun plainLibraries n prefixAnnounced).any fun m =>
        let out := applyCentralConfig plainLibraries (idleEnv 2) (withPrefix 2 2) m
        decide (out.result = .ok .applied) &&
        decide (PrefixTable.get out.state.tables.forwardTable
          ⟨.v4 0x0A000100, 24, by decide⟩ = some ⟨"b", some 0, false⟩) &&
        (acceptConfig plainLibraries m (withPrefix 2 2)).toOption.all (fun next =>
          m.tables.forwardTable.entries.entries.all fun entry =>
            decide (KeepsPeerOf plainLibraries m next entry.2))) = true := by
    decide +kernel
  obtain ⟨n, hn, hrun⟩ := exists_of_any hrun
  obtain ⟨m, hm, hout⟩ := (Option.any_eq_true _ _).mp hrun
  simp only [Bool.and_eq_true, decide_eq_true_eq] at hout
  obtain ⟨⟨hresult, hentry⟩, hkeeps⟩ := hout
  have hannounced : TaskKeepsEntryPeers plainLibraries (some n)
      (.control (idleEnv 1) "b"
        [.routeUpdate ⟨⟨"b", ⟨.v4 0x0A000100, 24, by decide⟩⟩, ⟨0, 10⟩⟩]) := by
    rintro _ _ _ ⟨⟩
  have hforwards : Forwards (applyCentralConfig plainLibraries (idleEnv 2) (withPrefix 2 2)
      m).state _ := ⟨rfl, _, hentry⟩
  exact ⟨n, m, hn, hm, _, hforwards, entries_point_at_live_peers hn hm ⟨hannounced, trivial⟩
    (keepsEntryPeers_of_entries hkeeps) hresult _ (Or.inl hforwards)⟩

theorem changed_key_leaves_old_peer :
    ∃ n m : NylonNode PrefixMap, startPlain (withPrefix 1 2) = .ok n ∧
      nodeRun plainLibraries n prefixAnnounced = some m ∧
      (applyCentralConfig plainLibraries (idleEnv 2) (withPrefix 2 3) m).result = .ok .applied ∧
      ∃ e, Forwards (applyCentralConfig plainLibraries (idleEnv 2) (withPrefix 2 3) m).state e ∧
        ¬ PointsAtLivePeer plainLibraries
          (applyCentralConfig plainLibraries (idleEnv 2) (withPrefix 2 3) m).state e := by
  have hrun : (startPlain (withPrefix 1 2)).toOption.any (fun n =>
      (nodeRun plainLibraries n prefixAnnounced).any fun m =>
        let out := applyCentralConfig plainLibraries (idleEnv 2) (withPrefix 2 3) m
        decide (out.result = .ok .applied) &&
        decide (PrefixTable.get out.state.tables.forwardTable
          ⟨.v4 0x0A000100, 24, by decide⟩ = some ⟨"b", some 0, false⟩) &&
        decide (out.state.localCfg.id = "a") &&
        decide (configuredKey plainLibraries out.state "b" = some 3) &&
        decide (out.state.device.peerId 3 = some 1)) = true := by
    decide +kernel
  obtain ⟨n, hn, hrun⟩ := exists_of_any hrun
  obtain ⟨m, hm, hout⟩ := (Option.any_eq_true _ _).mp hrun
  simp only [Bool.and_eq_true, decide_eq_true_eq] at hout
  obtain ⟨⟨⟨⟨hresult, hentry⟩, hlocal⟩, hkey⟩, hpeer⟩ := hout
  refine ⟨n, m, hn, hm, hresult, _, ⟨rfl, _, hentry⟩, fun hlive => ?_⟩
  obtain ⟨id, hid, hsame⟩ := hlive (by rw [hlocal]; decide) 3 hkey
  rw [hpeer] at hid
  cases hid
  cases hsame

end Nylon.Core
