import Nylon.Core.Advertising
import Nylon.Core.TaskSpec

/-!
Next hops of inserted routes. A finite route leads to a neighbour or to a node
that the local node advertises, so `TableInsertRoute` finds the key of the next
hop as long as all of them are configured. Neighbours are reconciled before the
configuration changes. Advertisements for passive clients are not: they stay
until they expire, and may name a node that is gone.
-/

namespace Nylon.Core

open Lib Netip State Polyamide

/-- Every finite route that an event inserts leads to a neighbour or to a node
that is advertised. -/
theorem nextHop_of_insert {s : RouterState} {e : Event} {p : Prefix} {r : SelRoute}
    (h : RouterCall.tableInsertRoute p r ∈ (step s e).2) (hfinite : r.metric ≠ INF) :
    (∃ n ∈ s.neighbours, n.id = r.nh) ∨
      ∃ q adv, s.advertised.lookup q = some adv ∧ adv.nodeId = r.nh := by
  cases hrecompute : recompute s e with
  | none => cases (step_of_recompute_none hrecompute).2 _ h
  | some run =>
    obtain ⟨t, now⟩ := run
    obtain ⟨_, sent, hcalls, hsent⟩ := step_of_recompute_some hrecompute
    rw [hcalls] at h
    rcases List.mem_append.mp h with hother | hcompute
    · cases hsent _ hother
    rcases mem_computeRoutes_calls.mp hcompute with ⟨q, new, hnew, hcall⟩ | ⟨q, old, _, hcall⟩
    · obtain rfl : r = new := by
        unfold announcements at hcall
        rcases List.mem_append.mp hcall with hcall | hcall
        · split at hcall <;> simp_all
        · split at hcall <;> simp_all
      rcases selectedRoute_cases hnew with ⟨adv, hadv, rfl⟩ | ⟨c, hc, rfl, _⟩ | ⟨old, _, _, _, rfl⟩
      · exact Or.inr ⟨q, adv, advertised_recompute hrecompute hadv, rfl⟩
      · obtain ⟨neigh, hneigh, hcand⟩ := List.mem_filterMap.mp hc
        obtain ⟨adv, _, hcand⟩ := Option.bind_eq_some_iff.mp hcand
        have hids := ids_of_links (links_recompute hrecompute)
        have hmem : c.route.nh ∈ t.neighbours.map (·.id) := by
          have hnh : c.route.nh = neigh.id := by
            unfold candidate at hcand
            dsimp only at hcand
            split_ifs at hcand
            cases hcand
            rfl
          rw [hnh]
          exact List.mem_map_of_mem hneigh
        rw [hids] at hmem
        obtain ⟨m, hm, hmid⟩ := List.mem_map.mp hmem
        exact Or.inl ⟨m, hm, hmid⟩
      · exact absurd rfl hfinite
    · unfold retractions at hcall
      split at hcall
      · simp only [List.mem_cons, List.not_mem_nil, or_false, reduceCtorEq, false_or,
          RouterCall.tableInsertRoute.injEq] at hcall
        rw [hcall.2] at hfinite
        exact absurd rfl hfinite
      · cases hcall

variable {T : Type → Type} {n : NylonNode T}

/-- The nodes that selected routes can lead to are configured. -/
structure NextHopsKnown (n : NylonNode T) : Prop where
  neighbours : ∀ neigh ∈ n.routerState.neighbours, n.centralCfg.isNode neigh.id
  advertised : ∀ p adv, n.routerState.advertised.lookup p = some adv →
    n.centralCfg.isNode adv.nodeId

theorem NextHopsKnown.observe (h : NextHopsKnown n) (env : Env) :
    NextHopsKnown (n.observe env) := by
  constructor
  · intro neigh hneigh
    obtain ⟨old, hold, rfl⟩ := List.mem_map.mp hneigh
    exact h.neighbours old hold
  · intro p adv hadv
    change (Table.mapVal _ _).lookup p = some adv at hadv
    rw [Table.lookup_mapVal] at hadv
    obtain ⟨old, hold, rfl⟩ := Option.map_eq_some_iff.mp hadv
    have hnode := h.advertised p old hold
    split
    · exact hnode
    · exact hnode

/-- Messages and timers add neither neighbours nor advertisements. -/
theorem NextHopsKnown.step (h : NextHopsKnown n) {e : Event} (he : e.isInput) :
    NextHopsKnown {n with routerState := (Core.step n.routerState e).1} := by
  constructor
  · intro neigh hneigh
    rcases neighbourId_step hneigh with ⟨old, hold, hid⟩ | ⟨peers, rfl, _⟩
    · rw [← hid]
      exact h.neighbours old hold
    · cases he
  · intro p adv hadv
    rcases advertised_step hadv with hold | rfl | ⟨_, _, _, rfl⟩
    · exact h.advertised p adv hold
    · cases he
    · cases he

/-- One more advertisement, for a configured node. -/
theorem NextHopsKnown.advertise (h : NextHopsKnown n) (env : Env)
    {nid : NodeId} (hnid : n.centralCfg.isNode nid) (hold : Bool) (pfx : Prefix)
    (health : Health) : NextHopsKnown (advertiseClient env nid hold n pfx health) := by
  constructor
  · intro neigh hneigh
    refine h.neighbours neigh ?_
    unfold advertiseClient updatePassiveClient at hneigh
    dsimp only at hneigh
    split at hneigh <;> exact hneigh
  · intro p adv hadv
    have hcases : adv.nodeId = nid ∨ n.routerState.advertised.lookup p = some adv := by
      unfold advertiseClient updatePassiveClient at hadv
      dsimp only at hadv
      rw [Table.lookup_insert_eq] at hadv
      split at hadv
      · cases hadv
        exact Or.inl rfl
      · refine Or.inr ?_
        split at hadv <;> exact hadv
    rcases hcases with heq | hadv
    · rw [heq]
      exact hnid
    · exact h.advertised p adv hadv

theorem NextHopsKnown.scan (h : NextHopsKnown n) (env : Env) :
    NextHopsKnown (n.device.keyMap.range (scanPeer env) n) := by
  refine Table.range_invariant _ _ _ NextHopsKnown h fun m key peer _ hm => ?_
  unfold scanPeer
  split
  · exact hm
  · next nid _ =>
    dsimp only
    split
    · next hclient =>
      have hnid : m.centralCfg.isNode nid := by simp [CentralCfg.isNode, hclient]
      refine (List.foldlRecOn (motive := fun k : NylonNode T =>
        NextHopsKnown k ∧ k.centralCfg = m.centralCfg) _ _ ⟨hm, rfl⟩ ?_).1
      rintro k ⟨hk, hcfg⟩ health _
      unfold scanPrefix
      split
      · exact ⟨hk, hcfg⟩
      · split
        · exact ⟨hk.advertise env (hcfg ▸ hnid) _ _ health, hcfg⟩
        · exact ⟨hk, hcfg⟩
    · exact hm

section Update

/-- A configuration that passes the checks has every node that is advertised,
except for prefixes that become the local node's own. -/
def KeepsAdvertised (libs : Libraries) (n : NylonNode T) (cfg : CentralCfg PrefixHealth) :
    Prop :=
  ∀ next ∈ (acceptConfig libs n cfg).toOption,
    ∀ p adv, n.routerState.advertised.lookup p = some adv →
      next.isNode adv.nodeId ∨
        ((healthByPrefix (localPrefixes next n.localCfg.id)).lookup p).isSome

instance (libs : Libraries) (n : NylonNode T) (cfg : CentralCfg PrefixHealth) :
    Decidable (KeepsAdvertised libs n cfg) :=
  decidable_of_iff ((acceptConfig libs n cfg).toOption.all fun next =>
    n.routerState.advertised.entries.all fun entry =>
      next.isNode entry.2.nodeId ||
        ((healthByPrefix (localPrefixes next n.localCfg.id)).lookup entry.1).isSome) <| by
    simp only [KeepsAdvertised, Option.all_eq_true, List.all_eq_true, Bool.or_eq_true]
    exact forall₂_congr fun next _ => ⟨fun h p adv hadv =>
      h ⟨p, adv⟩ ((Table.mem_entries_iff _ p adv).mpr hadv), fun h entry hentry =>
      h entry.1 entry.2 ((Table.mem_entries_iff _ entry.1 entry.2).mp hentry)⟩

/-- Once the new configuration is in force, the next hops are configured. -/
theorem nextHopsKnown_reconciled {libs : Libraries} {env : Env} {n : NylonNode T}
    {next : CentralCfg Health} {peers : List NodeId} (hchecked : Checked n next)
    (hpeers : routerPeers libs n next = .ok peers)
    (hkept : ∀ p adv, n.routerState.advertised.lookup p = some adv →
      next.isNode adv.nodeId ∨
        ((healthByPrefix (localPrefixes next n.localCfg.id)).lookup p).isSome) :
    NextHopsKnown (reconciled libs env n next peers) := by
  have hcfg : ∀ id, (reconciled libs env n next peers).centralCfg.isNode id =
      next.isNode id := CentralCfg.isNode_mapPrefixesOf _ _ next
  constructor
  · intro neigh hneigh
    rw [reconciled_eq] at hneigh
    have hid := (mem_reconcileNeighbours hneigh).1
    rw [hcfg, CentralCfg.isNode, Bool.or_eq_true]
    exact Or.inl (isRouter_of_mem_routerPeers hpeers hid)
  · intro p adv hadv
    rw [hcfg]
    have hlookup := advertisedAs_reconcile env (withRouterState libs env n next peers) next p
    have hafter : advertisedAs (reconcileAdvertisedPrefixes env
        (withRouterState libs env n next peers) next) p = some (adv.nodeId, adv.expiry,
          adv.isPassiveHold, (reconciled libs env n next peers).metricFn.lookup p) := by
      change (Option.map _ ((reconciled libs env n next peers).routerState.advertised.lookup p)) = _
      rw [hadv]
      rfl
    rw [hafter] at hlookup
    split at hlookup
    · have hid : adv.nodeId = n.localCfg.id := congrArg Prod.fst (Option.some.inj hlookup)
      rw [hid, CentralCfg.isNode, hchecked.isRouter, Bool.true_or]
    · next hnone =>
      split at hlookup
      · cases hlookup
      · obtain ⟨old, hold, heq⟩ := Option.map_eq_some_iff.mp hlookup.symm
        have hid : old.nodeId = adv.nodeId := congrArg Prod.fst heq
        rcases hkept p old hold with hnode | hown
        · rwa [← hid]
        · rw [show (healthByPrefix (localPrefixes next n.localCfg.id)).lookup p = none from
            hnone] at hown
          cases hown

/-- The next hops stay configured while the peers are synchronised. -/
theorem Syncing.nextHopsKnown {desired : NodeId → Option NyPublicKey} {n m : NylonNode T}
    (h : Syncing desired n m) (hn : NextHopsKnown n) : NextHopsKnown m := by
  rw [h.frame]
  exact ⟨hn.neighbours, hn.advertised⟩

end Update

variable [PrefixTable T] {n : NylonNode T} {libs : Libraries}

theorem applyRouterCall_isSome {call : RouterCall}
    (h : ∀ p r, call = .tableInsertRoute p r → r.metric ≠ INF → n.centralCfg.isNode r.nh) :
    ∃ m, n.applyRouterCall call = some m := by
  have htables : ∃ tables, applyCall n.tableConfig n.tables call = some tables := by
    cases call with
    | tableInsertRoute p r =>
      by_cases hINF : r.metric = INF
      · exact ⟨_, if_pos hINF⟩
      · apply tableInsertRoute_isSome
        rw [NylonNode.tableConfig, Option.isSome_map, CentralCfg.tryGetNode_isSome]
        exact h p r rfl hINF
    | _ => exact ⟨_, rfl⟩
  obtain ⟨tables, htables⟩ := htables
  unfold NylonNode.applyRouterCall
  rw [htables, Option.bind_eq_bind, Option.bind_some]
  split
  · exact ⟨_, rfl⟩
  · exact ⟨_, rfl⟩

theorem applyRouterCalls_isSome {calls : List RouterCall}
    (h : ∀ p r, .tableInsertRoute p r ∈ calls → r.metric ≠ INF → n.centralCfg.isNode r.nh) :
    ∃ m, n.applyRouterCalls calls = some m := by
  unfold NylonNode.applyRouterCalls
  induction calls generalizing n with
  | nil => exact ⟨n, rfl⟩
  | cons call rest ih =>
    obtain ⟨k, hk⟩ : ∃ k, n.applyRouterCall call = some k :=
      applyRouterCall_isSome fun p r heq => h p r (heq ▸ List.mem_cons_self)
    rw [List.foldlM_cons, hk]
    apply ih
    intro p r hmem hfinite
    rw [applyRouterCall_frame hk]
    exact h p r (List.mem_cons_of_mem _ hmem) hfinite

/-- A router whose next hops are configured does not panic. -/
theorem NextHopsKnown.not_panics (h : NextHopsKnown n) (env : Env)
    (e : Event) : ¬ RouterPanics env e n := by
  intro hpanics
  have hobserved := h.observe env
  have hsome : ∃ m, (withEvent env e n).applyRouterCalls
      (Core.step (n.observe env).routerState e).2 = some m := by
    apply applyRouterCalls_isSome
    intro p r hmem hfinite
    rcases nextHop_of_insert hmem hfinite with ⟨neigh, hneigh, hid⟩ | ⟨q, adv, hadv, hid⟩
    · rw [← hid]
      exact hobserved.neighbours neigh hneigh
    · rw [← hid]
      exact hobserved.advertised q adv hadv
  obtain ⟨m, hm⟩ := hsome
  rw [RouterPanics, hm] at hpanics
  cases hpanics

theorem NextHopsKnown.ran {m : NylonNode T} (h : NextHopsKnown n) {env : Env} {e : Event}
    (he : e.isInput) (hran : RouterRan env e n m) : NextHopsKnown m := by
  have hstep := (h.observe env).step he
  rw [hran.frame]
  exact ⟨hstep.neighbours, hstep.advertised⟩

theorem nextHopsKnown_kept : KeptByTasks (NextHopsKnown (T := T)) (fun _ => True) (fun e n =>
      e ≠ .panicked .unknownNextHop ∧ ((∀ p, e ≠ .panicked p) → NextHopsKnown n)) where
  visible _ _ := trivial
  router env e n he hn :=
    ⟨fun m hran => hn.ran he hran, fun hpanics => absurd hpanics (hn.not_panics env e)⟩
  scan env n hn := hn.scan env
  endpoints n key eps hn := ⟨hn.neighbours, hn.advertised⟩
  system env n hn := by
    rw [withSystemState_eq]
    exact ⟨hn.neighbours, hn.advertised⟩
  links n eps hn := ⟨hn.neighbours, hn.advertised⟩
  close n hn := ⟨hn.neighbours, hn.advertised⟩
  stop e n he hn := ⟨he, fun _ => hn⟩

theorem nextHopsKnown_apply (hn : NextHopsKnown n)
    (env : Env) {cfg : CentralCfg PrefixHealth} (hcfg : KeepsAdvertised libs n cfg) :
    Proc.Meets (· = n) (applyCentralConfig libs env cfg) (fun _ => True)
      (fun _ => NextHopsKnown) (fun e m =>
        e ≠ .panicked .unknownNextHop ∧ ((∀ p, e ≠ .panicked p) → NextHopsKnown m)) := by
  refine nextHopsKnown_kept.apply hn (fun _ _ _ _ => trivial) ?_ fun p _ hp =>
    ⟨by simpa using hp, fun h => absurd rfl (h p)⟩
  intro next peers idMap m hnext hpeers hsync _
  have hrec : NextHopsKnown (reconciled libs env n next peers) :=
    nextHopsKnown_reconciled (acceptConfig_ok hnext) hpeers (hcfg next (by rw [hnext]; rfl))
  exact hsync.nextHopsKnown ⟨hrec.neighbours, hrec.advertised⟩

/-- The first neighbours and advertisements are configured. -/
theorem Started.nextHopsKnown {env : Env} {localCfg : LocalCfg}
    (h : Started libs env localCfg n) : NextHopsKnown n := by
  obtain ⟨central, peers, idMap, m, k, _, hrouter, hpeers, rfl, hsync, _, _, rfl⟩ := h
  have hfirst : NextHopsKnown (starting libs env localCfg central peers idMap : NylonNode T) := by
    constructor
    · intro neigh hneigh
      have hid := (mem_reconcileNeighbours hneigh).1
      have hpeer := isRouter_of_mem_routerPeers hpeers hid
      change (central.allocate 0).isNode neigh.id = true
      rw [CentralCfg.isNode, hpeer, Bool.true_or]
    · intro p adv hadv
      change (Table.mapVal _ _).lookup p = some adv at hadv
      rw [Table.lookup_mapVal] at hadv
      obtain ⟨_, _, rfl⟩ := Option.map_eq_some_iff.mp hadv
      change (central.allocate 0).isNode localCfg.id = true
      rw [CentralCfg.isNode, CentralCfg.allocate, CentralCfg.isRouter_map, hrouter, Bool.true_or]
  have hk := hsync.nextHopsKnown hfirst
  have hnode : ∀ id, (startAdvertisedPrefixHealth k).centralCfg.isNode id =
      k.centralCfg.isNode id := CentralCfg.isNode_mapPrefixesOf _ _ k.centralCfg
  exact ⟨fun neigh hneigh => hnode _ ▸ hk.neighbours neigh hneigh,
    fun p adv hadv => hnode _ ▸ hk.advertised p adv hadv⟩

/-- The configuration that a task applies, if any, keeps what is advertised. -/
def TaskKeepsAdvertised (libs : Libraries) (node : Option (NylonNode T)) (task : NodeTask) :
    Prop :=
  ∀ n ∈ node, ∀ cfg ∈ task.config?, KeepsAdvertised libs n cfg

theorem nextHopsKnown_perform {task : NodeTask}
    (hn : NextHopsKnown n) (htask : TaskKeepsAdvertised libs (some n) task) :
    Proc.Meets (· = n) (perform libs task) (fun _ => True) (fun _ => NextHopsKnown)
      (fun e m => e ≠ .panicked .unknownNextHop ∧
        ((∀ p, e ≠ .panicked p) → NextHopsKnown m)) := by
  refine nextHopsKnown_kept.perform hn ?_
  rintro env cfg rfl
  exact nextHopsKnown_apply hn env (htask n rfl cfg rfl)

/-- No task of a run inserts a finite route to a node that is not configured, as
long as every update keeps the nodes that are advertised. -/
theorem next_hops_known {libs : Libraries} {env : Env} {localCfg : LocalCfg}
    {cfg : CentralCfg PrefixHealth} {n m : NylonNode T} {tasks : List NodeTask}
    {task : NodeTask} (hstart : bootstrap libs env localCfg cfg = .ok n)
    (hrun : nodeRun libs n tasks = some m)
    (htasks : Transitions.Along (afterTask libs) (TaskKeepsAdvertised libs) (some n) tasks)
    (htask : TaskKeepsAdvertised libs (some m) task) :
    (perform libs task m).result ≠ .error (.panicked .unknownNextHop) := by
  have hm : NextHopsKnown m := by
    refine nodeRun_invariant (fun k task k' hk htask hafter => ?_)
      (bootstrap_ok hstart).nextHopsKnown htasks m hrun
    exact afterTask_of_meets (nextHopsKnown_perform hk htask) (fun _ _ hp h => h.2 hp) hafter
  obtain ⟨_, hend⟩ := nextHopsKnown_perform hm htask m rfl
  intro hresult
  rw [hresult] at hend
  exact hend.1 rfl

/-- The node `a` with a passive client, which has the prefix 10.0.2.0/24. -/
def withClient (timestamp : Int) (graph : List String) : CentralCfg PrefixHealth :=
  plainConfig timestamp [plainRouter "a" 1 []]
    [plainNode "phone" 9 [.static (some ⟨.v4 0x0A000200, 24, Prefix.bits24_le⟩) 10]] graph

theorem next_hops_known_detached : ∃ n m, startPlain (withClient 1 ["a, phone"]) = .ok n ∧
      nodeRun plainLibraries n [.scanPassivePeers (idleEnv 1)] = some m ∧
      (perform plainLibraries (.apply (idleEnv 2) (withClient 2 [])) m).result ≠
        .error (.panicked .unknownNextHop) := by
  have hrun : (startPlain (withClient 1 ["a, phone"])).toOption.any (fun n =>
      (nodeRun plainLibraries n [.scanPassivePeers (idleEnv 1)]).any fun m =>
        decide (KeepsAdvertised plainLibraries m (withClient 2 []))) = true := by
    decide +kernel
  obtain ⟨n, hn, hrun⟩ := exists_of_any hrun
  obtain ⟨m, hm, hkeeps⟩ := (Option.any_eq_true _ _).mp hrun
  have hscan : TaskKeepsAdvertised plainLibraries (some n) (.scanPassivePeers (idleEnv 1)) := by
    rintro _ _ _ ⟨⟩
  have hupdate : TaskKeepsAdvertised plainLibraries (some m)
      (.apply (idleEnv 2) (withClient 2 [])) := by
    rintro _ ⟨rfl⟩ _ ⟨rfl⟩
    exact of_decide_eq_true hkeeps
  exact ⟨n, m, hn, hm, next_hops_known hn hm ⟨hscan, trivial⟩ hupdate⟩

theorem removed_client_panics : ∃ n m, startPlain (withClient 1 ["a, phone"]) = .ok n ∧
      nodeRun plainLibraries n [.scanPassivePeers (idleEnv 1)] = some m ∧
      (perform plainLibraries (.apply (idleEnv 2)
        (plainConfig 2 [plainRouter "a" 1 []] [] [])) m).result =
        .error (.panicked .unknownNextHop) := by
  have hrun : (startPlain (withClient 1 ["a, phone"])).toOption.any (fun n =>
      (nodeRun plainLibraries n [.scanPassivePeers (idleEnv 1)]).any fun m =>
        decide ((perform plainLibraries (.apply (idleEnv 2)
          (plainConfig 2 [plainRouter "a" 1 []] [] [])) m).result =
            .error (.panicked .unknownNextHop))) = true := by
    decide +kernel
  obtain ⟨n, hn, hrun⟩ := exists_of_any hrun
  obtain ⟨m, hm, hpanics⟩ := (Option.any_eq_true _ _).mp hrun
  exact ⟨n, m, hn, hm, of_decide_eq_true hpanics⟩

end Nylon.Core
