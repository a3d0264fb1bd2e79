import Nylon.Core.Advertising

/-!
What of a node stays when a configuration is installed. Each part of the node that
an update reconciles (configuration, neighbours, endpoints, advertisements,
monitors) stays the same exactly if it already is as the configuration asks for.
-/

namespace Nylon.Core

open Lib Netip State Polyamide

section Content

/-- The settings of a configuration with the defaults that the health checks of
the local node run with. -/
def content (localCfg : LocalCfg) (c : CentralCfg Health) : CentralCfg PrefixHealth :=
  (c.mapPrefixesOf localCfg.id (·.started localCfg.health)).settings

theorem content_eq (localCfg : LocalCfg) (c : CentralCfg Health) : content localCfg c =
      c.settings.mapPrefixesOf localCfg.id (·.withDefaults localCfg.health) := by
  unfold content CentralCfg.settings CentralCfg.map CentralCfg.mapPrefixesOf
  simp only [List.map_map, CentralCfg.mk.injEq, List.map_inj_left, true_and, and_true]
  intro router _
  dsimp only [Function.comp_apply, RouterCfg.map, NodeCfg.map]
  split <;> simp [Health.started]

/-- Whichever health checks are kept, the content is the one of the new
configuration. -/
theorem content_mapPrefixesOf_chooseHealth (localCfg : LocalCfg) (c : CentralCfg Health)
    (current : Table Prefix Health) :
    content localCfg (c.mapPrefixesOf localCfg.id (chooseHealth localCfg.health current)) =
      content localCfg c := by
  unfold content CentralCfg.settings CentralCfg.map CentralCfg.mapPrefixesOf
  simp only [List.map_map, CentralCfg.mk.injEq, List.map_inj_left, true_and, and_true]
  intro router _
  dsimp only [Function.comp_apply, RouterCfg.map, NodeCfg.map]
  split
  · next hid => simp [hid, Health.started, withDefaults_chooseHealth]
  · rfl

private theorem forall₂_of_map_eq {α β γ : Type} {f : α → γ} {g : β → γ} {xs : List α}
    {ys : List β} (h : xs.map f = ys.map g) :
    List.Forall₂ (fun x y => f x = g y) xs ys := by
  rwa [← List.forall₂_eq_eq_eq, List.forall₂_map_left_iff, List.forall₂_map_right_iff] at h

/-- A health check is kept if the desired one does the same. -/
theorem chooseHealth_of_same {t : HealthTunables} {current : List Health} {desired h : Health}
    (hdistinct : (current.map (·.settings.getPrefix)).Nodup) (hmem : h ∈ current)
    (hvalid : h.settings.getPrefix.isSome)
    (hsame : desired.settings.withDefaults t = h.settings.withDefaults t) :
    chooseHealth t (healthByPrefix current) desired = h := by
  obtain ⟨p, hp⟩ := Option.isSome_iff_exists.mp hvalid
  have hdesired : desired.settings.getPrefix = some p := by
    rw [← PrefixHealth.getPrefix_withDefaults t, hsame, PrefixHealth.getPrefix_withDefaults, hp]
  unfold chooseHealth
  rw [hdesired, Option.bind_some, lookup_healthByPrefix hdistinct hmem hp]
  exact if_pos ((PrefixHealth.sameConfig_iff t _ _).mpr hsame.symm)

theorem map_chooseHealth {t : HealthTunables} {current desired : List Health}
    (hdistinct : (current.map (·.settings.getPrefix)).Nodup)
    (hvalid : ∀ h ∈ current, h.settings.getPrefix.isSome)
    (hsame : desired.map (·.settings.withDefaults t) = current.map (·.settings.withDefaults t)) :
    desired.map (chooseHealth t (healthByPrefix current)) = current := by
  obtain ⟨hlength, hpairs⟩ := List.forall₂_iff_zip.mp (forall₂_of_map_eq hsame)
  have hkept : List.Forall₂ (fun d c => chooseHealth t (healthByPrefix current) d = c)
      desired current := by
    refine List.forall₂_iff_zip.mpr ⟨hlength, fun {d c} hzip => ?_⟩
    have hc := (List.of_mem_zip hzip).2
    exact chooseHealth_of_same hdistinct hc (hvalid c hc) (hpairs hzip)
  rwa [← List.forall₂_map_left_iff, List.forall₂_eq_eq_eq] at hkept

end Content

variable {T : Type → Type} {libs : Libraries} {env : Env} {n : NylonNode T}
  {next : CentralCfg Health} {peers : List NodeId}

section SameContent

theorem localPrefixes_eq {c : CentralCfg Health} {localId : NodeId}
    {router : RouterCfg Health} (h : c.getRouter localId = some router) :
    localPrefixes c localId = router.prefixes := by
  rw [localPrefixes, CentralCfg.tryGetNode, h]
  rfl

theorem getRouter_content (localCfg : LocalCfg) (c : CentralCfg Health) :
    ((content localCfg c).getRouter localCfg.id).map (·.prefixes) =
      (c.getRouter localCfg.id).map
        (·.prefixes.map fun h => h.settings.withDefaults localCfg.health) := by
  rw [content, CentralCfg.settings, CentralCfg.getRouter_map, CentralCfg.getRouter_mapPrefixesOf,
    Option.map_map, Option.map_map]
  cases hrouter : c.getRouter localCfg.id with
  | none => rfl
  | some router =>
    have hid := List.find?_some hrouter
    simp only [beq_iff_eq] at hid
    simp [hid, RouterCfg.map, NodeCfg.map, Health.started]

theorem map_id_content (localCfg : LocalCfg) (c : CentralCfg Health) :
    (content localCfg c).routers.map (·.id) = c.routers.map (·.id) := by
  unfold content CentralCfg.settings CentralCfg.map CentralCfg.mapPrefixesOf
  simp only [List.map_map, List.map_inj_left]
  intro router _
  dsimp only [Function.comp_apply, RouterCfg.map, NodeCfg.map]
  split <;> rfl

/-- A configuration of the same content keeps all health checks of the local node. -/
structure KeepsHealth (n : NylonNode T) (next : CentralCfg Health) : Prop where
  distinct : (n.prefixes.map (·.settings.getPrefix)).Nodup
  valid : ∀ h ∈ n.prefixes, h.settings.getPrefix.isSome
  same : (localPrefixes next n.localCfg.id).map (·.settings.withDefaults n.localCfg.health) =
    n.prefixes.map (·.settings.withDefaults n.localCfg.health)

/-- The current health check of a desired prefix. -/
theorem KeepsHealth.current (h : KeepsHealth n next) {d : Health}
    (hd : d ∈ localPrefixes next n.localCfg.id) :
    ∃ c p, c ∈ n.prefixes ∧ c.settings.getPrefix = some p ∧
      d.settings.getPrefix = some p ∧
      c.settings.sameConfig n.localCfg.health d.settings = true := by
  obtain ⟨c, hc, hsame⟩ := List.mem_map.mp (h.same ▸ List.mem_map_of_mem hd)
  obtain ⟨p, hp⟩ := Option.isSome_iff_exists.mp (h.valid c hc)
  refine ⟨c, p, hc, hp, ?_, (PrefixHealth.sameConfig_iff _ _ _).mpr hsame⟩
  rw [← PrefixHealth.getPrefix_withDefaults n.localCfg.health, ← hsame,
    PrefixHealth.getPrefix_withDefaults, hp]

theorem KeepsHealth.desired (h : KeepsHealth n next) {c : Health}
    (hc : c ∈ n.prefixes) :
    ∃ d ∈ localPrefixes next n.localCfg.id, d.settings.getPrefix = c.settings.getPrefix := by
  obtain ⟨d, hd, hsame⟩ := List.mem_map.mp (h.same ▸ List.mem_map_of_mem hc)
  refine ⟨d, hd, ?_⟩
  rw [← PrefixHealth.getPrefix_withDefaults n.localCfg.health, hsame,
    PrefixHealth.getPrefix_withDefaults]

theorem KeepsHealth.chooseHealth_eq (h : KeepsHealth n next) {c d : Health} {p : Prefix}
    (hd : d ∈ localPrefixes next n.localCfg.id) (hdp : d.settings.getPrefix = some p)
    (hc : c ∈ n.prefixes) (hcp : c.settings.getPrefix = some p) :
    chooseHealth n.localCfg.health
      (healthByPrefix n.prefixes) d = c := by
  obtain ⟨c', p', hc', hcp', hdp', hsame⟩ := h.current hd
  obtain rfl : p = p' := Option.some.inj (hdp.symm.trans hdp')
  obtain rfl : c = c' := List.inj_on_of_nodup_map h.distinct hc hc' (hcp.trans hcp'.symm)
  simp only [chooseHealth, hdp, Option.bind_some, lookup_healthByPrefix h.distinct hc hcp]
  exact if_pos hsame

theorem keepsHealth_of_content (hnext : Checked n next)
    (h : content n.localCfg next = content n.localCfg n.centralCfg) : KeepsHealth n next := by
  obtain ⟨router, hrouter⟩ := Option.isSome_iff_exists.mp
    ((CentralCfg.getRouter_isSome next n.localCfg.id).trans hnext.isRouter)
  obtain ⟨old, hold⟩ := Option.isSome_iff_exists.mp
    ((CentralCfg.getRouter_isSome n.centralCfg n.localCfg.id).trans hnext.wasRouter)
  have hprefixes := congrArg (fun c => (c.getRouter n.localCfg.id).map (·.prefixes)) h
  rw [getRouter_content, getRouter_content, hrouter, hold, Option.map_some, Option.map_some,
    Option.some.injEq] at hprefixes
  have hgets : router.prefixes.map (·.settings.getPrefix) =
      old.prefixes.map (·.settings.getPrefix) := by
    have := congrArg (List.map PrefixHealth.getPrefix) hprefixes
    simpa [Function.comp_def] using this
  have hsettings : router.map Health.settings ∈ next.settings.routers :=
    List.mem_map_of_mem (f := RouterCfg.map Health.settings) (List.mem_of_find?_eq_some hrouter)
  have hdistinct := hnext.accepted.distinctPrefixes _ hsettings
  have hvalid := hnext.accepted.validPrefixes _ hsettings
  have hown : n.prefixes = old.prefixes := localPrefixes_eq hold
  refine ⟨?_, ?_, ?_⟩
  · rw [hown, ← hgets]
    simpa [RouterCfg.map, NodeCfg.map, Function.comp_def] using hdistinct
  · rw [hown]
    intro c hc
    obtain ⟨d, hd, hdc⟩ := List.mem_map.mp (hgets ▸ List.mem_map_of_mem hc)
    rw [← hdc]
    exact hvalid d.settings (List.mem_map_of_mem hd)
  · rw [hown, localPrefixes_eq hrouter]
    exact hprefixes

private theorem router_of_content {localCfg : LocalCfg} {f : Health → Health}
    {router old : RouterCfg Health}
    (hsame : (if router.id = localCfg.id then
        {router with prefixes := router.prefixes.map (·.started localCfg.health)}
      else router).map Health.settings =
      (if old.id = localCfg.id then
        {old with prefixes := old.prefixes.map (·.started localCfg.health)}
      else old).map Health.settings)
    (hkept : router.id = localCfg.id → old.id = localCfg.id →
      router.prefixes.map f = old.prefixes) :
    (if router.id = localCfg.id then {router with prefixes := router.prefixes.map f}
      else router).map Health.settings = old.map Health.settings := by
  have hid : router.id = old.id := by
    have := congrArg (·.id) hsame
    revert this
    split <;> split <;> exact id
  by_cases hlocal : router.id = localCfg.id
  · rw [if_pos hlocal, if_pos (hid ▸ hlocal)] at hsame
    rw [if_pos hlocal, hkept hlocal (hid ▸ hlocal)]
    simp only [RouterCfg.map, NodeCfg.map, RouterCfg.mk.injEq, NodeCfg.mk.injEq] at hsame ⊢
    obtain ⟨⟨h₁, h₂, h₃, _, h₄⟩, h₅, h₆⟩ := hsame
    exact ⟨⟨h₁, h₂, h₃, trivial, h₄⟩, h₅, h₆⟩
  · rw [if_neg hlocal]
    rwa [if_neg hlocal, if_neg (hid ▸ hlocal)] at hsame

theorem settings_reuseHealth_iff (hnext : Checked n next) :
    (reuseHealth n next).settings = n.centralCfg.settings ↔
      content n.localCfg next = content n.localCfg n.centralCfg := by
  constructor
  · intro h
    rw [← content_mapPrefixesOf_chooseHealth n.localCfg next, content_eq, content_eq n.localCfg
      n.centralCfg, ← h]
    rfl
  · intro h
    have hkeeps := keepsHealth_of_content hnext h
    have hkept := map_chooseHealth hkeeps.distinct hkeeps.valid hkeeps.same
    have hdistinct : (next.routers.map (·.id)).Nodup := by
      have := hnext.accepted.distinctRouters
      rwa [CentralCfg.settings, CentralCfg.map, List.map_map] at this
    have hdistinct' : (n.centralCfg.routers.map (·.id)).Nodup := by
      rwa [← map_id_content n.localCfg, ← h, map_id_content]
    unfold content reuseHealth CentralCfg.settings CentralCfg.map CentralCfg.mapPrefixesOf at *
    simp only [List.map_map, CentralCfg.mk.injEq] at h ⊢
    obtain ⟨hdist, hrouters, hrest⟩ := h
    refine ⟨hdist, ?_, hrest⟩
    obtain ⟨hlength, hpairs⟩ := List.forall₂_iff_zip.mp (forall₂_of_map_eq hrouters)
    rw [← List.forall₂_eq_eq_eq, List.forall₂_map_left_iff, List.forall₂_map_right_iff]
    refine List.forall₂_iff_zip.mpr ⟨hlength, fun {router old} hzip => ?_⟩
    obtain ⟨hmem, hmem'⟩ := List.of_mem_zip hzip
    refine router_of_content (hpairs hzip) fun hlocal hlocal' => ?_
    have hrouter := CentralCfg.getRouter_of_mem hdistinct hmem
    have hold := CentralCfg.getRouter_of_mem hdistinct' hmem'
    rw [hlocal] at hrouter
    rw [hlocal'] at hold
    rw [show n.prefixes = old.prefixes from localPrefixes_eq hold] at hkept ⊢
    rwa [localPrefixes_eq hrouter] at hkept

end SameContent

/-- The neighbours stay exactly if they are the routers among the peers. -/
theorem reconcileNeighbours_eq_iff (s : RouterState) (peers : List NodeId) :
    (reconcileNeighbours s peers).neighbours = s.neighbours ↔
      ∀ id, id ∈ peers ↔ id ∈ s.neighbours.map (·.id) := by
  unfold reconcileNeighbours
  dsimp only
  constructor
  · intro h id
    -- an added neighbour would be one of the old list under an id that list lacks
    have hkept : ∀ id ∈ peers, id ∈ s.neighbours.map (·.id) := by
      intro id hid
      by_contra hnew
      have hadded : (⟨id, ∅, false, INF⟩ : Neighbour) ∈ s.neighbours := by
        rw [← h]
        exact List.mem_append_right _ (List.mem_map.mpr ⟨id, by simp_all, rfl⟩)
      exact hnew (List.mem_map_of_mem hadded)
    refine ⟨hkept id, fun hid => ?_⟩
    obtain ⟨neigh, hneigh, rfl⟩ := List.mem_map.mp hid
    rw [← h] at hneigh
    rcases List.mem_append.mp hneigh with hold | hnew
    · simpa using (List.mem_filter.mp hold).2
    · obtain ⟨added, hmem, rfl⟩ := List.mem_map.mp hnew
      rw [List.mem_insertionSort, List.mem_filter, List.mem_dedup] at hmem
      exact hmem.1
  · intro h
    have hadded : peers.dedup.filter (fun id => id ∉ s.neighbours.map (·.id)) = [] := by
      rw [List.filter_eq_nil_iff]
      intro id hid
      simpa using (h id).mp (List.mem_dedup.mp hid)
    rw [hadded, List.insertionSort_nil, List.map_nil, List.append_nil, List.filter_eq_self]
    intro neigh hneigh
    simpa using (h neigh.id).mpr (List.mem_map_of_mem hneigh)

section Monitors

/-- No monitor is stopped if no advertisement is lost. -/
theorem running_dropLostPrefixes (current desired : Table Prefix Health)
    (h : ∀ p adv, n.routerState.advertised.lookup p = some adv →
      adv.nodeId = n.localCfg.id → (desired.lookup p).isSome) :
    (dropLostPrefixes n current desired).running = n.running := by
  unfold dropLostPrefixes
  refine (Table.range_invariant _ _ _
    (fun m : NylonNode T => m.localCfg = n.localCfg ∧ m.running = n.running) ⟨rfl, rfl⟩ ?_).2
  rintro m p adv hadv ⟨hlocal, hrunning⟩
  split
  · exact ⟨hlocal, hrunning⟩
  · next hlost =>
    rw [not_or, not_not, hlocal] at hlost
    exact absurd (h p adv hadv hlost.1) hlost.2

/-- Health checks that are all kept leave the monitors alone. -/
theorem running_reconcileAdvertisedPrefixes (env : Env) (hkeeps : KeepsHealth n next)
    (hlost : ∀ p adv, n.routerState.advertised.lookup p = some adv → adv.nodeId = n.localCfg.id →
      ∃ h ∈ localPrefixes next n.localCfg.id, h.settings.getPrefix = some p) :
    (reconcileAdvertisedPrefixes env n next).running = n.running := by
  unfold reconcileAdvertisedPrefixes
  dsimp only
  have hfold : ∀ (hs : List Health) (m : NylonNode T), hs ⊆ localPrefixes next n.localCfg.id →
      m.localCfg = n.localCfg →
      (hs.foldl (advertiseDesired env
        (healthByPrefix n.prefixes)) m).running = m.running := by
    intro hs
    induction hs with
    | nil => exact fun _ _ _ => rfl
    | cons d rest ih =>
      intro m hsub hlocal
      rw [List.foldl_cons, ih _ (List.subset_of_cons_subset hsub) (by
        rw [advertiseDesired_frame]; exact hlocal)]
      obtain ⟨c, p, hc, hcp, hdp, hsame⟩ := hkeeps.current (hsub List.mem_cons_self)
      simp only [advertiseDesired, chooseMonitor, hdp, Option.bind_some, hlocal,
        lookup_healthByPrefix hkeeps.distinct hc hcp]
      exact if_pos hsame
  have hframe := dropLostPrefixes_frame n
    (healthByPrefix n.prefixes)
    (healthByPrefix (localPrefixes next n.localCfg.id))
  rw [hfold _ _ (List.Subset.refl _) (by rw [hframe]), running_dropLostPrefixes]
  intro p adv hadv hown
  obtain ⟨h, hmem, hp⟩ := hlost p adv hadv hown
  exact healthByPrefix_isSome hmem hp

end Monitors

section NoTrace

/-- The node is as it was before the call, as far as the update could change it:
the configuration with its timestamp, neighbours, endpoints, `PeerMap`,
advertisements and monitors. The configuration is offered again. -/
structure LeavesNoTrace (cfg : CentralCfg PrefixHealth) (n m : NylonNode T) : Prop where
  config : m.centralCfg.settings = n.centralCfg.settings
  neighbours : m.routerState.neighbours = n.routerState.neighbours
  endpoints : ∀ neigh ∈ n.routerState.neighbours, m.eps neigh.id = n.eps neigh.id
  peerMap : ∀ key, m.peerMap.bind (·.lookup key) = n.peerMap.bind (·.lookup key)
  advertised : ∀ p, advertisedAs m p = advertisedAs n p
  monitors : ∀ monitor, monitor ∈ m.running ↔ monitor ∈ n.running
  offered : n.centralCfg.timestamp < cfg.timestamp → m.centralCfg.timestamp < cfg.timestamp

/-- The node already is as the configuration asks for. -/
structure Conforms (libs : Libraries) (env : Env) (n : NylonNode T)
    (next : CentralCfg Health) : Prop where
  content : content n.localCfg next = content n.localCfg n.centralCfg
  neighbours : ∀ peers, routerPeers libs n next = .ok peers →
    ∀ id, id ∈ peers ↔ id ∈ n.routerState.neighbours.map (·.id)
  endpoints : ∀ neigh ∈ n.routerState.neighbours,
    EndpointsInForce (n.eps neigh.id) (desiredEndpoints libs env n next neigh.id).1
      (desiredEndpoints libs env n next neigh.id).2
  peerMap : ∀ key, n.peerMap.bind (·.lookup key) = next.pubkeyMap.lookup key
  advertised : ∀ h ∈ n.prefixes, ∀ p, h.settings.getPrefix = some p →
    advertisedAs n p = some (n.localCfg.id, maxConfigTime, false, some h)
  noOther : ∀ p adv, n.routerState.advertised.lookup p = some adv → adv.nodeId = n.localCfg.id →
    ∃ h ∈ n.prefixes, h.settings.getPrefix = some p

theorem desiredEndpoints_isRemote {id : NodeId} {ep : NylonEndpoint}
    (h : ep ∈ (desiredEndpoints libs env n next id).1) : ep.isRemote = false := by
  unfold desiredEndpoints at h
  cases hrouter : next.getRouter id with
  | none =>
    rw [hrouter] at h
    cases h
  | some router =>
    rw [hrouter] at h
    exact configuredEndpoints_isRemote h

/-- The endpoints of a neighbour stay exactly if they are those of the
configuration. -/
theorem reconciledEps_eq_iff {neigh : Neighbour} (h : neigh ∈ n.routerState.neighbours) :
    reconciledEps libs env n next neigh.id = n.eps neigh.id ↔
      EndpointsInForce (n.eps neigh.id) (desiredEndpoints libs env n next neigh.id).1
        (desiredEndpoints libs env n next neigh.id).2 := by
  have hfound : (n.routerState.getNeighbour neigh.id).isSome :=
    List.find?_isSome.mpr ⟨neigh, h, beq_self_eq_true _⟩
  unfold reconciledEps
  dsimp only
  rw [if_pos hfound]
  exact reconcileConfiguredEndpoints_eq_iff fun ep hep => desiredEndpoints_isRemote hep

/-- The advertisements stay exactly if they are those of the configuration. -/
theorem advertisedAs_reconcile_iff (env : Env) (hkeeps : KeepsHealth n next) :
    (∀ p, advertisedAs (reconcileAdvertisedPrefixes env n next) p = advertisedAs n p) ↔
      (∀ h ∈ n.prefixes, ∀ p, h.settings.getPrefix = some p →
        advertisedAs n p = some (n.localCfg.id, maxConfigTime, false, some h)) ∧
      ∀ p adv, n.routerState.advertised.lookup p = some adv → adv.nodeId = n.localCfg.id →
        ∃ h ∈ n.prefixes, h.settings.getPrefix = some p := by
  constructor
  · intro h
    refine ⟨fun c hc p hcp => ?_, fun p adv hadv hown => ?_⟩
    · obtain ⟨d, hd, hdp⟩ := hkeeps.desired hc
      obtain ⟨d', hd'⟩ := Option.isSome_iff_exists.mp
        (healthByPrefix_isSome hd (hdp.trans hcp))
      obtain ⟨hmem, hp⟩ := mem_of_healthByPrefix hd'
      rw [← h p, advertisedAs_reconcile, hd']
      dsimp only
      rw [hkeeps.chooseHealth_eq hmem hp hc hcp]
    · have hp := h p
      rw [advertisedAs_reconcile] at hp
      cases hlookup : (healthByPrefix (localPrefixes next n.localCfg.id)).lookup p with
      | some d =>
        obtain ⟨hd, hdp⟩ := mem_of_healthByPrefix hlookup
        obtain ⟨c, p', hc, hcp, hdp', _⟩ := hkeeps.current hd
        exact ⟨c, hc, hcp.trans (hdp'.symm.trans hdp)⟩
      | none => simp [hlookup, hadv, hown, advertisedAs] at hp
  · rintro ⟨hown, hother⟩ p
    rw [advertisedAs_reconcile]
    cases hlookup : (healthByPrefix (localPrefixes next n.localCfg.id)).lookup p with
    | some d =>
      obtain ⟨hd, hdp⟩ := mem_of_healthByPrefix hlookup
      obtain ⟨c, p', hc, hcp, hdp', _⟩ := hkeeps.current hd
      obtain rfl : p' = p := Option.some.inj (hdp'.symm.trans hdp)
      dsimp only
      rw [hown c hc p' hcp, hkeeps.chooseHealth_eq hd hdp hc hcp]
    | none =>
      refine if_neg fun hany => ?_
      obtain ⟨adv, hadv, hid⟩ := (Option.any_eq_true _ _).mp hany
      obtain ⟨c, hc, hcp⟩ := hother p adv hadv (by simpa using hid)
      obtain ⟨d, hd, hdp⟩ := hkeeps.desired hc
      have hsome := healthByPrefix_isSome hd (hdp.trans hcp)
      rw [hlookup] at hsome
      cases hsome

theorem advertisedAs_reconciled (peers : List NodeId) (p : Prefix) :
    advertisedAs (reconciled libs env n next peers) p =
      advertisedAs (reconcileAdvertisedPrefixes env n next) p := by
  rw [advertisedAs_reconcile]
  exact advertisedAs_reconcile env (withRouterState libs env n next peers) next p

theorem leavesNoTrace_reconciled_iff {cfg : CentralCfg PrefixHealth} (hnext : Checked n next)
    (hpeers : routerPeers libs n next = .ok peers) :
    LeavesNoTrace cfg n (reconciled libs env n next peers) ↔ Conforms libs env n next := by
  have hreconciled := reconciled_eq libs env n next peers
  constructor
  · intro h
    have hcontent : content n.localCfg next = content n.localCfg n.centralCfg := by
      rw [← settings_reuseHealth_iff hnext, ← h.config, hreconciled]
    have hkeeps := keepsHealth_of_content hnext hcontent
    obtain ⟨hown, hother⟩ := (advertisedAs_reconcile_iff env hkeeps).mp fun p =>
      (advertisedAs_reconciled peers p).symm.trans (h.advertised p)
    refine ⟨hcontent, ?_, fun neigh hneigh => ?_, fun key => ?_, hown, hother⟩
    · intro peers' hpeers'
      obtain rfl : peers = peers' := Except.ok.inj (hpeers.symm.trans hpeers')
      rw [← reconcileNeighbours_eq_iff, ← h.neighbours, hreconciled]
    · rw [← reconciledEps_eq_iff hneigh, ← h.endpoints neigh hneigh, hreconciled]
      rfl
    · rw [← h.peerMap key, hreconciled]
      rfl
  · intro h
    have hkeeps := keepsHealth_of_content hnext h.content
    have hconfig := (settings_reuseHealth_iff hnext).mpr h.content
    refine ⟨?_, ?_, fun neigh hneigh => ?_, fun key => ?_, fun p => ?_, fun monitor => ?_, ?_⟩
    · rw [hreconciled]
      exact hconfig
    · rw [hreconciled]
      exact (reconcileNeighbours_eq_iff _ _).mpr (h.neighbours peers hpeers)
    · rw [hreconciled]
      exact (reconciledEps_eq_iff hneigh).mpr (h.endpoints neigh hneigh)
    · rw [hreconciled]
      exact (h.peerMap key).symm
    · rw [advertisedAs_reconciled]
      exact (advertisedAs_reconcile_iff env hkeeps).mpr ⟨h.advertised, h.noOther⟩ p
    · have hrunning := running_reconcileAdvertisedPrefixes env
        (n := withRouterState libs env n next peers)
        ⟨hkeeps.distinct, hkeeps.valid, hkeeps.same⟩ fun p adv hadv hown => by
          obtain ⟨c, hc, hcp⟩ := h.noOther p adv hadv hown
          obtain ⟨d, hd, hdp⟩ := hkeeps.desired hc
          exact ⟨d, hd, hdp.trans hcp⟩
      exact iff_of_eq (congrArg (monitor ∈ ·) hrunning)
    · intro hfresh
      have htimestamp := congrArg CentralCfg.timestamp hconfig
      rw [hreconciled]
      exact lt_of_eq_of_lt htimestamp hfresh

end NoTrace

end Nylon.Core
