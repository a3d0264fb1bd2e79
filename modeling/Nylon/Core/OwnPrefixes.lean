import Nylon.Core.HealthCalls
import Nylon.Core.KeptConfig
import Nylon.Core.TaskSpec

/-!
The prefixes of the local node over any number of updates. Health checks are
shared between the configuration in force, the advertisements and the monitors;
an update keeps the ones that would do the same, stops those it drops and starts
the new ones.
-/

namespace Nylon.Core

open Lib Netip State Polyamide

variable {T : Type → Type} {libs : Libraries} {env : Env} {n : NylonNode T}
  {next : CentralCfg Health}

section Invariant

/-- What the node keeps about its own prefixes. -/
structure OwnPrefixes (n : NylonNode T) : Prop where
  notClient : n.centralCfg.isClient n.localCfg.id = false
  distinct : (n.prefixes.map (·.settings.getPrefix)).Nodup
  valid : ∀ h ∈ n.prefixes, h.settings.getPrefix.isSome
  old : ∀ h ∈ n.prefixes, h.born ≤ n.generation
  advertised : ∀ h ∈ n.prefixes, ∀ p, h.settings.getPrefix = some p →
    advertisedAs n p = some (n.localCfg.id, maxConfigTime, false, some h)
  noOther : ∀ p own, advertisedAs n p = some own → own.1 = n.localCfg.id →
    ∃ h ∈ n.prefixes, h.settings.getPrefix = some p
  monitors : ∀ mon, mon ∈ n.running ↔ ∃ h ∈ n.prefixes,
    h.settings.isMonitored ∧ h.monitor = mon

theorem OwnPrefixes.congr {m : NylonNode T} (h : OwnPrefixes n)
    (hsame : (m.localCfg, m.centralCfg, m.generation, m.running) =
      (n.localCfg, n.centralCfg, n.generation, n.running))
    (hadvertised : ∀ p, advertisedAs m p = advertisedAs n p) : OwnPrefixes m := by
  simp only [Prod.mk.injEq] at hsame
  obtain ⟨hlocal, hcentral, hgeneration, hrunning⟩ := hsame
  have hprefixes : m.prefixes = n.prefixes := by
    rw [NylonNode.prefixes, hlocal, hcentral]
  constructor <;> simp only [hlocal, hcentral, hgeneration, hrunning, hadvertised, hprefixes]
  · exact h.notClient
  · exact h.distinct
  · exact h.valid
  · exact h.old
  · exact h.advertised
  · exact h.noOther
  · exact h.monitors

/-- The current check of a prefix. -/
theorem OwnPrefixes.lookup_iff (h : OwnPrefixes n) {p : Prefix} {c : Health} :
    (healthByPrefix n.prefixes).lookup p = some c ↔
      c ∈ n.prefixes ∧ c.settings.getPrefix = some p :=
  ⟨mem_of_healthByPrefix, fun hc => lookup_healthByPrefix h.distinct hc.1 hc.2⟩

/-- An own advertisement is lost if the new configuration lacks its prefix. -/
theorem OwnPrefixes.isLostPrefix_iff (h : OwnPrefixes n) {p : Prefix} {c : Health}
    (hc : c ∈ n.prefixes) (hp : c.settings.getPrefix = some p) :
    isLostPrefix n (healthByPrefix (localPrefixes next n.localCfg.id)) p ↔
      ∀ d ∈ localPrefixes next n.localCfg.id, d.settings.getPrefix ≠ some p := by
  obtain ⟨adv, hadv, hown⟩ := Option.map_eq_some_iff.mp (h.advertised c hc p hp)
  unfold isLostPrefix
  rw [hadv, Option.any_some, Bool.and_eq_true, and_iff_right (by simpa using congrArg (·.1) hown),
    Option.isNone_iff_eq_none]
  constructor
  · intro hnone d hd hdp
    have hsome := healthByPrefix_isSome hd hdp
    rw [hnone] at hsome
    cases hsome
  · intro hno
    by_contra hsome
    obtain ⟨d, hd⟩ := Option.ne_none_iff_exists'.mp hsome
    obtain ⟨hmem, hdp⟩ := mem_of_healthByPrefix hd
    exact hno d hmem hdp

end Invariant

section Update

/-- The local prefixes of a configuration that has passed the checks. -/
structure DesiredPrefixes (n : NylonNode T) (next : CentralCfg Health) : Prop where
  distinct : ((localPrefixes next n.localCfg.id).map (·.settings.getPrefix)).Nodup
  valid : ∀ h ∈ localPrefixes next n.localCfg.id, h.settings.getPrefix.isSome
  fresh : ∀ h ∈ localPrefixes next n.localCfg.id, h.born = n.generation + 1
  kept : localPrefixes (reuseHealth n next) n.localCfg.id =
    (localPrefixes next n.localCfg.id).map (chooseHealth n.localCfg.health
      (healthByPrefix n.prefixes))
  notClient : (reuseHealth n next).isClient n.localCfg.id = false

theorem not_isClient_of_accepted {c : CentralCfg PrefixHealth} (h : Accepted c) {id : NodeId}
    (hrouter : c.isRouter id) : c.isClient id = false := by
  rw [CentralCfg.isClient, List.any_eq_false]
  intro client hclient hid
  rw [← beq_iff_eq.mp hid, h.clientsApart client hclient] at hrouter
  cases hrouter

theorem localPrefixes_allocate (born : Nat) (c : CentralCfg PrefixHealth) {id : NodeId}
    {router : RouterCfg PrefixHealth} (h : c.getRouter id = some router) :
    localPrefixes (c.allocate born) id = router.prefixes.map (Health.mk born) := by
  have hrouter : (c.allocate born).getRouter id = some (router.map (Health.mk born)) := by
    rw [CentralCfg.allocate, CentralCfg.getRouter_map, h, Option.map_some]
  rw [localPrefixes_eq hrouter]
  rfl

theorem localPrefixes_mapPrefixesOf {c : CentralCfg Health} {id : NodeId} (f : Health → Health)
    (h : c.isRouter id) :
    localPrefixes (c.mapPrefixesOf id f) id = (localPrefixes c id).map f := by
  obtain ⟨router, hrouter⟩ := Option.isSome_iff_exists.mp
    ((CentralCfg.getRouter_isSome c id).trans h)
  have hid : router.id = id := by simpa using List.find?_some hrouter
  have hmapped := CentralCfg.getRouter_mapPrefixesOf id f c id
  rw [hrouter, Option.map_some, if_pos hid] at hmapped
  rw [localPrefixes_eq hmapped, localPrefixes_eq hrouter]

theorem desiredPrefixes_of_checked (hnext : Checked n next) : DesiredPrefixes n next := by
  obtain ⟨router, hrouter⟩ := Option.isSome_iff_exists.mp
    ((CentralCfg.getRouter_isSome next.settings n.localCfg.id).trans
      ((CentralCfg.isRouter_map _ _ _).trans hnext.isRouter))
  have hmem : router ∈ next.settings.routers := List.mem_of_find?_eq_some hrouter
  have hprefixes : localPrefixes next n.localCfg.id =
      router.prefixes.map (Health.mk (n.generation + 1)) := by
    rw [hnext.fresh]
    exact localPrefixes_allocate _ _ hrouter
  constructor
  case distinct =>
    rw [hprefixes, List.map_map]
    exact hnext.accepted.distinctPrefixes router hmem
  case valid =>
    rw [hprefixes]
    intro h hh
    obtain ⟨settings, hsettings, rfl⟩ := List.mem_map.mp hh
    exact hnext.accepted.validPrefixes router hmem settings hsettings
  case fresh =>
    rw [hprefixes]
    intro h hh
    obtain ⟨settings, _, rfl⟩ := List.mem_map.mp hh
    rfl
  case kept => exact localPrefixes_mapPrefixesOf _ hnext.isRouter
  case notClient =>
    have hclient := not_isClient_of_accepted hnext.accepted
      ((CentralCfg.isRouter_map _ _ _).trans hnext.isRouter)
    rw [← hclient, reuseHealth, CentralCfg.settings]
    simp [CentralCfg.isClient, CentralCfg.mapPrefixesOf, CentralCfg.map, NodeCfg.map,
      Function.comp_def]

theorem chooseHealth_of_differs {t : HealthTunables} {current : Table Prefix Health}
    {d : Health} {p : Prefix} (hp : d.settings.getPrefix = some p)
    (hdiffers : ∀ cur, current.lookup p = some cur → cur.settings.sameConfig t d.settings = false) :
    chooseHealth t current d = d.started t := by
  unfold chooseHealth
  rw [hp, Option.bind_some]
  split
  · rfl
  · next cur hcur => rw [hdiffers cur hcur, if_neg Bool.false_ne_true]

/-- A desired check gives way to a current one that does the same, or is started. -/
theorem chooseHealth_cases (hown : OwnPrefixes n) (hdesired : DesiredPrefixes n next)
    {d : Health} (hd : d ∈ localPrefixes next n.localCfg.id) :
    (∃ c ∈ n.prefixes, c.settings.getPrefix = d.settings.getPrefix ∧
      c.settings.sameConfig n.localCfg.health d.settings = true ∧
      chooseHealth n.localCfg.health
        (healthByPrefix n.prefixes) d = c) ∨
    (.start d ∈ prefixCalls n next ∧
      chooseHealth n.localCfg.health
        (healthByPrefix n.prefixes) d =
          d.started n.localCfg.health) := by
  obtain ⟨p, hp⟩ := Option.isSome_iff_exists.mp (hdesired.valid d hd)
  by_cases hkept : ∃ c ∈ n.prefixes,
      c.settings.getPrefix = some p ∧ c.settings.sameConfig n.localCfg.health d.settings = true
  · obtain ⟨c, hc, hcp, hsame⟩ := hkept
    exact Or.inl ⟨c, hc, hcp.trans hp.symm, hsame,
      chooseHealth_of_same hown.distinct hc (hown.valid c hc)
        ((PrefixHealth.sameConfig_iff _ _ _).mp hsame).symm⟩
  · have hdiffers : ∀ cur, (healthByPrefix n.prefixes).lookup p =
        some cur → cur.settings.sameConfig n.localCfg.health d.settings = false := by
      intro cur hcur
      obtain ⟨hc, hcp⟩ := hown.lookup_iff.mp hcur
      by_contra hsame
      exact hkept ⟨cur, hc, hcp, by simpa using hsame⟩
    exact Or.inr ⟨start_mem_prefixCalls.mpr ⟨hd, p, hp, hdiffers⟩,
      chooseHealth_of_differs hp hdiffers⟩

/-- No call is made on a check whose prefix keeps it. -/
theorem not_called_of_kept (hown : OwnPrefixes n) (hdesired : DesiredPrefixes n next)
    {c d : Health} (hc : c ∈ n.prefixes)
    (hd : d ∈ localPrefixes next n.localCfg.id)
    (hp : c.settings.getPrefix = d.settings.getPrefix)
    (hsame : c.settings.sameConfig n.localCfg.health d.settings = true) :
    ∀ call ∈ prefixCalls n next, call.monitor ≠ c.monitor := by
  rintro (h | h) hcall hmon
  · -- what is started is younger than every current check
    have hborn : h.born = c.born := congrArg Prod.fst hmon
    have hfresh := hdesired.fresh h (start_mem_prefixCalls.mp hcall).1
    have hold := hown.old c hc
    omega
  · obtain ⟨p, hcur, hwhy⟩ := stop_mem_prefixCalls.mp hcall
    obtain ⟨hh, hhp⟩ := hown.lookup_iff.mp hcur
    have hprefix : h.settings.getPrefix = c.settings.getPrefix := congrArg Prod.snd hmon
    obtain rfl : h = c := List.inj_on_of_nodup_map hown.distinct hh hc hprefix
    rcases hwhy with hlost | ⟨d', hd', hdp', hdiffers⟩
    · exact (hown.isLostPrefix_iff hc hhp).mp hlost d hd (hp.symm.trans hhp)
    · obtain rfl : d' = d := List.inj_on_of_nodup_map hdesired.distinct hd' hd
        (hdp'.trans (hhp.symm.trans hp))
      rw [hdiffers] at hsame
      cases hsame

/-- The monitors after an update are those of the checks in force. -/
theorem mem_running_iff (hown : OwnPrefixes n)
    (hdesired : DesiredPrefixes n next) (mon : Nat × Option Prefix) :
    mon ∈ (prefixCalls n next).foldl HealthCall.apply n.running ↔
      ∃ h ∈ localPrefixes (reuseHealth n next) n.localCfg.id,
        h.settings.isMonitored ∧ h.monitor = mon := by
  rw [mem_foldl_apply, hdesired.kept]
  case hapart =>
    intro h h' hstart hstop hmon hmon'
    have hborn : h'.born = h.born := congrArg Prod.fst (hmon'.trans hmon.symm)
    have hfresh := hdesired.fresh h (start_mem_prefixCalls.mp hstart).1
    obtain ⟨p, hcur, _⟩ := stop_mem_prefixCalls.mp hstop
    have hold := hown.old h' (hown.lookup_iff.mp hcur).1
    omega
  constructor
  · rintro (⟨d, hstart, hmonitored, rfl⟩ | ⟨hrunning, hnever⟩)
    · obtain ⟨hd, p, hp, hfresh⟩ := start_mem_prefixCalls.mp hstart
      refine ⟨_, List.mem_map_of_mem hd, ?_⟩
      rw [chooseHealth_of_differs hp hfresh, Health.isMonitored_started, Health.monitor_started]
      exact ⟨hmonitored, rfl⟩
    · obtain ⟨c, hc, hmonitored, rfl⟩ := (hown.monitors mon).mp hrunning
      obtain ⟨p, hp⟩ := Option.isSome_iff_exists.mp (hown.valid c hc)
      have hcur := hown.lookup_iff.mpr ⟨hc, hp⟩
      have hstays : ∃ d ∈ localPrefixes next n.localCfg.id, d.settings.getPrefix = some p := by
        by_contra hno
        push Not at hno
        exact hnever c (stop_mem_prefixCalls.mpr
          ⟨p, hcur, Or.inl ((hown.isLostPrefix_iff hc hp).mpr hno)⟩) rfl
      obtain ⟨d, hd, hdp⟩ := hstays
      have hsame : c.settings.sameConfig n.localCfg.health d.settings = true := by
        by_contra hdiffers
        exact hnever c (stop_mem_prefixCalls.mpr
          ⟨p, hcur, Or.inr ⟨d, hd, hdp, by simpa using hdiffers⟩⟩) rfl
      refine ⟨_, List.mem_map_of_mem hd, ?_⟩
      rw [chooseHealth_of_same hown.distinct hc (hown.valid c hc)
        ((PrefixHealth.sameConfig_iff _ _ _).mp hsame).symm]
      exact ⟨hmonitored, rfl⟩
  · rintro ⟨h, hh, hmonitored, rfl⟩
    obtain ⟨d, hd, rfl⟩ := List.mem_map.mp hh
    rcases chooseHealth_cases hown hdesired hd with ⟨c, hc, hp, hsame, hchosen⟩ | ⟨hstart, hchosen⟩
    · rw [hchosen] at hmonitored ⊢
      refine Or.inr ⟨(hown.monitors _).mpr ⟨c, hc, hmonitored, rfl⟩, fun h hstop => ?_⟩
      exact not_called_of_kept hown hdesired hc hd hp hsame _ hstop
    · rw [hchosen, Health.isMonitored_started] at hmonitored
      rw [hchosen, Health.monitor_started]
      exact Or.inl ⟨d, hstart, hmonitored, rfl⟩

theorem advertisedAs_reconciled_eq (hdesired : DesiredPrefixes n next) (peers : List NodeId)
    (p : Prefix) :
    (∀ d ∈ localPrefixes next n.localCfg.id, d.settings.getPrefix = some p →
      advertisedAs (reconciled libs env n next peers) p =
        some (n.localCfg.id, maxConfigTime, false, some (chooseHealth n.localCfg.health
          (healthByPrefix n.prefixes) d))) ∧
    ((∀ d ∈ localPrefixes next n.localCfg.id, d.settings.getPrefix ≠ some p) →
      advertisedAs (reconciled libs env n next peers) p =
        if (n.routerState.advertised.lookup p).any (·.nodeId = n.localCfg.id) then none
        else advertisedAs n p) := by
  rw [advertisedAs_reconciled, advertisedAs_reconcile]
  constructor
  · intro d hd hp
    rw [lookup_healthByPrefix hdesired.distinct hd hp]
  · intro hno
    cases hlookup : (healthByPrefix (localPrefixes next n.localCfg.id)).lookup p with
    | none => rfl
    | some d =>
      obtain ⟨hd, hp⟩ := mem_of_healthByPrefix hlookup
      exact absurd hp (hno d hd)

theorem running_reconciled (peers : List NodeId) : (reconciled libs env n next peers).running =
      (prefixCalls n next).foldl HealthCall.apply n.running :=
  running_reconcile_eq env (withRouterState libs env n next peers) next

theorem DesiredPrefixes.prefixes_eq {m : NylonNode T} (h : DesiredPrefixes n next)
    (hlocal : m.localCfg = n.localCfg) (hcentral : m.centralCfg = reuseHealth n next) :
    m.prefixes = (localPrefixes next n.localCfg.id).map
      (chooseHealth n.localCfg.health (healthByPrefix n.prefixes)) := by
  rw [NylonNode.prefixes, hlocal, hcentral, h.kept]

theorem OwnPrefixes.reconciled (hown : OwnPrefixes n) (hdesired : DesiredPrefixes n next)
    (peers : List NodeId) : OwnPrefixes (reconciled libs env n next peers) := by
  have hlocal : (Core.reconciled libs env n next peers).localCfg = n.localCfg := by
    rw [reconciled_eq]
    rfl
  have hcentral : (Core.reconciled libs env n next peers).centralCfg = reuseHealth n next := by
    rw [reconciled_eq]
  have hgeneration : (Core.reconciled libs env n next peers).generation = n.generation + 1 := by
    rw [reconciled_eq]
  have hprefixes := hdesired.prefixes_eq hlocal hcentral
  constructor <;> simp only [hlocal, hprefixes]
  case notClient =>
    rw [hcentral]
    exact hdesired.notClient
  case distinct =>
    rw [List.map_map]
    simpa [Function.comp_def, getPrefix_chooseHealth] using hdesired.distinct
  case valid =>
    intro h hh
    obtain ⟨d, hd, rfl⟩ := List.mem_map.mp hh
    rw [getPrefix_chooseHealth]
    exact hdesired.valid d hd
  case old =>
    rw [hgeneration]
    intro h hh
    obtain ⟨d, hd, rfl⟩ := List.mem_map.mp hh
    rcases chooseHealth_cases hown hdesired hd with ⟨c, hc, _, _, hchosen⟩ | ⟨_, hchosen⟩
    · rw [hchosen]
      exact (hown.old c hc).trans (Nat.le_succ _)
    · rw [hchosen]
      exact (hdesired.fresh d hd).le
  case advertised =>
    intro h hh p hp
    obtain ⟨d, hd, rfl⟩ := List.mem_map.mp hh
    rw [getPrefix_chooseHealth] at hp
    exact (advertisedAs_reconciled_eq hdesired peers p).1 d hd hp
  case noOther =>
    intro p own hadv hid
    by_contra hno
    push Not at hno
    rw [(advertisedAs_reconciled_eq hdesired peers p).2] at hadv
    · split at hadv
      · cases hadv
      · next hforeign =>
        obtain ⟨adv, hlookup, rfl⟩ := Option.map_eq_some_iff.mp hadv
        exact hforeign (by simpa [hlookup] using hid)
    · intro d hd hp
      exact hno _ (List.mem_map_of_mem hd) (by rw [getPrefix_chooseHealth, hp])
  case monitors =>
    rw [running_reconciled, ← hdesired.kept]
    exact mem_running_iff hown hdesired

end Update

section Applied

theorem advertisedAs_observe (env : Env) (n : NylonNode T) (p : Prefix) :
    advertisedAs (n.observe env) p = advertisedAs n p := by
  unfold advertisedAs NylonNode.observe
  dsimp only
  rw [Table.lookup_mapVal, Option.map_map]
  congr 1
  funext adv
  dsimp only [Function.comp_apply]
  split <;> rfl

variable [PrefixTable T]

/-- What follows the reconciliation leaves the own prefixes alone and reads the
metrics of all advertisements. -/
theorem ownPart_applied {k m : NylonNode T} (hsynced : Synced libs env n next k)
    (hran : RouterRan env (.computeRoutes env.now) k m) :
    ∃ peers,
      (m.localCfg, m.centralCfg, m.generation, m.running, m.metricFn) =
        (n.localCfg, reuseHealth n next, n.generation + 1,
          (reconciled libs env n next peers).running,
          (reconciled libs env n next peers).metricFn) ∧
      m.routerState.advertised =
        ((reconciled libs env n next peers).observe env).routerState.advertised := by
  obtain ⟨peers, idMap, k₀, _, hsync, _, _, rfl⟩ := hsynced
  have hbound : (bound libs env n next peers idMap).routerState =
      (reconciled libs env n next peers).routerState := rfl
  have hbound' : (bound libs env n next peers idMap).metricFn =
      (reconciled libs env n next peers).metricFn := rfl
  have hlocal : (reconciled libs env n next peers).localCfg = n.localCfg := by
    rw [reconciled_eq]
    rfl
  have hconfig : (reconciled libs env n next peers).centralCfg = reuseHealth n next := by
    rw [reconciled_eq]
  have hgeneration : (reconciled libs env n next peers).generation = n.generation + 1 := by
    rw [reconciled_eq]
  refine ⟨peers, ?_, ?_⟩
  · rw [hran.frame, withSystemState_eq, hsync.frame]
    simp only [bound, withBindings, hlocal, hconfig, hgeneration]
  · rw [hran.frame]
    change (computeRoutes _ _).1.advertised = _
    rw [computeRoutes_state, withSystemState_eq, hsync.frame]
    rfl

/-- After an update from `n` to `m` by the configuration `next`. -/
structure FollowsConfig (env : Env) (n m : NylonNode T) (next : CentralCfg Health) : Prop where
  inForce : m.centralCfg = reuseHealth n next
  own : ∀ p, (∃ adv, m.routerState.advertised.lookup p = some adv ∧ adv.nodeId = m.localCfg.id) ↔
    ∃ h ∈ m.prefixes, h.settings.getPrefix = some p
  metric : ∀ h ∈ m.prefixes, ∀ p,
    h.settings.getPrefix = some p → m.metricFn.lookup p = some h ∧
      ∀ adv, m.routerState.advertised.lookup p = some adv →
        adv.metricFn = some (h.settings.getMetric (env.lastMetric h))
  others : ∀ p, (∀ adv, n.routerState.advertised.lookup p = some adv → adv.nodeId ≠ n.localCfg.id) →
    (∀ h ∈ m.prefixes, h.settings.getPrefix ≠ some p) →
    advertisedAs m p = advertisedAs n p
  monitors : ∀ mon, mon ∈ m.running ↔ ∃ h ∈ m.prefixes,
    h.settings.isMonitored ∧ h.monitor = mon
  calls : m.running = (prefixCalls n next).foldl HealthCall.apply n.running
  kept : ∀ h ∈ n.prefixes,
    ∀ h' ∈ m.prefixes,
      h'.settings.withDefaults n.localCfg.health = h.settings.withDefaults n.localCfg.health →
      h' = h ∧ ∀ call ∈ prefixCalls n next, call.monitor ≠ h.monitor

omit [PrefixTable T] in
theorem OwnPrefixes.own_iff (h : OwnPrefixes n) (p : Prefix) :
    (∃ adv, n.routerState.advertised.lookup p = some adv ∧ adv.nodeId = n.localCfg.id) ↔
      ∃ h ∈ n.prefixes, h.settings.getPrefix = some p := by
  constructor
  · rintro ⟨adv, hadv, hid⟩
    have hown : advertisedAs n p =
        some (adv.nodeId, adv.expiry, adv.isPassiveHold, n.metricFn.lookup p) := by
      rw [advertisedAs, hadv, Option.map_some]
    exact h.noOther p _ hown hid
  · rintro ⟨c, hc, hp⟩
    obtain ⟨adv, hadv, hown⟩ := Option.map_eq_some_iff.mp (h.advertised c hc p hp)
    exact ⟨adv, hadv, congrArg Prod.fst hown⟩

omit [PrefixTable T] in
theorem OwnPrefixes.metricFn_eq (h : OwnPrefixes n) {c : Health} {p : Prefix}
    (hc : c ∈ n.prefixes) (hp : c.settings.getPrefix = some p) :
    n.metricFn.lookup p = some c := by
  obtain ⟨adv, _, hown⟩ := Option.map_eq_some_iff.mp (h.advertised c hc p hp)
  exact congrArg (·.2.2.2) hown

theorem OwnPrefixes.applied {k m : NylonNode T} (hown : OwnPrefixes n)
    (hdesired : DesiredPrefixes n next) (hsynced : Synced libs env n next k)
    (hran : RouterRan env (.computeRoutes env.now) k m) :
    OwnPrefixes m ∧ FollowsConfig env n m next := by
  obtain ⟨peers, hsame, hadvertised⟩ := ownPart_applied hsynced hran
  simp only [Prod.mk.injEq] at hsame
  obtain ⟨hlocal, hcentral, hgeneration, hrunning, hmetricFn⟩ := hsame
  have hreconciled : OwnPrefixes (Core.reconciled libs env n next peers) :=
    hown.reconciled hdesired peers
  have hviews : ∀ p, advertisedAs m p = advertisedAs (Core.reconciled libs env n next peers) p := by
    intro p
    rw [← advertisedAs_observe env (Core.reconciled libs env n next peers), advertisedAs,
      advertisedAs, hadvertised, hmetricFn]
    rfl
  have hafter : OwnPrefixes m := by
    refine hreconciled.congr ?_ hviews
    rw [hlocal, hcentral, hgeneration, hrunning, reconciled_eq]
    rfl
  have hprefixes := hdesired.prefixes_eq hlocal hcentral
  refine ⟨hafter, hcentral, hafter.own_iff, fun h hh p hp => ⟨hafter.metricFn_eq hh hp, ?_⟩, ?_,
    hafter.monitors, ?_, ?_⟩
  · intro adv hadv
    have hmetric := hafter.metricFn_eq hh hp
    rw [hmetricFn] at hmetric
    rw [hadvertised, NylonNode.observe] at hadv
    dsimp only at hadv
    rw [Table.lookup_mapVal, hmetric] at hadv
    obtain ⟨_, _, rfl⟩ := Option.map_eq_some_iff.mp hadv
    rfl
  · intro p hforeign hno
    rw [hprefixes] at hno
    rw [hviews, (advertisedAs_reconciled_eq hdesired peers p).2, if_neg]
    · intro hany
      obtain ⟨adv, hadv, hid⟩ := (Option.any_eq_true _ _).mp hany
      exact hforeign adv hadv (by simpa using hid)
    · intro d hd hp
      exact hno _ (List.mem_map_of_mem hd) (by rw [getPrefix_chooseHealth, hp])
  · rw [hrunning, running_reconciled]
  · intro h hh h' hh' hsettings
    rw [hprefixes] at hh'
    obtain ⟨d, hd, rfl⟩ := List.mem_map.mp hh'
    rw [withDefaults_chooseHealth] at hsettings
    have hp : h.settings.getPrefix = d.settings.getPrefix := by
      rw [← PrefixHealth.getPrefix_withDefaults n.localCfg.health, ← hsettings,
        PrefixHealth.getPrefix_withDefaults]
    exact ⟨chooseHealth_of_same hown.distinct hh (hown.valid h hh) hsettings,
      not_called_of_kept hown hdesired hh hd hp
        ((PrefixHealth.sameConfig_iff _ _ _).mpr hsettings.symm)⟩

end Applied

section Runs

theorem OwnPrefixes.passiveClient {nid : NodeId} {passiveHold : Bool} {p : Prefix} {h : Health}
    (hown : OwnPrefixes n) (hclient : n.centralCfg.isClient nid)
    (hforeign : ∀ own ∈ n.prefixes, own.settings.getPrefix ≠ some p) :
    OwnPrefixes (advertiseClient env nid passiveHold n p h) := by
  have hne : nid ≠ n.localCfg.id := by
    rintro rfl
    rw [hown.notClient] at hclient
    cases hclient
  have hothers : ∀ q, q ≠ p →
      advertisedAs (advertiseClient env nid passiveHold n p h) q = advertisedAs n q := by
    intro q hq
    unfold advertisedAs advertiseClient updatePassiveClient
    dsimp only
    split <;> simp [hq, RouterState.setSeqno]
  constructor
  case notClient => exact hown.notClient
  case distinct => exact hown.distinct
  case valid => exact hown.valid
  case old => exact hown.old
  case monitors => exact hown.monitors
  case advertised =>
    intro own hmem q hq
    rw [hothers q (fun heq => hforeign own hmem (heq ▸ hq))]
    exact hown.advertised own hmem q hq
  case noOther =>
    intro q own hadv hid
    by_cases hq : q = p
    · subst hq
      unfold advertisedAs advertiseClient updatePassiveClient at hadv
      simp only [AList.lookup_insert, Option.map_some, Option.some.injEq] at hadv
      exact absurd ((congrArg Prod.fst hadv).trans hid) hne
    · rw [hothers q hq] at hadv
      exact hown.noOther q own hadv hid

variable [PrefixTable T]

/-- What is read and written for the own prefixes. -/
def ownPart (n : NylonNode T) : LocalCfg × CentralCfg Health × Nat × Table Prefix Health ×
    List (Nat × Option Prefix) × Table Prefix Advertisement :=
  (n.localCfg, n.centralCfg, n.generation, n.metricFn, n.running, n.routerState.advertised)

omit [PrefixTable T] in
/-- The first advertisements, with the checks started. -/
theorem advertisedAs_started (hinitial : n.routerState.advertised = n.metricFn.mapVal fun _ h =>
      ⟨n.localCfg.id, maxConfigTime, false, some (h.settings.getMetric INF)⟩) (p : Prefix) :
    advertisedAs (startAdvertisedPrefixHealth n) p = (n.metricFn.lookup p).map fun h =>
      (n.localCfg.id, maxConfigTime, false, some (h.started n.localCfg.health)) := by
  unfold advertisedAs startAdvertisedPrefixHealth
  dsimp only
  rw [hinitial, Table.lookup_mapVal, Table.lookup_mapVal, Option.map_map]
  cases n.metricFn.lookup p <;> rfl

theorem ownPrefixes_started {localCfg : LocalCfg} {central : CentralCfg PrefixHealth}
    (hvalid : Accepted central) (hrouter : central.isRouter localCfg.id)
    (h : ownPart n = ownPart (initRouter localCfg central : NylonNode T)) :
    OwnPrefixes (startAdvertisedPrefixHealth n) := by
  simp only [ownPart, Prod.mk.injEq] at h
  obtain ⟨hlocal, hcentral, hgeneration, hmetricFn, hrunning, hadvertised⟩ := h
  change n.localCfg = localCfg at hlocal
  change n.centralCfg = central.allocate 0 at hcentral
  change n.generation = 0 at hgeneration
  change n.running = [] at hrunning
  obtain ⟨router, hfound⟩ := Option.isSome_iff_exists.mp
    ((CentralCfg.getRouter_isSome central localCfg.id).trans hrouter)
  have hmem : router ∈ central.routers := List.mem_of_find?_eq_some hfound
  have hprefixes : n.prefixes = router.prefixes.map (Health.mk 0) := by
    rw [NylonNode.prefixes, hcentral, hlocal]
    exact localPrefixes_allocate 0 central hfound
  have hstarted : (startAdvertisedPrefixHealth n).prefixes =
      n.prefixes.map (·.started n.localCfg.health) := by
    refine localPrefixes_mapPrefixesOf _ ?_
    rw [hcentral, hlocal, CentralCfg.allocate, CentralCfg.isRouter_map]
    exact hrouter
  have hgets : ∀ h : Health, (h.started n.localCfg.health).settings.getPrefix =
      h.settings.getPrefix := fun h => PrefixHealth.getPrefix_withDefaults _ _
  have hdistinct : (n.prefixes.map (·.settings.getPrefix)).Nodup := by
    rw [hprefixes, List.map_map]
    exact hvalid.distinctPrefixes router hmem
  have hcurrent : n.metricFn = healthByPrefix n.prefixes := by
    rw [hmetricFn, NylonNode.prefixes, hcentral, hlocal]
    rfl
  have hview := advertisedAs_started (n := n) (by rw [hadvertised, hmetricFn, hlocal]; rfl)
  rw [hcurrent] at hview
  constructor
  case notClient =>
    change (n.centralCfg.mapPrefixesOf n.localCfg.id _).isClient n.localCfg.id = false
    have hclient := not_isClient_of_accepted hvalid hrouter
    rw [hcentral, hlocal, ← hclient]
    simp [CentralCfg.isClient, CentralCfg.mapPrefixesOf, CentralCfg.allocate, CentralCfg.map,
      NodeCfg.map, Function.comp_def]
  case distinct =>
    rw [hstarted, List.map_map]
    simpa [Function.comp_def, hgets] using hdistinct
  case valid =>
    rw [hstarted]
    intro h hh
    obtain ⟨c, hc, rfl⟩ := List.mem_map.mp hh
    rw [hprefixes] at hc
    obtain ⟨settings, hsettings, rfl⟩ := List.mem_map.mp hc
    rw [hgets]
    exact hvalid.validPrefixes router hmem settings hsettings
  case old =>
    rw [hstarted, hprefixes]
    intro h hh
    obtain ⟨c, hc, rfl⟩ := List.mem_map.mp hh
    obtain ⟨settings, _, rfl⟩ := List.mem_map.mp hc
    exact Nat.zero_le _
  case advertised =>
    rw [hstarted]
    intro h hh p hp
    obtain ⟨c, hc, rfl⟩ := List.mem_map.mp hh
    rw [hgets] at hp
    rw [hview, lookup_healthByPrefix hdistinct hc hp]
    rfl
  case noOther =>
    rw [hstarted]
    intro p own hown _
    rw [hview] at hown
    obtain ⟨c, hlookup, _⟩ := Option.map_eq_some_iff.mp hown
    obtain ⟨hc, hp⟩ := mem_of_healthByPrefix hlookup
    exact ⟨_, List.mem_map_of_mem hc, (hgets c).trans hp⟩
  case monitors =>
    intro mon
    change mon ∈ n.running ++ _ ↔ _
    rw [hrunning, List.nil_append, hstarted]
    constructor
    · intro hmon
      obtain ⟨c, hc, rfl⟩ := List.mem_map.mp hmon
      obtain ⟨hc, hmonitored⟩ := List.mem_filter.mp hc
      refine ⟨_, List.mem_map_of_mem hc, ?_⟩
      rw [Health.isMonitored_started, Health.monitor_started]
      exact ⟨hmonitored, rfl⟩
    · rintro ⟨h, hh, hmonitored, rfl⟩
      obtain ⟨c, hc, rfl⟩ := List.mem_map.mp hh
      rw [Health.isMonitored_started] at hmonitored
      rw [Health.monitor_started]
      exact List.mem_map_of_mem (List.mem_filter.mpr ⟨hc, hmonitored⟩)

/-- The nodes that applying configurations and updates of passive clients lead to.
An update of a client is for a prefix that the configuration in force does not
give to the local node. -/
inductive ConfigRun (libs : Libraries) : NylonNode T → Prop where
  | start {localCfg : LocalCfg} {central : CentralCfg PrefixHealth} {n : NylonNode T} :
      Accepted central → central.isRouter localCfg.id →
      ownPart n = ownPart (initRouter localCfg central : NylonNode T) →
      ConfigRun libs (startAdvertisedPrefixHealth n)
  | apply {n : NylonNode T} {env : Env} {cfg : CentralCfg PrefixHealth} {r : ApplyResult} :
      ConfigRun libs n → (applyCentralConfig libs env cfg n).result = .ok r →
      ConfigRun libs (applyCentralConfig libs env cfg n).state
  | passiveClient {n : NylonNode T} {env : Env} {nid : NodeId} {passiveHold : Bool} {p : Prefix}
      {h : Health} : ConfigRun libs n → n.centralCfg.isClient nid →
      h.settings.getPrefix = some p →
      (∀ own ∈ n.prefixes, own.settings.getPrefix ≠ some p) →
      ConfigRun libs (advertiseClient env nid passiveHold n p h)

theorem ConfigRun.ownPrefixes (h : ConfigRun libs n) : OwnPrefixes n := by
  induction h with
  | start hvalid hrouter hinit => exact ownPrefixes_started hvalid hrouter hinit
  | apply _ hok ih =>
    obtain ⟨_, next, hnext, k, hsynced, hran⟩ := applied_of_ok hok
    exact (ih.applied (desiredPrefixes_of_checked (acceptConfig_ok hnext)) hsynced hran).1
  | passiveClient _ hclient _ hforeign ih => exact ih.passiveClient hclient hforeign

/-- A node that `Bootstrap` has started is the start of a run. -/
theorem configRun_of_bootstrap {localCfg : LocalCfg} {cfg : CentralCfg PrefixHealth}
    (h : bootstrap libs env localCfg cfg = .ok n) : ConfigRun libs n := by
  obtain ⟨central, peers, idMap, m, k, hvalid, hrouter, _, rfl, hsync, _, _, rfl⟩ :=
    bootstrap_ok h
  refine .start hvalid hrouter ?_
  rw [hsync.frame]
  rfl

/-- The advertised prefixes follow the configuration: after each update of a run the
own entries are the local prefixes in force with the metrics of their health
checks, entries of other nodes stay, the monitors of the local prefixes run, and a
check whose settings have not changed has neither been replaced nor called. -/
theorem advertised_follow_config {cfg : CentralCfg PrefixHealth} {r : ApplyResult}
    (hrun : ConfigRun libs n) (hok : (applyCentralConfig libs env cfg n).result = .ok r) :
    ∃ next, acceptConfig libs n cfg = .ok next ∧
      FollowsConfig env n (applyCentralConfig libs env cfg n).state next := by
  obtain ⟨_, next, hnext, k, hsynced, hran⟩ := applied_of_ok hok
  exact ⟨next, hnext, (hrun.ownPrefixes.applied
    (desiredPrefixes_of_checked (acceptConfig_ok hnext)) hsynced hran).2⟩

end Runs

section Sample

def monitoredPrefix : Prefix := ⟨.v4 0x0A000100, 24, Prefix.bits24_le⟩

def clientPrefix : Prefix := ⟨.v4 0x0A000200, 24, Prefix.bits24_le⟩

/-- A router whose prefix is monitored, and a passive client. -/
def pingedConfig (timestamp : Int) (delay : Option Time) : CentralCfg PrefixHealth :=
  plainConfig timestamp
    [plainRouter "a" 1 [.ping (some monitoredPrefix) (some (.v4 0x0A000101)) none delay "" none]]
    [plainNode "c" 3 [.static (some clientPrefix) 0]] ["a, c"]

/-- The client has been heard. -/
def hearClient (n : NylonNode PrefixMap) : NylonNode PrefixMap :=
  advertiseClient (idleEnv 1) "c" false n clientPrefix ⟨0, .static (some clientPrefix) 0⟩

/-- The default delay is written into the configuration. -/
def applyDelay : Task PrefixMap ApplyResult :=
  applyCentralConfig plainLibraries (idleEnv 2) (pingedConfig 2 (some 15000000000))

/-- The running monitor is kept, as its settings have not changed. -/
theorem advertised_follow_config_explicit_delay :
    ∃ n : NylonNode PrefixMap, startPlain (pingedConfig 1 none) = .ok n ∧
      ConfigRun plainLibraries (hearClient n) ∧
      (applyDelay (hearClient n)).result = .ok .applied ∧
      (applyDelay (hearClient n)).state.running = [(0, some monitoredPrefix)] ∧
      ∃ next, acceptConfig plainLibraries (hearClient n) (pingedConfig 2 (some 15000000000)) =
          .ok next ∧
        FollowsConfig (idleEnv 2) (hearClient n) (applyDelay (hearClient n)).state next := by
  have hrun : (startPlain (pingedConfig 1 none)).toOption.any (fun n =>
      n.centralCfg.isClient "c" &&
      n.prefixes.all
        (fun own => decide (own.settings.getPrefix ≠ some clientPrefix)) &&
      decide ((applyDelay (hearClient n)).result = .ok .applied) &&
      decide ((applyDelay (hearClient n)).state.running = [(0, some monitoredPrefix)])) =
        true := by
    decide +kernel
  obtain ⟨n, hn, hout⟩ := exists_of_any hrun
  simp only [Bool.and_eq_true, decide_eq_true_eq, List.all_eq_true] at hout
  obtain ⟨⟨⟨hclient, hforeign⟩, hresult⟩, hrunning⟩ := hout
  have hheard : ConfigRun plainLibraries (hearClient n) :=
    .passiveClient (configRun_of_bootstrap hn) hclient rfl hforeign
  exact ⟨n, hn, hheard, hresult, hrunning, advertised_follow_config hheard hresult⟩

end Sample

end Nylon.Core
