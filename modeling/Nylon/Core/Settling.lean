import Nylon.Core.SettlingRank
import Mathlib.Data.Finset.Lattice.Fold

/-!
Repeated runs of `computeRoutes` come to rest while nothing else happens: the entry
of each prefix is kept from some run on, and a run that keeps all entries makes no
call. This needs that no neighbour offers the node its own source for a prefix the
node advertises through that same neighbour. The code takes the offer and the
advertisement for one route and does not look at the router-id, and the selection
may then change between three routes forever.
-/

namespace Nylon.Core

open State Netip Lib Lib.Settling

def recomputed (s : RouterState) (now : Time) (k : ℕ) : RouterState :=
  (fun t => (computeRoutes t now).1)^[k] s

/-- A run that leaves both tables as they are and makes no call. -/
def Quiet (s : RouterState) (now : Time) : Prop :=
  (computeRoutes s now).2 = [] ∧
    (∀ p, (computeRoutes s now).1.routes.lookup p = s.routes.lookup p) ∧
    ∀ src, (computeRoutes s now).1.sources.lookup src = s.sources.lookup src

/-- All runs from some point on are quiet. -/
def Settles (s : RouterState) (now : Time) : Prop :=
  ∃ K, ∀ k, K ≤ k → Quiet (recomputed s now k) now

section Runs

variable {s : RouterState} {now : Time}

/-- A run that keeps every entry makes no call and keeps the source table. -/
theorem quiet_of_kept (hkeyed : Keyed s)
    (hkeeps : ∀ p, finalRoute s now p = s.routes.lookup p) : Quiet s now := by
  have hnotLost : ∀ p, losesRoute s now p = false := by
    intro p
    by_contra hlost
    rw [Bool.not_eq_false] at hlost
    have hkept := hkeeps p
    cases hold : s.routes.lookup p with
    | none => simp [losesRoute, hold] at hlost
    | some old =>
      have hfinite : old.metric ≠ INF := by
        intro hINF
        simp [losesRoute, hold, hINF] at hlost
      simp only [finalRoute, hold, hlost, if_true, Option.some.injEq] at hkept
      exact hfinite (congrArg (fun r : SelRoute => r.metric) hkept).symm
  have hselected : ∀ p, selectedRoute s now p = s.routes.lookup p := by
    intro p
    rw [← hkeeps p, finalRoute, hnotLost p]
    cases s.routes.lookup p <;> simp
  have hunchanged : ∀ r : SelRoute,
      needsInsert (some r) r = false ∧ needsUpdate s (some r) r = false := by
    intro r
    simp [needsInsert, needsUpdate]
  refine ⟨List.eq_nil_iff_forall_not_mem.mpr fun call hcall => ?_, fun p => ?_, fun src => ?_⟩
  · rcases mem_computeRoutes_calls.mp hcall with ⟨p, new, hnew, hmem⟩ | ⟨p, old, _, hmem⟩
    · rw [hselected p] at hnew
      simp [announcements, hnew, hunchanged new] at hmem
    · simp [retractions, hnotLost p] at hmem
  · rw [lookup_computeRoutes, hkeeps p]
  · rw [computeRoutes_state]
    refine (lookup_announcedSources hkeyed now src).trans ?_
    rw [hselected src.pfx]
    cases hr : s.routes.lookup src.pfx with
    | none => rfl
    | some r => simp [hunchanged r]

/-- Nothing in the state is about the prefix. -/
structure Blank (s : RouterState) (p : Prefix) : Prop where
  routes : s.routes.lookup p = none
  advertised : s.advertised.lookup p = none
  stored : ∀ n ∈ s.neighbours, n.routes.lookup p = none

theorem Blank.finalRoute {p : Prefix} (h : Blank s p) (now : Time) : finalRoute s now p = none := by
  have hnone : usableRoutes s p = [] := by
    rw [List.eq_nil_iff_forall_not_mem]
    intro route hmem
    obtain ⟨hn, hst, _⟩ := mem_usableRoutes.mp hmem
    rw [h.stored route.1 hn] at hst
    cases hst
  simp [Core.finalRoute, selectedRoute, candidates_eq_map, hnone, bestCandidate, incumbent,
    heldRoute, h.routes, h.advertised]

theorem Blank.computeRoutes {p : Prefix} (h : Blank s p) (now : Time) :
    Blank (computeRoutes s now).1 p := by
  constructor
  case routes => rw [lookup_computeRoutes, h.finalRoute now]
  case advertised => rw [advertised_computeRoutes, h.advertised]
  case stored =>
    intro n hn
    rw [computeRoutes_state] at hn
    obtain ⟨m, hm, rfl⟩ := List.mem_map.mp hn
    rw [lookup_smoothNeighbour, h.stored m hm, Option.map_none]

/-- A state is about finitely many prefixes. -/
theorem exists_prefixes (s : RouterState) : ∃ prefixes : List Prefix,
    ∀ p, p ∉ prefixes → Blank s p := by
  refine ⟨s.routes.keys ++ s.advertised.keys ++
    s.neighbours.flatMap (fun n => n.routes.keys), fun p hp => ?_⟩
  simp only [List.mem_append, List.mem_flatMap, not_or, not_exists, not_and] at hp
  constructor
  case routes => exact AList.lookup_eq_none.mpr fun h => hp.1.1 (AList.mem_keys.mp h)
  case advertised => exact AList.lookup_eq_none.mpr fun h => hp.1.2 (AList.mem_keys.mp h)
  case stored =>
    intro n hn
    exact AList.lookup_eq_none.mpr fun h => hp.2 n hn (AList.mem_keys.mp h)

theorem recomputed_succ (s : RouterState) (now : Time) (k : ℕ) :
    recomputed s now (k + 1) = (computeRoutes (recomputed s now k) now).1 :=
  Function.iterate_succ_apply' _ _ _

theorem Settleable.recomputed (h : Settleable s) (now : Time) (k : ℕ) :
    Settleable (recomputed s now k) := by
  induction k with
  | zero => exact h
  | succ k ih =>
    rw [recomputed_succ]
    exact settleable_computeRoutes ih now

theorem Blank.recomputed {p : Prefix} (h : Blank s p) (now : Time) (k : ℕ) :
    Blank (recomputed s now k) p := by
  induction k with
  | zero => exact h
  | succ k ih =>
    rw [recomputed_succ]
    exact ih.computeRoutes now

/-- From some run on the entry of a prefix is kept. -/
theorem Settleable.entry_settles (h : Settleable s) (now : Time) (p : Prefix) :
    ∃ K, ∀ k, K ≤ k → finalRoute (Core.recomputed s now k) now p =
      (Core.recomputed s now k).routes.lookup p := by
  have hstep : ∀ k,
      (finalRoute (Core.recomputed s now k) now p = (Core.recomputed s now k).routes.lookup p ∧
        rank (Core.recomputed s now (k + 1)) now p ≤ rank (Core.recomputed s now k) now p) ∨
      rank (Core.recomputed s now (k + 1)) now p < rank (Core.recomputed s now k) now p := by
    intro k
    rw [recomputed_succ]
    cases hadv : (Core.recomputed s now k).advertised.lookup p with
    | none => exact (h.recomputed now k).rank_learned hadv
    | some adv => exact (h.recomputed now k).rank_advertised hadv
  refine eventually_quiet (fun k => rank (Core.recomputed s now k) now p) ?_ ?_
  · intro k _
    exact (hstep k).elim And.right le_of_lt
  · intro k hmoves
    exact (hstep k).resolve_left fun hkept => hmoves hkept.1

theorem Settleable.settles (h : Settleable s) (now : Time) : Settles s now := by
  obtain ⟨prefixes, hblank⟩ := exists_prefixes s
  choose K hK using h.entry_settles now
  refine ⟨prefixes.toFinset.sup K, fun k hk => ?_⟩
  refine quiet_of_kept (h.recomputed now k).keyed fun p => ?_
  by_cases hp : p ∈ prefixes
  · exact hK p k ((Finset.le_sup (List.mem_toFinset.mpr hp)).trans hk)
  · have hrest := (hblank p hp).recomputed now k
    rw [hrest.finalRoute now, hrest.routes]

end Runs

/-- What keeps the state free of echoes: an update with the node's own router-id
does not come from the neighbour that the node advertises the prefix for, and the
node makes no advertisement for a neighbour that has sent it such an update. -/
def KeepsApart (s : RouterState) : Event → Prop
  | .neighbourUpdate _ neigh update => ∀ adv ∈ s.advertised.lookup update.pfx,
      neigh = adv.nodeId → update.nodeId ≠ s.id
  | .advertise p adv => ∀ n ∈ s.neighbours, n.id = adv.nodeId →
      ∀ st ∈ n.routes.lookup p, st.nodeId ≠ s.id
  | .passiveClient _ p node _ _ => ∀ n ∈ s.neighbours, n.id = node →
      ∀ st ∈ n.routes.lookup p, st.nodeId ≠ s.id
  | _ => True

instance (s : RouterState) : (e : Event) → Decidable (KeepsApart s e)
  | .neighbourUpdate _ _ update =>
    inferInstanceAs (Decidable (∀ adv ∈ s.advertised.lookup update.pfx, _))
  | .advertise _ _ => inferInstanceAs (Decidable (∀ n ∈ s.neighbours, _))
  | .passiveClient _ _ _ _ _ => inferInstanceAs (Decidable (∀ n ∈ s.neighbours, _))
  | .computeRoutes _ | .fullTableUpdate | .pushFullTable _ | .seqnoRequest ..
  | .ackRetract .. | .solveStarvation | .runGC _ | .setLink .. | .withdraw _
  | .reconcileNeighbours _ => instDecidableTrue

theorem noEcho_step {s : RouterState} (h : NoEcho s) {e : Event}
    (happart : KeepsApart s e) : NoEcho (step s e).1 := by
  intro p adv hadv n hn hnode st hst
  rw [step_id]
  rcases stored_step ⟨n, hn, rfl, hst⟩ with
    ⟨st₀, ⟨n₀, hn₀, hid₀, hst₀⟩, hfrom⟩ | ⟨hpfx, now, rfl⟩
  · have hsender : st.nodeId = st₀.nodeId := congrArg Source.nodeId hfrom.source
    rw [hsender]
    rcases advertised_step hadv with hold | rfl | ⟨now, hold, metricFn, rfl⟩
    · exact h p adv hold n₀ hn₀ (hid₀.trans hnode) st₀ hst₀
    · exact happart n₀ hn₀ (hid₀.trans hnode) st₀ hst₀
    · exact happart n₀ hn₀ (hid₀.trans hnode) st₀ hst₀
  · rcases advertised_step hadv with hold | hevent | ⟨_, _, _, hevent⟩
    · subst hpfx
      exact happart adv hold hnode
    · cases hevent
    · cases hevent

/-- From every state that is reached without echoes the selection settles. -/
theorem selection_settles (tunables : RouterTunables) (id : NodeId) (events : List Event)
    (now : Time) (hhop : 1 ≤ tunables.hopCost)
    (halpha : 0 < tunables.metricSmoothingAlpha ∧ tunables.metricSmoothingAlpha ≤ 1)
    (hcosts : CostsBounded (run (RouterState.init tunables id) events))
    (happart : Along KeepsApart (RouterState.init tunables id) events) :
    Settles (run (RouterState.init tunables id) events) now := by
  have hreached : (run (RouterState.init tunables id) events).toRouterTunables = tunables ∧
      Keyed (run (RouterState.init tunables id) events) ∧
      (neighbourIds (run (RouterState.init tunables id) events)).Nodup ∧
      NoEcho (run (RouterState.init tunables id) events) := by
    refine Transitions.run_invariant
      (fun s e (h : s.toRouterTunables = tunables ∧ Keyed s ∧ (neighbourIds s).Nodup ∧
        NoEcho s) (hk : KeepsApart s e) => ?_) ?_ happart
    · obtain ⟨htunables, hkeyed, hdistinct, hecho⟩ := h
      exact ⟨(step_tunables s e).trans htunables, hkeyed.step e, distinct_step e hdistinct,
        noEcho_step hecho hk⟩
    · exact ⟨rfl, Keyed.init tunables id, by simp [neighbourIds, RouterState.init],
        by simp [NoEcho, RouterState.init]⟩
  obtain ⟨htunables, hkeyed, hdistinct, hecho⟩ := hreached
  refine Settleable.settles ⟨hkeyed, hdistinct, hecho, ?_, ?_, ?_, hcosts⟩ now
  · rw [htunables]
    exact hhop
  · rw [htunables]
    exact halpha.1
  · rw [htunables]
    exact halpha.2

/-- Node `a` advertises a prefix for its client `c`. Then `c` becomes a router, and
`b`, `c` and `d` offer the prefix; `b` and `d` do with the router-id of `a`. -/
def clientTurnedRouter (offered : NodeId) : List Event :=
  let p : Prefix := ⟨.v4 0x0A000200, 24, Prefix.bits24_le⟩
  [.passiveClient 0 p "c" false (some 1000), .computeRoutes 1,
    .reconcileNeighbours ["b", "c", "d"], .setLink "b" true 10, .setLink "c" true 10,
    .setLink "d" true 10, .neighbourUpdate 1 "d" ⟨⟨"a", p⟩, ⟨10000, 85⟩⟩, .computeRoutes 2,
    .neighbourUpdate 2 "b" ⟨⟨"a", p⟩, ⟨20000, 65⟩⟩,
    .neighbourUpdate 2 "b" ⟨⟨"a", p⟩, ⟨55536, 65⟩⟩,
    .neighbourUpdate 2 "c" ⟨⟨offered, p⟩, ⟨40000, 65⟩⟩,
    .computeRoutes 3, .computeRoutes 3, .computeRoutes 3]

/-- The client offers the prefix as its own. -/
theorem selection_settles_own_source :
    Settles (run (RouterState.init defaultRouterTunables "a") (clientTurnedRouter "c")) 3 :=
  selection_settles defaultRouterTunables "a" (clientTurnedRouter "c") 3 (by decide)
    (by decide +kernel) (by decide +kernel) (by decide +kernel)

/-- States are equal if their fields are; neighbours are compared field by field. -/
private theorem state_eq {s t : RouterState} (htunables : s.toRouterTunables = t.toRouterTunables)
    (hid : s.id = t.id) (hseqno : s.selfSeqno = t.selfSeqno) (hroutes : s.routes = t.routes)
    (hsources : s.sources = t.sources) (hadvertised : s.advertised = t.advertised)
    (hneighbours : s.neighbours.map (fun n => (n.id, n.routes, n.active, n.linkCost)) =
      t.neighbours.map (fun n => (n.id, n.routes, n.active, n.linkCost))) : s = t := by
  have hinj : Function.Injective fun n : Neighbour => (n.id, n.routes, n.active, n.linkCost) := by
    rintro ⟨id, routes, active, linkCost⟩ ⟨id', routes', active', linkCost'⟩ h
    simpa using h
  obtain ⟨⟩ := s
  obtain ⟨⟩ := t
  simp only at *
  obtain rfl := List.map_injective_iff.mpr hinj hneighbours
  subst htunables hid hseqno hroutes hsources hadvertised
  rfl

/-- The client offers the node's own source. The entry of the prefix changes from
the route through `d` to the one through `c`, to the advertisement and back, and
each change is announced. -/
theorem echo_never_settles :
    let s := run (RouterState.init defaultRouterTunables "a") (clientTurnedRouter "a")
    CostsBounded s ∧ ¬ Settles s 3 := by
  intro s
  refine ⟨by decide +kernel, ?_⟩
  rintro ⟨K, hquiet⟩
  have hperiod : recomputed s 3 3 = s := by
    refine state_eq ?_ ?_ ?_ ?_ ?_ ?_ ?_ <;> decide +kernel
  have hreturns : ∀ j, recomputed s 3 (3 * j) = s := by
    intro j
    unfold recomputed
    rw [Function.iterate_mul]
    exact Function.iterate_fixed hperiod j
  have hcalls := (hquiet (3 * K) (by omega)).1
  rw [hreturns] at hcalls
  exact absurd hcalls (by decide +kernel)

end Nylon.Core
