import Nylon.Core.RouteTable
import Nylon.Core.SelectionComplete
import Nylon.Core.StepSpec

/-!
The forwarding tables next to the router that fills them. `computeRoutes` tells
the tables about new entries, changed next hops and lost routes. It never
deletes: when an unreachable entry leaves the route table its blackhole stays.
As long as no such entry leaves, the tables mirror the routes.
-/

namespace Nylon.Core

open State Netip Lib

variable {T : Type → Type} [PrefixTable T] {Key Peer : Type} {s : RouterState} {now : Time}
  {p : Prefix} {cfg : TableConfig Key Peer} {e : Event}

def applyCall (cfg : TableConfig Key Peer) (tables : Tables T Peer) :
    RouterCall → Option (Tables T Peer)
  | .tableInsertRoute pfx route => tableInsertRoute cfg tables pfx route
  | .tableDeleteRoute pfx => some (tableDeleteRoute tables pfx)
  | _ => some tables

def applyCalls (cfg : TableConfig Key Peer) (tables : Tables T Peer)
    (calls : List RouterCall) : Option (Tables T Peer) :=
  calls.foldlM (applyCall cfg) tables

/-- A router with its forwarding tables. -/
structure RouterNode (T : Type → Type) (Peer : Type) where
  router : RouterState
  tables : Tables T Peer

def stepNode (cfg : TableConfig Key Peer) (node : RouterNode T Peer) (e : Event) :
    Option (RouterNode T Peer) := do
  let tables ← applyCalls cfg node.tables (step node.router e).2
  some ⟨(step node.router e).1, tables⟩

def runNode (cfg : TableConfig Key Peer) (node : RouterNode T Peer)
    (events : List Event) : Option (RouterNode T Peer) :=
  events.foldlM (stepNode cfg) node

/-- Prefixes are masked and nodes are part of the configuration. -/
def Admissible (cfg : TableConfig Key Peer) : Event → Prop
  | .neighbourUpdate _ _ adv => adv.pfx.Masked
  | .advertise pfx adv => pfx.Masked ∧ (cfg.pubKey adv.nodeId).isSome
  | .passiveClient _ pfx node _ _ => pfx.Masked ∧ (cfg.pubKey node).isSome
  | .reconcileNeighbours peers => ∀ id ∈ peers, (cfg.pubKey id).isSome
  | _ => True

/-- Every unreachable entry in the state before a run is held, advertised or has
a usable route. -/
def KeepsUnreachable (s : RouterState) (now : Time) : Prop :=
  ∀ p r, s.routes.lookup p = some r → r.metric = INF →
    isHeldRoute s r (connectedNeighs s) (hasLink s r.nh) now = true ∨
    (s.advertised.lookup p).isSome ∨
    ∃ n ∈ s.neighbours, ∃ st, n.routes.lookup p = some st ∧ Usable s n st

instance (s : RouterState) (now : Time) : Decidable (KeepsUnreachable s now) :=
  decidable_of_iff (∀ p r, s.routes.lookup p = some r → r.metric = INF →
    isHeldRoute s r (connectedNeighs s) (hasLink s r.nh) now = true ∨
    (s.advertised.lookup p).isSome ∨ usableRoutes s p ≠ [])
    (by simp only [KeepsUnreachable, usableRoutes_ne_nil])

instance (cfg : TableConfig Key Peer) (e : Event) : Decidable (Admissible cfg e) := by
  unfold Admissible
  split <;> infer_instance

/-- The condition of a run of events: prefixes and nodes as configured, and no
run of `computeRoutes` that would drop an unreachable entry. -/
def KeepsMirror (cfg : TableConfig Key Peer) (s : RouterState) (e : Event) : Prop :=
  Admissible cfg e ∧ ∀ input ∈ recompute s e, KeepsUnreachable input.1 input.2

instance (cfg : TableConfig Key Peer) (s : RouterState) (e : Event) :
    Decidable (KeepsMirror cfg s e) :=
  inferInstanceAs (Decidable (_ ∧ _))

/-- The prefixes of all tables are masked, and the nodes that can be next hops
are part of the configuration. -/
structure Configured (cfg : TableConfig Key Peer) (s : RouterState) : Prop where
  routes : ∀ p r, s.routes.lookup p = some r → p.Masked ∧ (cfg.pubKey r.nh).isSome
  stored : ∀ id p st, Stored s id p st → p.Masked
  neighbours : ∀ n ∈ s.neighbours, (cfg.pubKey n.id).isSome
  advertised : ∀ p adv, s.advertised.lookup p = some adv → p.Masked ∧ (cfg.pubKey adv.nodeId).isSome

/-- A call that can be applied: no deletion, a masked prefix, and a next hop
that is part of the configuration. -/
def CallOk (cfg : TableConfig Key Peer) : RouterCall → Prop
  | .tableInsertRoute pfx route => pfx.Masked ∧ (cfg.pubKey route.nh).isSome
  | .tableDeleteRoute _ => False
  | _ => True

def insertedRoute (p : Prefix) : RouterCall → Option SelRoute
  | .tableInsertRoute pfx route => if pfx = p then some route else none
  | _ => none

theorem insertedRoute_eq_none {call : RouterCall} (h : call.tablePrefix = none)
    (p : Prefix) : insertedRoute p call = none := by
  cases call <;> first | rfl | cases h

/-- The routes a run inserts for a prefix, in order: the new entry if the tables
have to be told about it, and the blackhole of a lost route. -/
theorem computeRoutes_insertedRoutes (s : RouterState) (now : Time) (p : Prefix) :
    (computeRoutes s now).2.filterMap (insertedRoute p) =
      (match selectedRoute s now p with
        | some new => if needsInsert (s.routes.lookup p) new then [new] else []
        | none => []) ++
      (match s.routes.lookup p with
        | some old => if losesRoute s now p then
            [{old with metric := INF, retractedBy := []}] else []
        | none => []) := by
  have hannounce : ∀ k new, (newTable s now).lookup k = some new → k ≠ p →
      (announcements s k new).filterMap (insertedRoute p) = [] := by
    intro k new _ hne
    unfold announcements
    split <;> split <;> simp [insertedRoute, hne]
  have hretract : ∀ k old, s.routes.lookup k = some old → k ≠ p →
      (retractions s now k old).filterMap (insertedRoute p) = [] := by
    intro k old _ hne
    unfold retractions
    split <;> simp [insertedRoute, hne]
  rw [computeRoutes_calls, List.filterMap_append, Table.filterMap_flatMap_entries _ _ _ p hannounce,
    Table.filterMap_flatMap_entries _ _ _ p hretract, lookup_newTable]
  congr 1
  · cases selectedRoute s now p with
    | none => rfl
    | some new =>
      simp only [announcements]
      split <;> split <;> simp [insertedRoute]
  · cases s.routes.lookup p with
    | none => rfl
    | some old =>
      cases hlost : losesRoute s now p <;>
        simp [retractions, hlost, insertedRoute, List.filterMap_cons]

/-- A prefix without an entry in the new table has no incumbent and no usable
route. -/
theorem selectedRoute_eq_none (h : selectedRoute s now p = none) :
    s.advertised.lookup p = none ∧ heldRoute s now p = none ∧
      ∀ n ∈ s.neighbours, ∀ st, n.routes.lookup p = some st → ¬ Usable s n st := by
  unfold selectedRoute at h
  cases hbest : bestCandidate (candidates s p) with
  | some best => simp [hbest] at h
  | none =>
    simp only [hbest, incumbent] at h
    cases hadv : s.advertised.lookup p with
    | some adv => simp [hadv] at h
    | none =>
      simp only [hadv] at h
      refine ⟨rfl, h, fun n hn st hst husable => ?_⟩
      rw [bestCandidate_eq_map, Option.map_eq_none_iff, List.argmin_eq_none]
        at hbest
      have hmem : (n, st) ∈ usableRoutes s p :=
        mem_usableRoutes.mpr ⟨hn, hst, husable⟩
      simp [hbest] at hmem

/-- Without a dropped entry, a run leaves for each prefix the view of its new
entry: it inserts the entry, or the view has not changed. -/
theorem lastInserted_view (hkeeps : KeepsUnreachable s now) (p : Prefix) :
    (((computeRoutes s now).2.filterMap (insertedRoute p)).getLast?.map
      (fun route => viewOf cfg (some route))).getD
        (viewOf cfg (s.routes.lookup p)) =
      viewOf cfg (finalRoute s now p) := by
  rw [computeRoutes_insertedRoutes]
  unfold finalRoute
  cases hold : s.routes.lookup p with
  | none =>
    have hneeds : ∀ new, needsInsert none new = true := fun _ => rfl
    cases selectedRoute s now p <;> simp [hneeds]
  | some old =>
    cases hlost : losesRoute s now p with
    | true => simp
    | false =>
      simp only [Bool.false_eq_true, if_false, List.append_nil]
      cases hsel : selectedRoute s now p with
      | none =>
        obtain ⟨hadv, hheld, husable⟩ := selectedRoute_eq_none hsel
        have hINF : old.metric = INF := by
          simpa [losesRoute, hold, hsel] using hlost
        rcases hkeeps p old hold hINF with h | h | ⟨n, hn, st, hst, hu⟩
        · have hsome := heldRoute_eq_some.mpr ⟨old, hold, h, rfl⟩
          rw [hheld] at hsome
          cases hsome
        · simp [hadv] at h
        · exact absurd hu (husable n hn st hst)
      | some new =>
        by_cases hneeds : needsInsert (some old) new = true
        · simp [hneeds]
        · simp only [hneeds, Bool.false_eq_true, if_false, List.getLast?_nil,
            Option.map_none, Option.getD_none]
          simp only [needsInsert, Bool.or_eq_true, not_or, bne_iff_ne,
            Bool.and_eq_true, beq_iff_eq, not_and, not_not] at hneeds
          simp only [losesRoute, hold, hsel, Option.any_some, Option.all_some,
            Bool.and_eq_false_iff, bne_eq_false_iff_eq, beq_eq_false_iff_ne]
            at hlost
          refine viewOf_congr hneeds.2 ⟨hneeds.1, fun hnew => ?_⟩
          rcases hlost with h | h
          · exact h
          · exact absurd hnew h

theorem viewOf_recompute {t : RouterState}
    (hrecompute : recompute s e = some (t, now)) (p : Prefix) :
    viewOf cfg (s.routes.lookup p) = viewOf cfg (t.routes.lookup p) := by
  have hsame := routes_recompute hrecompute p
  cases ht : t.routes.lookup p with
  | none =>
    rw [ht, Option.map_none] at hsame
    rw [Option.map_eq_none_iff.mp hsame.symm]
  | some r =>
    rw [ht, Option.map_some] at hsame
    obtain ⟨r₀, hr₀, heq⟩ := Option.map_eq_some_iff.mp hsame.symm
    simp only [Prod.mk.injEq] at heq
    rw [hr₀]
    exact viewOf_congr heq.2.1 (by rw [heq.1])

theorem Configured.selectedRoute (h : Configured cfg s) {r : SelRoute}
    (hsel : selectedRoute s now p = some r) :
    p.Masked ∧ (cfg.pubKey r.nh).isSome := by
  rcases selectedRoute_cases hsel with
    ⟨adv, hadv, rfl⟩ | ⟨c, hc, rfl, _⟩ | ⟨old, hold, _, _, rfl⟩
  · exact h.advertised p adv hadv
  · obtain ⟨n, hn, st, hst, hcand⟩ := mem_candidates.mp hc
    rw [(candidate_eq_some hcand).2.2.1]
    exact ⟨h.stored n.id p st ⟨n, hn, rfl, hst⟩, h.neighbours n hn⟩
  · exact h.routes p old hold

theorem Configured.finalRoute (h : Configured cfg s) {r : SelRoute}
    (hfinal : finalRoute s now p = some r) :
    p.Masked ∧ (cfg.pubKey r.nh).isSome := by
  rcases finalRoute_cases hfinal with ⟨hsel, _⟩ | ⟨old, hold, _, _, rfl⟩
  · exact h.selectedRoute hsel
  · exact h.routes p old hold

theorem callOk_of_tablePrefix {call : RouterCall}
    (h : call.tablePrefix = none) : CallOk cfg call := by
  cases call <;> trivial

theorem Configured.callOk (h : Configured cfg s) :
    ∀ call ∈ (computeRoutes s now).2, CallOk cfg call := by
  intro call hcall
  rcases mem_computeRoutes_calls.mp hcall with
    ⟨p, new, hsel, hcall⟩ | ⟨p, old, hold, hcall⟩
  · rcases List.mem_append.mp hcall with hcall | hcall
    · split at hcall
      · rw [List.mem_singleton.mp hcall]
        exact h.selectedRoute hsel
      · cases hcall
    · split at hcall
      · rw [List.mem_singleton.mp hcall]
        trivial
      · cases hcall
  · unfold retractions at hcall
    split at hcall
    · rcases List.mem_cons.mp hcall with rfl | hcall
      · trivial
      · rw [List.mem_singleton.mp hcall]
        exact h.routes p old hold
    · cases hcall

theorem Configured.recompute {t : RouterState} (h : Configured cfg s)
    (hrecompute : recompute s e = some (t, now)) : Configured cfg t := by
  constructor
  case routes =>
    intro p r hr
    have hsame := routes_recompute hrecompute p
    rw [hr, Option.map_some] at hsame
    obtain ⟨r₀, hr₀, heq⟩ := Option.map_eq_some_iff.mp hsame.symm
    simp only [Prod.mk.injEq] at heq
    rw [← heq.2.1]
    exact h.routes p r₀ hr₀
  case stored =>
    intro id p st hst
    obtain ⟨st₀, hst₀, _⟩ := stored_recompute hrecompute hst
    exact h.stored id p st₀ hst₀
  case neighbours =>
    intro n hn
    have hmem : (n.id, n.active) ∈ links s := links_recompute hrecompute ▸
      List.mem_map_of_mem (f := fun n : Neighbour => (n.id, n.active)) hn
    obtain ⟨m, hm, heq⟩ := List.mem_map.mp hmem
    have hid : m.id = n.id := congrArg Prod.fst heq
    rw [← hid]
    exact h.neighbours m hm
  case advertised =>
    intro p adv hadv
    exact h.advertised p adv (advertised_recompute hrecompute hadv)

theorem Configured.step (h : Configured cfg s) (hadm : Admissible cfg e) :
    Configured cfg (step s e).1 := by
  constructor
  case routes =>
    intro p r hr
    rcases route_step hr with hold | ⟨t, now, hrecompute, hfinal⟩
    · exact h.routes p r hold
    · exact (h.recompute hrecompute).finalRoute hfinal
  case stored =>
    intro id p st hst
    rcases stored_step hst with ⟨st₀, hst₀, _⟩ | ⟨rfl, now, rfl⟩
    · exact h.stored id p st₀ hst₀
    · exact hadm
  case neighbours =>
    intro n hn
    rcases neighbourId_step hn with ⟨m, hm, hid⟩ | ⟨peers, rfl, hpeer⟩
    · rw [← hid]
      exact h.neighbours m hm
    · exact hadm n.id hpeer
  case advertised =>
    intro p adv hadv
    rcases advertised_step hadv with hold | rfl | ⟨now, hold, metricFn, rfl⟩
    · exact h.advertised p adv hold
    · exact hadm
    · exact hadm

section Lawful

variable [LawfulPrefixTable T]

/-- A sequence of calls leaves for each prefix the last route inserted for it. -/
theorem applyCalls_view (cfg : TableConfig Key Peer) (tables : Tables T Peer)
    {calls : List RouterCall} (hok : ∀ call ∈ calls, CallOk cfg call) :
    ∃ tables', applyCalls cfg tables calls = some tables' ∧
      ∀ p : Prefix, p.Masked → tables'.view p =
        ((calls.filterMap (insertedRoute p)).getLast?.map
          (fun route => viewOf cfg (some route))).getD (tables.view p) := by
  induction calls generalizing tables with
  | nil => exact ⟨tables, rfl, fun p _ => rfl⟩
  | cons call rest ih =>
    have hrest : ∀ call ∈ rest, CallOk cfg call :=
      fun c hc => hok c (List.mem_cons_of_mem _ hc)
    have hsame : applyCall cfg tables call = some tables →
        (∀ p, insertedRoute p call = none) →
        ∃ tables', applyCalls cfg tables (call :: rest) = some tables' ∧
          ∀ p : Prefix, p.Masked → tables'.view p =
            (((call :: rest).filterMap (insertedRoute p)).getLast?.map
              (fun route => viewOf cfg (some route))).getD (tables.view p) := by
      intro happly hnone
      obtain ⟨tables', happly', hview⟩ := ih tables hrest
      refine ⟨tables', ?_, fun p hp => ?_⟩
      · simpa [applyCalls, happly] using happly'
      · rw [List.filterMap_cons_none (hnone p)]
        exact hview p hp
    cases call with
    | tableInsertRoute pfx route =>
      obtain ⟨hpfx, hnh⟩ := hok _ List.mem_cons_self
      obtain ⟨tables₁, hinsert⟩ := tableInsertRoute_isSome cfg tables pfx hnh
      obtain ⟨tables', happly, hview⟩ := ih tables₁ hrest
      refine ⟨tables', ?_, fun p hp => ?_⟩
      · simpa [applyCalls, applyCall, hinsert] using happly
      · rw [hview p hp, view_tableInsertRoute hpfx hinsert hp]
        by_cases heq : pfx = p
        · subst heq
          simp only [insertedRoute, if_true, List.filterMap_cons]
          cases hlast : (rest.filterMap (insertedRoute pfx)).getLast? <;>
            simp [hlast, List.getLast?_cons]
        · have heq' : p ≠ pfx := fun h => heq h.symm
          simp [insertedRoute, heq, heq']
    | tableDeleteRoute pfx => exact (hok _ List.mem_cons_self).elim
    | sendRouteUpdate _ _ => exact hsame rfl fun _ => rfl
    | sendAckRetract _ _ => exact hsame rfl fun _ => rfl
    | broadcastSendRouteUpdate _ => exact hsame rfl fun _ => rfl
    | requestSeqno _ _ _ _ => exact hsame rfl fun _ => rfl
    | broadcastRequestSeqno _ _ _ => exact hsame rfl fun _ => rfl

/-- One event keeps the tables in step with the routes. -/
theorem stepNode_mirrors {cfg : TableConfig Key Peer} {node : RouterNode T Peer}
    {e : Event} (hcfg : Configured cfg node.router)
    (hmirrors : Mirrors cfg node.tables node.router.routes.lookup)
    (hkeeps : KeepsMirror cfg node.router e) :
    ∃ tables, stepNode cfg node e = some ⟨(step node.router e).1, tables⟩ ∧
      Mirrors cfg tables (step node.router e).1.routes.lookup := by
  rw [mirrors_iff] at hmirrors
  cases hrecompute : recompute node.router e with
  | none =>
    obtain ⟨hroutes, hinert⟩ := step_of_recompute_none hrecompute
    obtain ⟨tables, happly, hview⟩ := applyCalls_view cfg node.tables
      fun call hcall => callOk_of_tablePrefix (hinert call hcall)
    refine ⟨tables, by simp [stepNode, happly], ?_⟩
    rw [mirrors_iff, hroutes]
    intro p hp
    have hnone : (step node.router e).2.filterMap (insertedRoute p) = [] :=
      List.filterMap_eq_nil_iff.mpr fun call hcall =>
        insertedRoute_eq_none (hinert call hcall) p
    rw [hview p hp, hnone]
    exact hmirrors p hp
  | some run =>
    obtain ⟨t, now⟩ := run
    obtain ⟨_, sent, hcalls, hsent⟩ := step_of_recompute_some hrecompute
    have hok : ∀ call ∈ (step node.router e).2, CallOk cfg call := by
      intro call hcall
      rw [hcalls] at hcall
      rcases List.mem_append.mp hcall with h | h
      · exact callOk_of_tablePrefix (hsent call h)
      · exact (hcfg.recompute hrecompute).callOk call h
    obtain ⟨tables, happly, hview⟩ := applyCalls_view cfg node.tables hok
    refine ⟨tables, by simp [stepNode, happly], ?_⟩
    rw [mirrors_iff, step_routes_of_recompute_some hrecompute]
    intro p hp
    have hnone : sent.filterMap (insertedRoute p) = [] :=
      List.filterMap_eq_nil_iff.mpr fun call hcall =>
        insertedRoute_eq_none (hsent call hcall) p
    have hsame : viewOf cfg (node.router.routes.lookup p) = viewOf cfg (t.routes.lookup p) :=
      viewOf_recompute hrecompute p
    rw [hview p hp, hcalls, List.filterMap_append, hnone, List.nil_append,
      hmirrors p hp, hsame, lastInserted_view (hkeeps.2 (t, now) hrecompute) p,
      lookup_computeRoutes]

/-- In every run that starts with empty tables, has masked prefixes and
configured nodes, and never drops an unreachable entry, the forwarding tables
mirror the routes. -/
theorem forwarding_mirrors_routes (cfg : TableConfig Key Peer)
    (tunables : RouterTunables) (events : List Event)
    (hkeeps : Along (KeepsMirror cfg) (RouterState.init tunables cfg.localId) events) :
    ∃ node, runNode cfg ⟨RouterState.init tunables cfg.localId, Tables.empty⟩ events =
        some (node : RouterNode T Peer) ∧
      node.router = run (RouterState.init tunables cfg.localId) events ∧
      Mirrors cfg node.tables node.router.routes.lookup := by
  have hrun : ∀ (events : List Event) (node : RouterNode T Peer), Configured cfg node.router →
      Mirrors cfg node.tables node.router.routes.lookup →
      Along (KeepsMirror cfg) node.router events →
      ∃ node', runNode cfg node events = some node' ∧ node'.router = run node.router events ∧
        Mirrors cfg node'.tables node'.router.routes.lookup := by
    intro events
    induction events with
    | nil => exact fun node _ hmirrors _ => ⟨node, rfl, rfl, hmirrors⟩
    | cons e rest ih =>
      intro node hcfg hmirrors hkeeps
      obtain ⟨tables, hstep, hmirrors'⟩ :=
        stepNode_mirrors hcfg hmirrors hkeeps.1
      obtain ⟨node', hrest, hrouter, hfinal⟩ :=
        ih ⟨_, tables⟩ (hcfg.step hkeeps.1.1) hmirrors' hkeeps.2
      refine ⟨node', ?_, hrouter, hfinal⟩
      simpa [runNode, hstep] using hrest
  apply hrun events _ _ _ hkeeps
  · constructor <;> simp [RouterState.init, Stored]
  · intro p _
    simp [Tables.empty, RouterState.init, LawfulPrefixTable.get_empty]

end Lawful

/-- Node `a` learns a route from its only neighbour and loses the link. -/
def lostNeighbourRun : List Event :=
  [.reconcileNeighbours ["b"], .setLink "b" true 10,
    .neighbourUpdate 0 "b" ⟨⟨"b", ⟨.v4 0x0A000200, 24, Prefix.bits24_le⟩⟩, ⟨0, 0⟩⟩,
    .computeRoutes 1, .setLink "b" false INF, .computeRoutes 2]

theorem forwarding_mirrors_routes_lost : let s := RouterState.init defaultRouterTunables "a"
    ∃ node : RouterNode PrefixMap NodeId,
      runNode (namedPeers "a") ⟨s, Tables.empty⟩ lostNeighbourRun = some node ∧
      node.router = run s lostNeighbourRun ∧
      Mirrors (namedPeers "a") node.tables node.router.routes.lookup :=
  forwarding_mirrors_routes (namedPeers "a") defaultRouterTunables lostNeighbourRun
    (by decide +kernel)

/-- The next run drops the entry, since no neighbour is connected, and the
blackhole stays in the forwarding table. -/
theorem blackhole_outlives_route : let p : Prefix := ⟨.v4 0x0A000200, 24, by decide⟩
    let events := lostNeighbourRun ++ [.computeRoutes 3]
    (∀ e ∈ events, Admissible (namedPeers "a") e) ∧
    ∃ node : RouterNode PrefixMap NodeId, runNode (namedPeers "a")
        ⟨RouterState.init defaultRouterTunables "a", Tables.empty⟩ events = some node ∧
      node.router.routes.lookup p = none ∧
      PrefixTable.get node.tables.forwardTable p = some ⟨"b", none, true⟩ ∧
      ¬ Mirrors (namedPeers "a") node.tables node.router.routes.lookup := by
  intro p events
  refine ⟨by decide +kernel, ?_⟩
  have hfinal : (runNode (namedPeers "a")
      (⟨RouterState.init defaultRouterTunables "a", Tables.empty⟩ :
        RouterNode PrefixMap NodeId) events).map
      (fun node => (node.router.routes.lookup p, PrefixTable.get node.tables.forwardTable p)) =
      some (none, some ⟨"b", none, true⟩) := by
    decide +kernel
  obtain ⟨node, hrun, hboth⟩ := Option.map_eq_some_iff.mp hfinal
  simp only [Prod.mk.injEq] at hboth
  refine ⟨node, hrun, hboth.1, hboth.2, fun hmirrors => ?_⟩
  have hentry := (hmirrors p (by decide +kernel)).1
  simp [hboth.1, hboth.2] at hentry

end Nylon.Core
