import Nylon.Core.SelectionComplete
import Nylon.Core.StepSpec

/-!
Routes of the node's own source. A neighbour may offer the node a route to one of
the node's own prefixes, with the node itself as the router-id: an echo of an
update that the node sent, possibly before it restarted. Neither the handling of
updates nor the selection looks at the router-id, so an echo is kept out only by
an own advertisement that is at least as good, or by a distance in the source
table that makes it unfeasible.
-/

namespace Nylon.Core

open State Netip Lib

def neighbourIds (s : RouterState) : List NodeId := s.neighbours.map (·.id)

/-- No reachable route of the node's own source leads to a neighbour. -/
def OwnSourceLocal (s : RouterState) : Prop :=
  ∀ p r, s.routes.lookup p = some r → r.metric ≠ INF → r.nodeId = s.id → r.nh ∉ neighbourIds s

instance (s : RouterState) : Decidable (OwnSourceLocal s) :=
  inferInstanceAs (Decidable (∀ p r, s.routes.lookup p = some r → _))

/-- Every usable echo is matched by an own advertisement that costs no more. -/
def EchoesMatched (s : RouterState) : Prop :=
  ∀ n ∈ s.neighbours, ∀ p st, n.routes.lookup p = some st → st.nodeId = s.id → Usable s n st →
      ∃ adv ∈ s.advertised.lookup p, advMetric adv ≤ totalCost s (n, st)

instance (s : RouterState) : Decidable (EchoesMatched s) :=
  inferInstanceAs (Decidable
    (∀ n ∈ s.neighbours, ∀ p st, n.routes.lookup p = some st → _))

/-- The nodes the own advertisements lead to, the node itself and its passive
clients, are no neighbours. -/
def ClientsApart (s : RouterState) : Prop :=
  ∀ p adv, s.advertised.lookup p = some adv → adv.nodeId ∉ neighbourIds s

instance (s : RouterState) : Decidable (ClientsApart s) :=
  inferInstanceAs (Decidable (∀ p adv, s.advertised.lookup p = some adv → _))

/-- Whenever routes are computed the echoes are matched and the clients are no
neighbours; and no client that a route leads to becomes a neighbour. -/
def KeepsOwnSource (s : RouterState) (e : Event) : Prop :=
  (∀ input ∈ recompute s e, EchoesMatched input.1 ∧ ClientsApart input.1) ∧
  match e with
  | .reconcileNeighbours peers => ∀ p r, s.routes.lookup p = some r →
      r.metric ≠ INF → r.nodeId = s.id → r.nh ∉ peers
  | _ => True

instance (s : RouterState) : (e : Event) → Decidable (KeepsOwnSource s e)
  | .reconcileNeighbours peers => inferInstanceAs (Decidable
      (_ ∧ ∀ p r, s.routes.lookup p = some r → r.metric ≠ INF → r.nodeId = s.id → r.nh ∉ peers))
  | .neighbourUpdate .. | .computeRoutes _ | .fullTableUpdate | .pushFullTable _
  | .seqnoRequest .. | .ackRetract .. | .solveStarvation | .runGC _ | .setLink ..
  | .advertise .. | .withdraw _ | .passiveClient .. => inferInstanceAs (Decidable (_ ∧ True))

/-- A run selects no echo: a cheaper advertisement is in its way. -/
theorem ownSourceLocal_finalRoute {s : RouterState} (hechoes : EchoesMatched s)
    (hclients : ClientsApart s) {now : Time} {p : Prefix} {r : SelRoute}
    (hr : finalRoute s now p = some r) (hfinite : r.metric ≠ INF)
    (hown : r.nodeId = s.id) : r.nh ∉ neighbourIds s := by
  rcases finalRoute_cases hr with ⟨hsel, _⟩ | ⟨_, _, _, _, rfl⟩
  · rcases selectedRoute_cases hsel with
      ⟨adv, hadv, rfl⟩ | ⟨c, hc, rfl, hdisplaces⟩ | ⟨_, _, _, _, rfl⟩
    · exact hclients p adv hadv
    · rw [candidates_eq_map, List.mem_map] at hc
      obtain ⟨⟨n, st⟩, hmem, rfl⟩ := hc
      obtain ⟨hn, hst, husable⟩ := mem_usableRoutes.mp hmem
      obtain ⟨adv, hadv, hcost⟩ := hechoes n hn p st hst hown husable
      rcases hdisplaces adv hadv with hnh | hcheaper
      · have hid : n.id ∈ neighbourIds s := List.mem_map_of_mem hn
        exact absurd (hnh ▸ hid) (hclients p adv hadv)
      · exact absurd hcheaper (not_lt.mpr hcost)
    · exact absurd rfl hfinite
  · exact absurd rfl hfinite

theorem ownSourceLocal_step {s : RouterState} (h : OwnSourceLocal s) {e : Event}
    (hkeeps : KeepsOwnSource s e) : OwnSourceLocal (step s e).1 := by
  intro p r hr hfinite hown
  rw [step_id] at hown
  cases hrecompute : recompute s e with
  | some input =>
    obtain ⟨t, now⟩ := input
    have hstate := (step_of_recompute_some hrecompute).1
    have hid : t.id = s.id := (recompute_config hrecompute).1
    have hids : neighbourIds (step s e).1 = neighbourIds t := by
      rw [hstate]
      exact ids_of_links (links_computeRoutes t now)
    rw [step_routes_of_recompute_some hrecompute, lookup_computeRoutes] at hr
    rw [hids]
    obtain ⟨hechoes, hclients⟩ := hkeeps.1 (t, now) hrecompute
    exact ownSourceLocal_finalRoute hechoes hclients hr hfinite (hown.trans hid.symm)
  | none =>
    rw [(step_of_recompute_none hrecompute).1] at hr
    intro hmem
    obtain ⟨n, hn, hnh⟩ := List.mem_map.mp hmem
    rcases neighbourId_step hn with ⟨m, hm, hid⟩ | ⟨peers, rfl, hpeer⟩
    · exact h p r hr hfinite hown (List.mem_map.mpr ⟨m, hm, hid.trans hnh⟩)
    · exact hkeeps.2 p r hr hfinite hown (hnh ▸ hpeer)

/-- In every run in which echoes are matched by own advertisements whenever routes
are computed, no route of the node's own source leads to a neighbour. -/
theorem own_source_local (tunables : RouterTunables) (id : NodeId) (events : List Event)
    (hkeeps : Along KeepsOwnSource (RouterState.init tunables id) events) :
    OwnSourceLocal (run (RouterState.init tunables id) events) := by
  have hstart : OwnSourceLocal (RouterState.init tunables id) := by
    simp [OwnSourceLocal, RouterState.init]
  exact Transitions.run_invariant
    (fun s e (h : OwnSourceLocal s) (hk : KeepsOwnSource s e) => ownSourceLocal_step h hk)
    hstart hkeeps

/-- Node `a` has restarted and `b` still offers the route it learned from it. -/
def echoRun (own : Metric) : List Event :=
  let p : Prefix := ⟨.v4 0x0A000100, 24, Prefix.bits24_le⟩
  [.advertise p ⟨"a", 1000, false, some own⟩, .reconcileNeighbours ["b"],
    .setLink "b" true 10, .neighbourUpdate 0 "b" ⟨⟨"a", p⟩, ⟨5, 10⟩⟩,
    .computeRoutes 1]

/-- The prefix is healthy and costs no more than the way around through `b`. -/
theorem own_source_local_healthy : let p : Prefix := ⟨.v4 0x0A000100, 24, by decide⟩
    let s := run (RouterState.init defaultRouterTunables "a") (echoRun 20)
    (s.routes.lookup p).map (·.nh) = some "a" ∧ OwnSourceLocal s :=
  ⟨by decide +kernel, own_source_local defaultRouterTunables "a" (echoRun 20) (by decide +kernel)⟩

/-- The prefix is unhealthy: node `a` selects its own source through `b`. -/
theorem own_source_through_neighbour : let p : Prefix := ⟨.v4 0x0A000100, 24, by decide⟩
    let s := run (RouterState.init defaultRouterTunables "a") (echoRun INF)
    (s.routes.lookup p).map (fun r => (r.nodeId, r.nh, r.metric)) = some ("a", "b", 25) ∧
      ¬ OwnSourceLocal s := by
  decide +kernel

end Nylon.Core
