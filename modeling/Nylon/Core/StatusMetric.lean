import Nylon.Core.SelectionSound
import Nylon.Core.SourceTable

/-!
The metrics that a node reports (`statusMetric` of `core/ipc_handler.go`): the transit cost is
taken off again from what was learned from others. Every finite route of another node was
learned with the transit cost in its metric, also where the sum was capped; the source table
only takes over metrics of selected routes, and holds change a metric to `INF` only. So the
subtraction does not wrap.
-/

namespace Nylon.Core

open State Netip Lib

variable {s : RouterState} {p : Prefix}

def statusMetric (metric : Metric) (source localId : NodeId) (transitCost : Metric) : Metric :=
  if metric = INF ∨ source = localId then metric
  else metric - transitCost

/-- A metric that counts for a source holds the transit cost. -/
def HoldsTransit (s : RouterState) (src : Source) (d : FD) : Prop :=
  d.metric ≠ INF → src.nodeId ≠ s.id → s.transitCost.toNat ≤ d.metric.toNat

/-- All metrics of the node hold the transit cost. -/
structure TransitCounted (s : RouterState) : Prop where
  routes : ∀ p r, s.routes.lookup p = some r → HoldsTransit s r.toSource r.toFD
  sources : ∀ src d, s.sources.lookup src = some d → HoldsTransit s src d

theorem transitCost_le_candidate {c : Candidate}
    (hc : c ∈ candidates s p) : s.transitCost.toNat ≤ c.route.metric.toNat := by
  obtain ⟨n, _, st, _, hcand⟩ := mem_candidates.mp hc
  obtain ⟨htotal, _, _, _, _, hmetric, _⟩ := candidate_eq_some hcand
  obtain ⟨hhop, hstored⟩ := (addMetric_ne_INF_iff _ _).mp htotal
  obtain ⟨hlink, hcost⟩ := hopCostTo_ne_INF hhop
  have hfinite : s.transitCost ≠ INF := by
    rw [hopCostTo, if_pos hlink] at hhop
    exact ((addMetric_ne_INF_iff _ _).mp hhop).2
  have hcapped := (ne_INF_iff _).mp hfinite
  rw [hmetric, addMetric_toNat hhop hstored, hcost, INFM_toNat]
  omega

theorem holdsTransit_selectedRoute {now : Time} {r : SelRoute}
    (hsel : selectedRoute s now p = some r) : HoldsTransit s r.toSource r.toFD := by
  intro hfinite hother
  rcases selectedRoute_cases hsel with ⟨adv, _, rfl⟩ | ⟨c, hc, rfl, _⟩ | ⟨_, _, _, _, rfl⟩
  · exact absurd rfl hother
  · exact transitCost_le_candidate hc
  · exact absurd rfl hfinite

theorem holdsTransit_finalRoute {now : Time} {r : SelRoute}
    (hfinal : finalRoute s now p = some r) : HoldsTransit s r.toSource r.toFD := by
  rcases finalRoute_cases hfinal with ⟨hsel, _⟩ | ⟨_, _, _, _, rfl⟩
  · exact holdsTransit_selectedRoute hsel
  · exact fun hfinite => absurd rfl hfinite

theorem TransitCounted.step (hkeyed : Keyed s) (h : TransitCounted s)
    (e : Event) : TransitCounted (step s e).1 := by
  obtain ⟨hid, htunables⟩ := step_config s e
  have hsame : ∀ {t : RouterState}, t.id = s.id → t.toRouterTunables = s.toRouterTunables →
      ∀ src d, HoldsTransit t src d ↔ HoldsTransit s src d := by
    intro t hid htunables src d
    unfold HoldsTransit
    rw [hid, htunables]
  have hnew : ∀ t now, recompute s e = some (t, now) → ∀ p r,
      selectedRoute t now p = some r → HoldsTransit s r.toSource r.toFD := by
    intro t now hrecompute p r hsel
    obtain ⟨hid, htunables⟩ := recompute_config hrecompute
    exact (hsame hid htunables _ _).mp (holdsTransit_selectedRoute hsel)
  constructor
  · intro p r hr
    rw [hsame hid htunables]
    rcases route_step hr with hold | ⟨t, now, hrecompute, hfinal⟩
    · exact h.routes p r hold
    · obtain ⟨hid, htunables⟩ := recompute_config hrecompute
      exact (hsame hid htunables _ _).mp (holdsTransit_finalRoute hfinal)
  · intro src d hd
    rw [hsame hid htunables]
    exact sources_step hkeyed h.sources (fun p r hr _ => h.routes p r hr)
      (fun t now hrecompute p r hsel _ => hnew t now hrecompute p r hsel) hd

theorem run_config (tunables : RouterTunables) (id : NodeId) (events : List Event) :
    (run (RouterState.init tunables id) events).id = id ∧
      (run (RouterState.init tunables id) events).toRouterTunables = tunables := by
  refine Transitions.run_invariant
    (fun (s : RouterState) e (h : s.id = id ∧ s.toRouterTunables = tunables) _ => ?_) ⟨rfl, rfl⟩
    Transitions.along_true
  obtain ⟨hid, htunables⟩ := step_config s e
  exact ⟨hid.trans h.1, htunables.trans h.2⟩

theorem transitCounted_run (tunables : RouterTunables) (id : NodeId) (events : List Event) :
    TransitCounted (run (RouterState.init tunables id) events) := by
  have hboth : Keyed (run (RouterState.init tunables id) events) ∧
      TransitCounted (run (RouterState.init tunables id) events) := by
    refine Transitions.run_invariant
      (fun s e (h : Keyed s ∧ TransitCounted s) _ => ⟨h.1.step e, h.2.step h.1 e⟩) ?_
      Transitions.along_true
    refine ⟨Keyed.init tunables id, ?_, ?_⟩
    · simp [RouterState.init]
    · simp [RouterState.init]
  exact hboth.2

theorem HoldsTransit.reported {src : Source} {d : FD}
    (h : HoldsTransit s src d) (hfinite : d.metric ≠ INF) (hother : src.nodeId ≠ s.id) :
    s.transitCost ≤ d.metric ∧
      ((statusMetric d.metric src.nodeId s.id s.transitCost).toNat : Int) =
        d.metric.toNat - s.transitCost.toNat := by
  have hle := h hfinite hother
  have hle' : s.transitCost ≤ d.metric := UInt32.le_iff_toNat_le.mpr hle
  refine ⟨hle', ?_⟩
  rw [statusMetric, if_neg (not_or.mpr ⟨hfinite, hother⟩), UInt32.toNat_sub_of_le _ _ hle']
  omega

/-- In every reachable state, finite routes and distances of other nodes are at least the
transit cost, and what is reported for them is the exact difference. -/
theorem statusMetric_never_wraps (tunables : RouterTunables) (id : NodeId) (events : List Event) :
    let s := run (RouterState.init tunables id) events
    (s.id = id ∧ s.transitCost = tunables.transitCost) ∧
      (∀ p r, s.routes.lookup p = some r → r.metric ≠ INF → r.nodeId ≠ s.id →
        s.transitCost ≤ r.metric ∧
          ((statusMetric r.metric r.nodeId s.id s.transitCost).toNat : Int) =
            r.metric.toNat - s.transitCost.toNat) ∧
      ∀ src d, s.sources.lookup src = some d → d.metric ≠ INF → src.nodeId ≠ s.id →
        s.transitCost ≤ d.metric ∧
          ((statusMetric d.metric src.nodeId s.id s.transitCost).toNat : Int) =
            d.metric.toNat - s.transitCost.toNat := by
  intro s
  have h : TransitCounted s := transitCounted_run tunables id events
  have hconfig : s.id = id ∧ s.toRouterTunables = tunables := run_config tunables id events
  refine ⟨⟨hconfig.1, congrArg (·.transitCost) hconfig.2⟩, ?_, ?_⟩
  · intro p r hr hfinite hother
    exact (h.routes p r hr).reported hfinite hother
  · intro src d hd hfinite hother
    exact (h.sources src d hd).reported hfinite hother

end Nylon.Core
