import Nylon.Core.SelectionSound
import Nylon.Network.LoopFree
import Mathlib.Order.WellFoundedSet

/-!
A network at rest: every node stores what its connected neighbours have
selected, and running `computeRoutes` again changes no entry. Every finite
route is then realised: following the next hops leads to the node that
advertises the prefix, and the metric of the route is the cost of that path.
-/

namespace Nylon.Network.Mesh

open State Netip Lib Nylon.Core Lib.Descent Relation

/-- The part of an entry that other nodes and the forwarding table see. -/
def entryView (r : SelRoute) : PubRoute × NodeId :=
  (r.toPubRoute, r.nh)

def selection (net : Mesh) (a : NodeId) (p : Prefix) : Option SelRoute :=
  (net.nodes.lookup a).bind fun s => s.routes.lookup p

structure Quiescent (net : Mesh) : Prop where
  stored : ∀ a s, net.nodes.lookup a = some s → ∀ n ∈ s.neighbours,
    n.active = true → ∀ p st, n.routes.lookup p = some st →
      (net.selection n.id p).map (·.toPubRoute) = some st.toPubRoute
  stable : ∀ a s, net.nodes.lookup a = some s → ∃ now, ∀ p,
    ((computeRoutes s now).1.routes.lookup p).map entryView =
      (s.routes.lookup p).map entryView

/-- Following the next hops for a source from a node leads to the origin, and
the costs on the way and the metric at the origin sum up to `cost`. -/
inductive Path (net : Mesh) (src : Source) : NodeId → Nat → Prop where
  | origin {s : RouterState} {r : SelRoute} {adv : Advertisement}
      (hs : net.nodes.lookup src.nodeId = some s)
      (hr : s.routes.lookup src.pfx = some r)
      (hsource : r.toSource = src) (hfinite : r.metric ≠ INF)
      (hadv : s.advertised.lookup src.pfx = some adv) (hnh : r.nh = adv.nodeId) :
      Path net src src.nodeId (advMetric adv).toNat
  | hop {a : NodeId} {s : RouterState} {r : SelRoute} {n : Neighbour} {cost : Nat}
      (hs : net.nodes.lookup a = some s) (hr : s.routes.lookup src.pfx = some r)
      (hsource : r.toSource = src) (hfinite : r.metric ≠ INF)
      (hn : n ∈ s.neighbours) (hnh : r.nh = n.id) (hactive : n.active = true)
      (hrest : Path net src n.id cost) :
      Path net src a
        (n.linkCost.toNat + s.hopCost.toNat + s.transitCost.toNat + cost)

theorem Reachable.distinct {net : Mesh} (hreach : Reachable net) :
    ∀ a s, net.nodes.lookup a = some s → (s.neighbours.map (·.id)).Nodup := by
  induction hreach with
  | init h => exact h.distinct
  | @act net a s e _ _ hs _ ih =>
    exact forall_act (P := fun _ sx => (sx.neighbours.map (·.id)).Nodup)
      (distinct_step e (ih a s hs)) ih

/-- What the entry of a node that is at rest is. -/
theorem Quiescent.entry_cases {net : Mesh} (hquiet : net.Quiescent) {a : NodeId}
    {s : RouterState} (hs : net.nodes.lookup a = some s)
    (hids : (s.neighbours.map (·.id)).Nodup) {p : Prefix} {r : SelRoute}
    (hr : s.routes.lookup p = some r) (hfinite : r.metric ≠ INF) :
    (∃ adv, s.advertised.lookup p = some adv ∧ IsAdvertised s p adv r) ∨
    ∃ n ∈ s.neighbours, ∃ st, n.routes.lookup p = some st ∧ IsLearned s n st r := by
  obtain ⟨now, hstable⟩ := hquiet.stable a s hs
  obtain ⟨r', hr', hview⟩ : ∃ r', finalRoute s now p = some r' ∧ entryView r' = entryView r := by
    have hrerun := hstable p
    rw [hr, lookup_computeRoutes] at hrerun
    exact Option.map_eq_some_iff.mp hrerun
  obtain ⟨hpub, hnh⟩ := Prod.mk.inj hview
  have hfinite' : r'.metric ≠ INF := by rwa [hpub]
  rcases finalRoute_cases hr' with ⟨hsel, _⟩ | ⟨_, _, _, _, rfl⟩
  · rcases selectedRoute_cases hsel with
      ⟨adv, hadv, rfl⟩ | ⟨c, hc, rfl, _⟩ | ⟨_, _, _, _, rfl⟩
    · refine Or.inl ⟨adv, hadv, ?_⟩
      constructor <;> simp [← hpub, ← hnh, advertisedRoute]
    · obtain ⟨n, hn, st, hst, hlearned⟩ := isLearned_of_candidate hids hc
      refine Or.inr ⟨n, hn, st, hst, ?_⟩
      constructor
      case finite => exact hfinite
      case nh => rw [← hnh, hlearned.nh]
      case active => exact hlearned.active
      case source => rw [← hpub, hlearned.source]
      case seqno => rw [← hpub, hlearned.seqno]
      case storedFinite => exact hlearned.storedFinite
      case feasible => exact hlearned.feasible
      case metric => rw [← hpub, hlearned.metric]
    · exact absurd rfl hfinite'
  · exact absurd rfl hfinite'

/-- A learned entry at rest: its next hop has the stored route selected, and a smaller
distance. -/
theorem Quiescent.next_hop {base : Source → UInt16} {net : Mesh}
    (hinv : net.Invariant base) (hwithin : net.SentWithin base)
    (hquiet : net.Quiescent) {a : NodeId} {s : RouterState}
    (hs : net.nodes.lookup a = some s) {p : Prefix} {r : SelRoute} {n : Neighbour}
    {st : NeighRoute} (hn : n ∈ s.neighbours) (hst : n.routes.lookup p = some st)
    (hlearned : IsLearned s n st r) :
    net.label base r.toSource n.id < net.label base r.toSource a ∧
      ∃ s' r', net.nodes.lookup n.id = some s' ∧ s'.routes.lookup p = some r' ∧
        r'.toSource = r.toSource ∧ r'.metric = st.metric := by
  have hstored : Stored s n.id p st := ⟨n, hn, rfl, hst⟩
  obtain ⟨r', hselection, hpub⟩ := Option.map_eq_some_iff.mp
    (hquiet.stored a s hs n hn hlearned.active p st hst)
  obtain ⟨s', hs', hr'⟩ := Option.bind_eq_some_iff.mp hselection
  refine ⟨?_, s', r', hs', hr', ?_, by rw [hpub]⟩
  · obtain ⟨_, hs'', hle⟩ := hinv.announcer hs hstored hlearned.storedFinite
    have hlt := routeRank_lt_feasDist (hinv.sources a s hs)
      (hinv.storedWithin hwithin hs _ _ _ hstored) hlearned.feasible hlearned.storedFinite
    unfold label
    rw [hs, hs'', hlearned.source]
    exact WithBot.coe_lt_coe.mpr (hle.trans_lt hlt)
  · rw [hlearned.source, hpub]

/-- There are finitely many nodes, so distances do not fall for ever. -/
theorem label_wellFounded (base : Source → UInt16) (net : Mesh) (src : Source) :
    WellFounded fun y x => net.label base src y < net.label base src x ∧
      y ∈ net.nodes.keys.toFinset ∧ x ∈ net.nodes.keys.toFinset := by
  have : IsStrictOrder NodeId fun y x => net.label base src y < net.label base src x :=
    { irrefl := fun _ => lt_irrefl _
      trans := fun _ _ _ => lt_trans }
  exact Set.wellFoundedOn_iff.mp net.nodes.keys.toFinset.wellFoundedOn

/-- At rest every finite route is realised: following the next hops for the
prefix leads over nodes with the same source to the node named by the router-id,
which advertises the prefix, and the metric is the cost of that path, capped at
`INFM`. -/
theorem routes_realised (net : Mesh) (hreach : Reachable net)
    (base : Source → UInt16) (hwithin : net.SentWithin base)
    (hquiet : net.Quiescent) (a : NodeId) (s : RouterState) (p : Prefix)
    (r : SelRoute) (hs : net.nodes.lookup a = some s)
    (hr : s.routes.lookup p = some r) (hfinite : r.metric ≠ INF) :
    ∃ cost, net.Path ⟨r.nodeId, p⟩ a cost ∧ r.metric.toNat = min INFM.toNat cost := by
  have hinv := hreach.invariant hwithin
  have hmem : ∀ {x sx}, net.nodes.lookup x = some sx → x ∈ net.nodes.keys.toFinset := by
    intro x sx hx
    simp [← AList.mem_keys, ← AList.lookup_isSome, hx]
  generalize hsrc : (⟨r.nodeId, p⟩ : Source) = src
  -- induction along the next hops for the source, at which the distance falls
  induction a using (label_wellFounded base net src).induction generalizing s r with
  | h a ih =>
    have hsource : r.toSource = src := by
      rw [← hsrc, ← hinv.keyed a s hs |>.routes p r hr]
    obtain rfl : src.pfx = p := by rw [← hsrc]
    rcases hquiet.entry_cases hs (hreach.distinct a s hs) hr hfinite with
      ⟨adv, hadv, hown⟩ | ⟨n, hn, st, hst, hlearned⟩
    · obtain rfl : src.nodeId = a := by
        rw [← hinv.id a s hs, ← hsource, hown.source]
      refine ⟨_, .origin hs hr hsource hfinite hadv hown.nh, ?_⟩
      rw [hown.metric, INFM_toNat, min_eq_right]
      exact (ne_INF_iff _).mp (hown.metric ▸ hfinite)
    · obtain ⟨hlt, s', r', hs', hr', hsource', hmetric⟩ :=
        hquiet.next_hop hinv hwithin hs hn hst hlearned
      rw [hsource] at hlt
      obtain ⟨cost, hpath, hcost⟩ := ih n.id ⟨hlt, hmem hs', hmem hs⟩ s' r' hs' hr'
        (hmetric ▸ hlearned.storedFinite) (by rw [← hsource, ← hsource'])
      refine ⟨_, .hop hs hr hsource hfinite hn hlearned.nh hlearned.active hpath, ?_⟩
      rw [hlearned.metric, ← hmetric, hcost]
      omega

theorem lineMesh_quiescent : lineMesh.Quiescent := by
  constructor
  case stored =>
    decide +kernel
  case stable =>
    have hrerun : ∀ a s, lineMesh.nodes.lookup a = some s →
        (∀ p r, s.routes.lookup p = some r →
          ((computeRoutes s 6).1.routes.lookup p).map entryView = some (entryView r)) ∧
        ∀ p r, (computeRoutes s 6).1.routes.lookup p = some r →
          (s.routes.lookup p).map entryView = some (entryView r) := by
      decide +kernel
    intro a s hs
    refine ⟨6, fun p => ?_⟩
    cases hr : s.routes.lookup p with
    | some r => exact (hrerun a s hs).1 p r hr
    | none =>
      cases hr' : (computeRoutes s 6).1.routes.lookup p with
      | none => rfl
      | some r' => simpa [hr] using (hrerun a s hs).2 p r' hr'

/-- The far end of the line reaches the prefix over two hops of cost 15. -/
theorem routes_realised_line : let p : Prefix := ⟨.v4 0x0A000100, 24, by decide⟩
    (lineMesh.selection "c" p).map entryView = some (⟨⟨"a", p⟩, ⟨0, 30⟩⟩, "b") ∧
    ∃ cost, lineMesh.Path ⟨"a", p⟩ "c" cost ∧ 30 = min INFM.toNat cost := by
  intro p
  have hview : (lineMesh.selection "c" p).map entryView = some (⟨⟨"a", p⟩, ⟨0, 30⟩⟩, "b") := by
    decide +kernel
  refine ⟨hview, ?_⟩
  obtain ⟨r, hselection, hr⟩ := Option.map_eq_some_iff.mp hview
  obtain ⟨s, hs, hlookup⟩ := Option.bind_eq_some_iff.mp hselection
  obtain ⟨hpub, _⟩ := Prod.mk.inj hr
  have hrealised := routes_realised lineMesh lineMesh_reachable.reachable (fun _ => 0)
    lineMesh_sentWithin lineMesh_quiescent "c" s p r hs hlookup
    (by rw [hpub]; decide)
  rwa [hpub] at hrealised

end Nylon.Network.Mesh
