import Nylon.Lib.Descent
import Nylon.Network.LocalStep

/-!
A network of nodes and its freedom from routing loops. All updates ever sent are
kept; a node may receive any of them at any time, so updates can be delayed,
lost, duplicated and reordered. Nodes act one at a time, by any event of
`Core.Events`, as long as no source table entry is collected.

The feasibility distances for a source never increase along a learned next hop, and
a node that learns a route picks a next hop whose distance is strictly below its
own. The next hop of an advertisement is not compared with anything: a node that
still advertises a prefix for a client that has become a router forwards to it, and
the client may forward back. Otherwise following the next hops for one source never
leads in a circle.
-/

namespace Nylon.Network

open State Netip Lib Nylon.Core Lib.Descent Relation

structure Message where
  sender : NodeId
  route : PubRoute
  deriving DecidableEq

structure Mesh where
  nodes : Table NodeId RouterState
  sent : List Message

namespace Mesh

/-- Node `a` in state `s` takes the event `e`. -/
def act (net : Mesh) (a : NodeId) (s : RouterState) (e : Event) : Mesh where
  nodes := net.nodes.insert a (step s e).1
  sent := net.sent ++ (sentUpdates (step s e).2).map fun u => ⟨a, u⟩

/-- The node itself, or a client that does not take part in routing. -/
def OwnNode (net : Mesh) (a id : NodeId) : Prop :=
  id = a ∨ net.nodes.lookup id = none

/-- No node advertises a prefix for another node of the network. -/
def AdvertisesOwn (net : Mesh) : Prop :=
  ∀ a s, net.nodes.lookup a = some s → ∀ p adv,
    s.advertised.lookup p = some adv → net.OwnNode a adv.nodeId

instance : DecidablePred AdvertisesOwn := fun net =>
  inferInstanceAs (Decidable (∀ a s, net.nodes.lookup a = some s → ∀ p adv,
    s.advertised.lookup p = some adv → adv.nodeId = a ∨ net.nodes.lookup adv.nodeId = none))

def Allowed (net : Mesh) (s : RouterState) (e : Event) : Prop :=
  KeepsSources s e ∧
    match e with
    | .neighbourUpdate _ neigh adv => ⟨neigh, adv⟩ ∈ net.sent
    | _ => True

instance (net : Mesh) (s : RouterState) : (e : Event) → Decidable (net.Allowed s e)
  | .neighbourUpdate _ _ _ => inferInstanceAs (Decidable (_ ∧ _ ∈ _))
  | .computeRoutes _ | .fullTableUpdate | .pushFullTable _ | .seqnoRequest ..
  | .ackRetract .. | .solveStarvation | .runGC _ | .setLink .. | .advertise .. | .withdraw _
  | .passiveClient .. | .reconcileNeighbours _ => inferInstanceAs (Decidable (_ ∧ True))

/-- Every node starts with empty route and source tables. -/
structure Initial (net : Mesh) : Prop where
  sent : net.sent = []
  id : ∀ a s, net.nodes.lookup a = some s → s.id = a
  routes : ∀ a s, net.nodes.lookup a = some s → s.routes = ∅
  sources : ∀ a s, net.nodes.lookup a = some s → s.sources = ∅
  stored : ∀ a s, net.nodes.lookup a = some s → ∀ n ∈ s.neighbours, n.routes = ∅
  distinct : ∀ a s, net.nodes.lookup a = some s → (s.neighbours.map (·.id)).Nodup

/-- The states that are reached by acts in states with a property. -/
inductive ReachableWhile (P : Mesh → Prop) : Mesh → Prop where
  | init {net : Mesh} (h : net.Initial) : ReachableWhile P net
  | act {net : Mesh} {a : NodeId} {s : RouterState} {e : Event}
      (h : ReachableWhile P net) (hp : P net) (hs : net.nodes.lookup a = some s)
      (hallowed : net.Allowed s e) : ReachableWhile P (net.act a s e)

abbrev Reachable : Mesh → Prop := ReachableWhile fun _ => True

theorem ReachableWhile.reachable {P : Mesh → Prop} {net : Mesh} (h : ReachableWhile P net) :
    Reachable net := by
  induction h with
  | init h => exact .init h
  | act _ _ hs hallowed ih => exact .act ih trivial hs hallowed

section Exec

variable (P : Mesh → Prop) [DecidablePred P]

/-- Lets nodes act one after the other, as long as every event is allowed. -/
def exec (net : Mesh) : List (NodeId × Event) → Option Mesh
  | [] => some net
  | (a, e) :: rest =>
    (net.nodes.lookup a).bind fun s =>
      if P net ∧ net.Allowed s e then exec (net.act a s e) rest else none

variable {P}

theorem ReachableWhile.exec {net net' : Mesh} {acts : List (NodeId × Event)}
    (hreach : ReachableWhile P net) (hexec : net.exec P acts = some net') :
    ReachableWhile P net' := by
  induction acts generalizing net with
  | nil =>
    obtain rfl := Option.some.inj hexec
    exact hreach
  | cons act rest ih =>
    obtain ⟨a, e⟩ := act
    obtain ⟨s, hs, hrest⟩ := Option.bind_eq_some_iff.mp hexec
    split at hrest
    · next hok => exact ih (hreach.act hok.1 hs hok.2) hrest
    · cases hrest

end Exec

/-- Node `a` has selected a finite route of the source with next hop `b`. A next
hop that is the node itself is local delivery and not an edge. -/
def ForwardsTo (net : Mesh) (src : Source) (a b : NodeId) : Prop :=
  ∃ s r, net.nodes.lookup a = some s ∧ s.routes.lookup src.pfx = some r ∧
    r.toSource = src ∧ r.metric ≠ INF ∧ r.nh = b ∧ b ≠ a

/-- All sequence numbers ever sent for a source lie in one window. -/
def SentWithin (base : Source → UInt16) (net : Mesh) : Prop :=
  ∀ m ∈ net.sent, Within base m.route

/-- The feasibility distance of a node; a client is below all nodes. -/
def label (base : Source → UInt16) (net : Mesh) (src : Source) (b : NodeId) :
    WithBot (WithTop Rank) :=
  match net.nodes.lookup b with
  | none => ⊥
  | some s => (feasDist base s src : WithBot (WithTop Rank))

/-- A finite selected route is an own advertisement, or the distance of its next
hop is at most that of the node, with a rank in between that is no higher than
the rank of the route. -/
def Descends (base : Source → UInt16) (net : Mesh) (a : NodeId)
    (s : RouterState) (r : SelRoute) : Prop :=
  (r.nodeId = a ∧ net.OwnNode a r.nh) ∨
  ∃ s', net.nodes.lookup r.nh = some s' ∧ r.nh ≠ a ∧ ∃ d : Rank, d ≤ routeRank base r.toPubRoute ∧
      feasDist base s' r.toSource ≤ d ∧ d ≤ feasDist base s r.toSource

/-- What holds in every reachable state. -/
structure Invariant (base : Source → UInt16) (net : Mesh) : Prop where
  id : ∀ a s, net.nodes.lookup a = some s → s.id = a
  keyed : ∀ a s, net.nodes.lookup a = some s → Keyed s
  sources : ∀ a s, net.nodes.lookup a = some s → SourcesWithin base s
  stored : ∀ a s, net.nodes.lookup a = some s → ∀ id p st, Stored s id p st →
    ∃ u, ⟨id, u⟩ ∈ net.sent ∧ u.toSource = st.toSource ∧ u.seqno = st.seqno ∧
      (st.metric ≠ INF → u = st.toPubRoute)
  sent : ∀ m ∈ net.sent, ∃ s, net.nodes.lookup m.sender = some s ∧
    (m.route.metric ≠ INF → feasDist base s m.route.toSource ≤ routeRank base m.route)

/-- What holds if no node advertises a prefix for another one. -/
structure Descending (base : Source → UInt16) (net : Mesh) : Prop where
  selected : ∀ a s, net.nodes.lookup a = some s → ∀ p r,
    s.routes.lookup p = some r → r.metric ≠ INF → net.Descends base a s r
  acyclic : ∀ src, Acyclic (net.ForwardsTo src)

theorem lookup_act (net : Mesh) (a : NodeId) (s : RouterState) (e : Event)
    (x : NodeId) : (net.act a s e).nodes.lookup x =
      if x = a then some (step s e).1 else net.nodes.lookup x :=
  Table.lookup_insert_eq net.nodes a x _

theorem ownNode_act {net : Mesh} {a : NodeId} {s : RouterState} {e : Event}
    (hs : net.nodes.lookup a = some s) (x id : NodeId) :
    (net.act a s e).OwnNode x id ↔ net.OwnNode x id := by
  unfold OwnNode
  rw [lookup_act]
  split
  · next heq =>
    subst heq
    simp [hs]
  · rfl

theorem invariant_init {base : Source → UInt16} {net : Mesh}
    (h : net.Initial) : net.Invariant base := by
  have hstored : ∀ a s, net.nodes.lookup a = some s → ∀ id p st, ¬ Stored s id p st := by
    rintro a s hs id p st ⟨n, hn, _, hst⟩
    simp [h.stored a s hs n hn] at hst
  constructor
  case id => exact h.id
  case keyed =>
    intro a s hs
    exact ⟨by simp [h.routes a s hs], fun id p st hst => absurd hst (hstored a s hs id p st)⟩
  case sources =>
    intro a s hs src d hd
    simp [h.sources a s hs] at hd
  case stored => exact fun a s hs id p st hst => absurd hst (hstored a s hs id p st)
  case sent => simp [h.sent]

theorem descending_init {base : Source → UInt16} {net : Mesh}
    (h : net.Initial) : net.Descending base := by
  constructor
  case selected =>
    intro a s hs p r hr
    simp [h.routes a s hs] at hr
  case acyclic =>
    intro src a hcycle
    obtain ⟨b, ⟨s, r, hs, hr, _⟩, _⟩ := TransGen.head'_iff.mp hcycle
    simp [h.routes a s hs] at hr

section Act

variable {base : Source → UInt16} {net : Mesh} {a : NodeId} {s : RouterState} {e : Event}

theorem SentWithin.before (h : (net.act a s e).SentWithin base) : net.SentWithin base :=
  fun m hm => h m (List.mem_append_left _ hm)

theorem Invariant.storedWithin (h : net.Invariant base)
    (hwithin : net.SentWithin base) (hs : net.nodes.lookup a = some s) :
    StoredWithin base s := by
  intro id p st hst
  obtain ⟨u, hu, hsource, hseqno, _⟩ := h.stored a s hs id p st hst
  have hmem := hwithin _ hu
  unfold Within at hmem ⊢
  rwa [← hsource, ← hseqno]

/-- The node that announced a stored finite route has a distance no larger than
the rank of the route. -/
theorem Invariant.announcer (h : net.Invariant base)
    (hs : net.nodes.lookup a = some s) {id : NodeId} {p : Prefix} {st : NeighRoute}
    (hst : Stored s id p st) (hfinite : st.metric ≠ INF) :
    ∃ s', net.nodes.lookup id = some s' ∧
      feasDist base s' st.toSource ≤ routeRank base st.toPubRoute := by
  obtain ⟨u, hu, _, _, heq⟩ := h.stored a s hs id p st hst
  obtain rfl := heq hfinite
  obtain ⟨s', hs', hle⟩ := h.sent _ hu
  exact ⟨s', hs', hle hfinite⟩

/-- A stored route that is feasible was announced by another node: the own
announcements are never below the own distance. -/
theorem Invariant.announcer_ne (h : net.Invariant base)
    (hs : net.nodes.lookup a = some s) {id : NodeId} {p : Prefix} {st : NeighRoute}
    (hst : Stored s id p st) (hfinite : st.metric ≠ INF)
    (hlt : (routeRank base st.toPubRoute : WithTop Rank) <
      feasDist base s st.toSource) : id ≠ a := by
  rintro rfl
  obtain ⟨s', hs', hle⟩ := h.announcer hs hst hfinite
  rw [hs] at hs'
  obtain rfl := Option.some.inj hs'
  exact absurd hle (not_le_of_gt hlt)

variable (h : net.Invariant base) (hdescends : net.Descending base) (hown : net.AdvertisesOwn)
  (hs : net.nodes.lookup a = some s) (hallowed : net.Allowed s e)
  (hlocal : LocalStep base s (step s e).1 (sentUpdates (step s e).2))

include h hs hallowed in
theorem Invariant.act_stored :
    ∀ x sx, (net.act a s e).nodes.lookup x = some sx → ∀ id p st, Stored sx id p st →
      ∃ u, ⟨id, u⟩ ∈ (net.act a s e).sent ∧ u.toSource = st.toSource ∧
        u.seqno = st.seqno ∧ (st.metric ≠ INF → u = st.toPubRoute) := by
  intro x sx hx id p st' hst'
  rw [lookup_act] at hx
  split at hx
  · obtain rfl := Option.some.inj hx
    rcases stored_step hst' with ⟨st, hst, hfrom⟩ | ⟨_, now, rfl⟩
    · obtain ⟨u, hu, hsource, hseqno, heq⟩ := h.stored a s hs id p st hst
      refine ⟨u, List.mem_append_left _ hu, hsource.trans hfrom.source.symm,
        hseqno.trans hfrom.seqno.symm, fun hfinite => ?_⟩
      rw [hfrom.pub_eq hfinite]
      refine heq ?_
      rwa [← hfrom.pub_eq hfinite]
    · exact ⟨st'.toPubRoute, List.mem_append_left _ hallowed.2, rfl, rfl, fun _ => rfl⟩
  · obtain ⟨u, hu, hrest⟩ := h.stored x sx hx id p st' hst'
    exact ⟨u, List.mem_append_left _ hu, hrest⟩

include h hs hlocal in
theorem Invariant.act_sent :
    ∀ m ∈ (net.act a s e).sent, ∃ sx, (net.act a s e).nodes.lookup m.sender = some sx ∧
      (m.route.metric ≠ INF → feasDist base sx m.route.toSource ≤ routeRank base m.route) := by
  intro m hm
  rw [lookup_act]
  rcases List.mem_append.mp hm with hold | hnew
  · obtain ⟨sx, hx, hle⟩ := h.sent m hold
    split
    · next heq =>
      rw [heq, hs] at hx
      obtain rfl := Option.some.inj hx
      exact ⟨_, rfl, fun hfinite => (hlocal.decreasing _).trans (hle hfinite)⟩
    · exact ⟨sx, hx, hle⟩
  · obtain ⟨u, hu, rfl⟩ := List.mem_map.mp hnew
    exact ⟨_, if_pos rfl, hlocal.announced u hu⟩

include hs hlocal in
/-- Descent at a node that does not act: the distance of its next hop can only
have fallen. -/
theorem Descends.act_other {x : NodeId} {sx : RouterState} {r : SelRoute}
    (hr : net.Descends base x sx r) : (net.act a s e).Descends base x sx r := by
  rcases hr with ⟨hnode, hown⟩ | ⟨s', hs', hne, d, hd, hle, hge⟩
  · exact Or.inl ⟨hnode, (ownNode_act hs x r.nh).mpr hown⟩
  · by_cases heq : r.nh = a
    · rw [heq, hs] at hs'
      obtain rfl := Option.some.inj hs'
      refine Or.inr ⟨_, by rw [lookup_act, if_pos heq], hne, d, hd, ?_, hge⟩
      exact (hlocal.decreasing _).trans hle
    · exact Or.inr ⟨s', by rw [lookup_act, if_neg heq, hs'], hne, d, hd, hle, hge⟩

include h hdescends hown hs hlocal in
/-- Descent at the acting node. -/
theorem Descends.act_self {p : Prefix} {r : SelRoute}
    (hr : (step s e).1.routes.lookup p = some r) (hfinite : r.metric ≠ INF) :
    (net.act a s e).Descends base a (step s e).1 r := by
  rcases hlocal.selected p r hr hfinite with ⟨r₀, hr₀, hpub, hnh, hmin⟩ |
    ⟨adv, hadv, hnode, hnh⟩ | ⟨st, hst, hstfinite, hsource, hseqno, hle, hlt, hge⟩
  · have hfinite₀ : r₀.metric ≠ INF := by rwa [hpub]
    rcases hdescends.selected a s hs p r₀ hr₀ hfinite₀ with
      ⟨hnode, hown⟩ | ⟨s', hs', hne, d, hd, hle, hge⟩
    · rw [hpub] at hnode
      rw [hnh] at hown
      exact Or.inl ⟨hnode, (ownNode_act hs a r.nh).mpr hown⟩
    · rw [hpub] at hd hle hge
      rw [hnh] at hs' hne
      refine Or.inr ⟨s', by rw [lookup_act, if_neg hne, hs'], hne, d, hd, hle, ?_⟩
      exact (le_min hge (WithTop.coe_le_coe.mpr hd)).trans hmin
  · refine Or.inl ⟨hnode.trans (h.id a s hs), ?_⟩
    rw [ownNode_act hs, hnh]
    exact hown a s hs p adv hadv
  · have hne : r.nh ≠ a := h.announcer_ne hs hst hstfinite (hsource ▸ hlt)
    obtain ⟨s', hs', hle'⟩ := h.announcer hs hst hstfinite
    refine Or.inr ⟨s', by rw [lookup_act, if_neg hne, hs'], hne,
      routeRank base st.toPubRoute, ?_, by rwa [hsource], hge⟩
    rw [routeRank, routeRank, hsource]
    exact rank_le_of_metric hseqno.symm hle

include hdescends in
/-- Along a next hop the distance does not increase. -/
theorem Descending.label_le (src : Source) (x y : NodeId)
    (hedge : net.ForwardsTo src x y) : net.label base src y ≤ net.label base src x := by
  obtain ⟨sx, r, hx, hr, rfl, hfinite, rfl, hne⟩ := hedge
  unfold label
  rw [hx]
  rcases hdescends.selected x sx hx _ r hr hfinite with
    ⟨_, heq | hnone⟩ | ⟨s', hs', _, d, _, hle, hge⟩
  · exact absurd heq hne
  · rw [hnone]
    exact bot_le
  · rw [hs']
    exact WithBot.coe_le_coe.mpr (hle.trans hge)

include h hdescends hown hs hlocal in
theorem Descending.act_acyclic (src : Source) : Acyclic ((net.act a s e).ForwardsTo src) := by
  have hkeep : ∀ x y, x ≠ a → (net.act a s e).ForwardsTo src x y → net.ForwardsTo src x y := by
    rintro x y hx ⟨sx, r, hsx, hrest⟩
    rw [lookup_act, if_neg hx] at hsx
    exact ⟨sx, r, hsx, hrest⟩
  by_cases hkept : ∃ r r₀, (step s e).1.routes.lookup src.pfx = some r ∧
      s.routes.lookup src.pfx = some r₀ ∧ r₀.toPubRoute = r.toPubRoute ∧ r₀.nh = r.nh
  · -- the acting node keeps its route: no edge is new
    obtain ⟨r, r₀, hr, hr₀, hpub, hnh⟩ := hkept
    have hsub : ∀ x y, (net.act a s e).ForwardsTo src x y → net.ForwardsTo src x y := by
      intro x y hedge
      by_cases hx : x = a
      · subst hx
        obtain ⟨sx, r', hsx, hr', hsource, hfinite, hnh', hne⟩ := hedge
        rw [lookup_act, if_pos rfl] at hsx
        obtain rfl := Option.some.inj hsx
        obtain rfl : r = r' := by simpa [hr] using hr'
        exact ⟨s, r₀, hs, hr₀, by rw [hpub, hsource], by rwa [hpub], hnh.trans hnh', hne⟩
      · exact hkeep x y hx hedge
    exact fun x hcycle => hdescends.acyclic src x (TransGen.mono hsub x x hcycle)
  · apply acyclic_replace a (hdescends.acyclic src) (hdescends.label_le src) hkeep
    rintro y ⟨sx, r, hsx, hr, rfl, hfinite, rfl, hne⟩
    rw [lookup_act, if_pos rfl] at hsx
    obtain rfl := Option.some.inj hsx
    unfold label
    rw [hs]
    rcases hlocal.selected _ r hr hfinite with ⟨r₀, hr₀, hpub, hnh, _⟩ |
      ⟨adv, hadv, _, hnh⟩ | ⟨st, hst, hstfinite, hsource, _, _, hlt, _⟩
    · exact absurd ⟨r, r₀, hr, hr₀, hpub, hnh⟩ hkept
    · rcases hown a s hs _ adv hadv with heq | hnone
      · exact absurd (hnh.trans heq) hne
      · rw [hnh, hnone]
        exact WithBot.bot_lt_coe _
    · obtain ⟨s', hs', hle⟩ := h.announcer hs hst hstfinite
      rw [hs']
      rw [← hsource] at hle
      exact WithBot.coe_lt_coe.mpr (hle.trans_lt hlt)

/-- A statement about every node, shown for the acting one and the others. -/
theorem forall_act {P : NodeId → RouterState → Prop} (hself : P a (step s e).1)
    (hother : ∀ x sx, net.nodes.lookup x = some sx → P x sx) :
    ∀ x sx, (net.act a s e).nodes.lookup x = some sx → P x sx := by
  intro x sx hx
  rw [lookup_act] at hx
  split at hx
  · next heq =>
    obtain rfl := Option.some.inj hx
    rwa [heq]
  · exact hother x sx hx

include h hs hallowed in
theorem Invariant.localStep (hwithin : (net.act a s e).SentWithin base) :
    LocalStep base s (step s e).1 (sentUpdates (step s e).2) ∧
      SourcesWithin base (step s e).1 := by
  have hsent : ∀ u ∈ sentUpdates (step s e).2, Within base u := fun u hu =>
    hwithin ⟨a, u⟩ (List.mem_append_right _ (List.mem_map.mpr ⟨u, hu, rfl⟩))
  exact localStep_step (h.keyed a s hs) (h.sources a s hs) (h.storedWithin hwithin.before hs)
    hallowed.1 hsent

include h hs hallowed in
theorem Invariant.act (hwithin : (net.act a s e).SentWithin base) :
    (net.act a s e).Invariant base := by
  obtain ⟨hlocal, hsources⟩ := h.localStep hs hallowed hwithin
  constructor
  case id => exact forall_act ((step_id s e).trans (h.id a s hs)) h.id
  case keyed =>
    exact forall_act (P := fun _ sx => Keyed sx) ((h.keyed a s hs).step e) h.keyed
  case sources =>
    exact forall_act (P := fun _ sx => SourcesWithin base sx) hsources h.sources
  case stored => exact h.act_stored hs hallowed
  case sent => exact h.act_sent hs hlocal

include h hdescends hown hs hallowed in
theorem Descending.act (hwithin : (net.act a s e).SentWithin base) :
    (net.act a s e).Descending base := by
  have hlocal := (h.localStep hs hallowed hwithin).1
  constructor
  case selected =>
    apply forall_act (P := fun x sx => ∀ p r, sx.routes.lookup p = some r →
      r.metric ≠ INF → (net.act a s e).Descends base x sx r)
    · exact fun p r hr hfinite => Descends.act_self h hdescends hown hs hlocal hr hfinite
    · intro x sx hx p r hr hfinite
      exact Descends.act_other hs hlocal (hdescends.selected x sx hx p r hr hfinite)
  case acyclic => exact hdescends.act_acyclic h hown hs hlocal

end Act

theorem ReachableWhile.invariant {P : Mesh → Prop} {base : Source → UInt16} {net : Mesh}
    (hreach : ReachableWhile P net) (hwithin : net.SentWithin base) : net.Invariant base := by
  induction hreach with
  | init h => exact invariant_init h
  | act _ _ hs hallowed ih => exact (ih hwithin.before).act hs hallowed hwithin

theorem ReachableWhile.descending {base : Source → UInt16} {net : Mesh}
    (hreach : ReachableWhile AdvertisesOwn net) (hwithin : net.SentWithin base) :
    net.Descending base := by
  induction hreach with
  | init h => exact descending_init h
  | act hbefore hown hs hallowed ih =>
    exact (ih hwithin.before).act (hbefore.invariant hwithin.before) hown hs hallowed hwithin

/-- Per-source loop freedom: as long as no node advertises a prefix for another one,
following the next hops of the finite routes of a source never leads in a circle, and
a node whose next hop is itself is the origin of the source. -/
theorem loop_free (net : Mesh) (hreach : ReachableWhile AdvertisesOwn net) (base : Source → UInt16)
    (hwithin : net.SentWithin base) (src : Source) :
    (∀ a, ¬ TransGen (net.ForwardsTo src) a a) ∧
    ∀ a s r, net.nodes.lookup a = some s → s.routes.lookup src.pfx = some r →
      r.toSource = src → r.metric ≠ INF → r.nh = a → src.nodeId = a := by
  have hdescends := hreach.descending hwithin
  refine ⟨hdescends.acyclic src, ?_⟩
  rintro a s r hs hr rfl hfinite hnh
  rcases hdescends.selected a s hs _ r hr hfinite with ⟨hnode, _⟩ | ⟨_, _, hne, _⟩
  · exact hnode
  · exact absurd hnh hne

def lineNode (id : NodeId) (neighs : List NodeId) : RouterState :=
  {RouterState.init defaultRouterTunables id with
    neighbours := neighs.map fun n => ⟨n, ∅, true, 10⟩}

/-- A router that advertises one prefix of its own. -/
def lineOrigin : RouterState :=
  {lineNode "a" ["b"] with
    advertised := AList.singleton ⟨.v4 0x0A000100, 24, Prefix.bits24_le⟩ ⟨"a", 1000, false, none⟩}

/-- Three routers in a line, the first one with a prefix. -/
def lineStart : Mesh where
  nodes := ((AList.singleton "c" (lineNode "c" ["b"])).insert "b"
    (lineNode "b" ["a", "c"])).insert "a" lineOrigin
  sent := []

def lineActs : List (NodeId × Event) :=
  let p : Prefix := ⟨.v4 0x0A000100, 24, Prefix.bits24_le⟩
  [("a", .computeRoutes 1), ("b", .neighbourUpdate 2 "a" ⟨⟨"a", p⟩, ⟨0, 0⟩⟩),
    ("b", .computeRoutes 3), ("c", .neighbourUpdate 4 "b" ⟨⟨"a", p⟩, ⟨0, 15⟩⟩),
    ("c", .computeRoutes 5)]

theorem lineStart_initial : lineStart.Initial := by
  constructor <;> decide +kernel

theorem lineActs_allowed : (lineStart.exec AdvertisesOwn lineActs).isSome = true := by
  decide +kernel

def lineMesh : Mesh := (lineStart.exec AdvertisesOwn lineActs).get lineActs_allowed

theorem lineMesh_reachable : ReachableWhile AdvertisesOwn lineMesh :=
  (ReachableWhile.init lineStart_initial).exec (Option.some_get _).symm

theorem lineMesh_sentWithin : lineMesh.SentWithin fun _ => 0 := by
  unfold SentWithin
  decide +kernel

theorem loop_free_line : let src : Source := ⟨"a", ⟨.v4 0x0A000100, 24, by decide⟩⟩
    (∀ a, ¬ TransGen (lineMesh.ForwardsTo src) a a) ∧
    ∀ a s r, lineMesh.nodes.lookup a = some s → s.routes.lookup src.pfx = some r →
      r.toSource = src → r.metric ≠ INF → r.nh = a → src.nodeId = a :=
  loop_free lineMesh lineMesh_reachable (fun _ => 0) lineMesh_sentWithin _

/-- A router and its passive client, which runs as a router already. -/
def clientStart : Mesh where
  nodes := (AList.singleton "c" (lineNode "c" ["a"])).insert "a" (lineNode "a" [])
  sent := []

theorem clientStart_initial : clientStart.Initial := by
  constructor <;> decide +kernel

/-- The router advertises a prefix of the client, then takes it for a neighbour, and the
client selects the route through the router. -/
def clientActs : List (NodeId × Event) :=
  let p : Prefix := ⟨.v4 0x0A000100, 24, Prefix.bits24_le⟩
  [("a", .passiveClient 0 p "c" false (some 0)), ("a", .reconcileNeighbours ["c"]),
    ("a", .setLink "c" true 10), ("a", .computeRoutes 1),
    ("c", .neighbourUpdate 2 "a" ⟨⟨"a", p⟩, ⟨0, 0⟩⟩), ("c", .computeRoutes 3)]

theorem clientActs_allowed : (clientStart.exec (fun _ => True) clientActs).isSome = true := by
  decide +kernel

def clientMesh : Mesh := (clientStart.exec (fun _ => True) clientActs).get clientActs_allowed

theorem forwardsTo_of_any {net : Mesh} {src : Source} {a b : NodeId}
    (h : (net.nodes.lookup a).any (fun s => (s.routes.lookup src.pfx).any fun r =>
      r.toSource = src ∧ r.metric ≠ INF ∧ r.nh = b ∧ b ≠ a) = true) : net.ForwardsTo src a b := by
  obtain ⟨s, hs, hr⟩ := (Option.any_eq_true _ _).mp h
  obtain ⟨r, hr, hedge⟩ := (Option.any_eq_true _ _).mp hr
  exact ⟨s, r, hs, hr, of_decide_eq_true hedge⟩

/-- The router forwards to the client, and the client to the router. -/
theorem advertised_client_loops : let src : Source := ⟨"a", ⟨.v4 0x0A000100, 24, by decide⟩⟩
    Reachable clientMesh ∧ clientMesh.SentWithin (fun _ => 0) ∧
      TransGen (clientMesh.ForwardsTo src) "a" "a" := by
  intro src
  have hto : clientMesh.ForwardsTo src "a" "c" := forwardsTo_of_any (by decide +kernel)
  have hback : clientMesh.ForwardsTo src "c" "a" := forwardsTo_of_any (by decide +kernel)
  refine ⟨(ReachableWhile.init clientStart_initial).exec (Option.some_get _).symm, ?_,
    .tail (.single hto) hback⟩
  unfold SentWithin
  decide +kernel

end Mesh

end Nylon.Network
