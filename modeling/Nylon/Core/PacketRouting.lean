import Nylon.Core.FilterSpec

/-!
Which route a packet takes. `ExitTable` is consulted before `ForwardTable`, and
each by its own longest match: a packet is bounced as soon as any finite route
to the local node contains its destination, even if a longer prefix leads
elsewhere. Without such a route the longest match of all selected routes decides.
-/

namespace Nylon.Core

open State Netip Lib Polyamide

variable {T : Type → Type} [PrefixTable T] {Key Peer Endpoint : Type}

namespace TrafficConfig

variable (cfg : TrafficConfig T Peer) (allowedips : AllowedIPs Peer)
  (isRunning : Peer → Bool) (protoWriter : Bool) {elem : TCElement Peer Endpoint}

/-- An IP packet that is not expiring is bounced if its destination is local, and
otherwise follows the entry in `ForwardTable`. -/
theorem filterElement_ip (haccepted : elem.packet.Accepted) (hip : elem.packet.IsIP)
    (hsystem : cfg.useSystemRouting = false) (httl : 1 < elem.packet.ttl)
    {entry : RouteTableEntry Peer}
    (hentry : cfg.lookupForward elem.packet.dst = some entry) :
    ∃ next, (cfg.device allowedips isRunning protoWriter).filterElement elem =
      .ok (if cfg.isLocal elem.packet.dst then .of .bounce next
        else forwardResult entry next) := by
  let trimmed : TCElement Peer Endpoint := {elem with packet := elem.packet.trimmed}
  have hver : trimmed.packet.version = elem.packet.version := Packet.version_trimmed _
  have hdst : trimmed.packet.dst = elem.packet.dst := Packet.dst_trimmed _
  obtain ⟨packet, hrun⟩ := cfg.runFilters_of_ip allowedips isRunning protoWriter
    (show trimmed.packet.HasHeader from haccepted.hasHeader_trimmed)
    (hip.imp hver.trans hver.trans) hsystem
    ((Packet.ttl_trimmed elem.packet).symm ▸ httl) (hdst ▸ hentry)
  rw [filterElement_of_accepted (by have := haccepted.hasHeader.poly_le; omega) haccepted]
  change ∃ next, (runFilters _ trimmed >>= _) = _
  rw [hrun, Go.ok_bind, hdst]
  split_ifs with hlocal hpass hpass
  · simp at hpass
  · exact ⟨trimmed, rfl⟩
  · exact absurd hpass (forwardResult_action _ _)
  · exact ⟨_, rfl⟩

end TrafficConfig

/-- A finite selected route to the local node contains the address. -/
def LocalCovers (tcfg : TableConfig Key Peer) (routes : Prefix → Option SelRoute)
    (a : Addr) : Prop :=
  ∃ (p : Prefix) (route : SelRoute), p.Masked ∧ p.contains a = true ∧
    routes p = some route ∧ route.metric ≠ INF ∧ route.nh = tcfg.localId

theorem exitEntry_eq_some {tcfg : TableConfig Key Peer} {route : SelRoute}
    {entry : RouteTableEntry Peer} :
    exitEntry tcfg route = some entry ↔
      route.metric ≠ INF ∧ route.nh = tcfg.localId ∧ forwardEntry tcfg route = entry := by
  unfold exitEntry
  split_ifs with hlocal
  · simp [hlocal]
  · simpa using fun hmetric hnh => absurd ⟨hmetric, hnh⟩ hlocal

theorem forwardEntry_nh (tcfg : TableConfig Key Peer) (route : SelRoute) :
    (forwardEntry tcfg route).nh = route.nh := by
  unfold forwardEntry
  split_ifs <;> rfl

/-- The result asked for by one longest match over all selected routes. -/
def FollowsRoute (tcfg : TableConfig Key Peer) (route : SelRoute)
    (result : FilterResult Peer Endpoint (NylonPacket Peer Endpoint)) : Prop :=
  (result.action = .bounce ↔ route.nh = tcfg.localId) ∧
  (route.metric = INF → result.action = .drop) ∧
  (route.nh ≠ tcfg.localId → route.metric ≠ INF → result.action = .forward ∧
    result.elem.toPeer = (tcfg.pubKey route.nh).bind tcfg.lookupPeer)

theorem followsRoute_bounce {tcfg : TableConfig Key Peer} {route : SelRoute}
    {next : TCElement Peer Endpoint} :
    FollowsRoute tcfg route (.of .bounce next) ↔ route.nh = tcfg.localId ∧ route.metric ≠ INF := by
  constructor
  · rintro ⟨hbounce, hdrop, -⟩
    exact ⟨hbounce.mp rfl, fun hmetric => by simpa using hdrop hmetric⟩
  · rintro ⟨hlocal, hmetric⟩
    exact ⟨iff_of_true rfl hlocal, fun h => absurd h hmetric, fun h => absurd hlocal h⟩

theorem followsRoute_forward {tcfg : TableConfig Key Peer} {route : SelRoute}
    {next : TCElement Peer Endpoint} :
    FollowsRoute tcfg route (TrafficConfig.forwardResult (forwardEntry tcfg route) next) ↔
      route.nh ≠ tcfg.localId := by
  have hbounce :
      (TrafficConfig.forwardResult (forwardEntry tcfg route) next).action ≠ .bounce := by
    unfold TrafficConfig.forwardResult
    split_ifs <;> simp
  refine ⟨fun h hlocal => hbounce (h.1.mpr hlocal), fun hremote => ?_⟩
  refine ⟨iff_of_false hbounce hremote, fun hmetric => ?_, fun _ hmetric => ?_⟩
  · simp [TrafficConfig.forwardResult, forwardEntry, hmetric]
  · simp [TrafficConfig.forwardResult, forwardEntry, hmetric]

section Lawful

variable [LawfulPrefixTable T]

/-- The longest selected prefix is the longest one in `ForwardTable`. -/
theorem Mirrors.lookup_forward {tcfg : TableConfig Key Peer} {tables : Tables T Peer}
    {routes : Prefix → Option SelRoute} (h : Mirrors tcfg tables routes) {a : Addr}
    {route : SelRoute} (hroute : IsLongestMatch routes a route) :
    PrefixTable.lookup tables.forwardTable a = some (forwardEntry tcfg route) := by
  obtain ⟨p, hp, hpa, hget, hmax⟩ := hroute
  rw [LawfulPrefixTable.lookup_eq_some]
  refine ⟨p, hp, hpa, by rw [(h p hp).1, hget]; rfl, fun q hq hqa hsome => ?_⟩
  refine hmax q hq hqa ?_
  rwa [(h q hq).1, Option.isSome_map] at hsome

/-- `ExitTable` has a match exactly if a finite local route contains the address,
and then it is an entry of the local node. -/
theorem Mirrors.isLocal_iff {tcfg : TableConfig Key Peer} (cfg : TrafficConfig T Peer)
    {routes : Prefix → Option SelRoute} (h : Mirrors tcfg cfg.tables routes)
    (hid : tcfg.localId = cfg.localId) (a : Addr) :
    cfg.isLocal a = true ↔ LocalCovers tcfg routes a := by
  unfold TrafficConfig.isLocal TrafficConfig.lookupExit
  constructor
  · intro hlocal
    cases hlookup : PrefixTable.lookup cfg.tables.exitTable a with
    | none => simp [hlookup] at hlocal
    | some entry =>
      obtain ⟨p, hp, hpa, hget, -⟩ := (LawfulPrefixTable.lookup_eq_some _ _ _).mp hlookup
      rw [(h p hp).2] at hget
      obtain ⟨route, hroute, hentry⟩ := Option.bind_eq_some_iff.mp hget
      obtain ⟨hmetric, hnh, -⟩ := exitEntry_eq_some.mp hentry
      exact ⟨p, route, hp, hpa, hroute, hmetric, hnh⟩
  · rintro ⟨p, route, hp, hpa, hroute, hmetric, hnh⟩
    have hget : (PrefixTable.get cfg.tables.exitTable p).isSome := by
      rw [(h p hp).2, hroute, Option.bind_some, exitEntry_eq_some.mpr ⟨hmetric, hnh, rfl⟩]
      rfl
    obtain ⟨entry, hentry⟩ := exists_isLongestMatch hp hpa hget
    rw [(LawfulPrefixTable.lookup_eq_some _ _ _).mpr hentry]
    obtain ⟨q, hq, -, hgetq, -⟩ := hentry
    rw [(h q hq).2] at hgetq
    obtain ⟨route', -, hentry'⟩ := Option.bind_eq_some_iff.mp hgetq
    obtain ⟨-, hnh', rfl⟩ := exitEntry_eq_some.mp hentry'
    simp [forwardEntry_nh, hnh', hid]

variable (cfg : TrafficConfig T Peer) (allowedips : AllowedIPs Peer)
  (isRunning : Peer → Bool) (protoWriter : Bool) {elem : TCElement Peer Endpoint}

/-- The filters follow the longest match over all selected routes exactly if that
route ends here, or leads elsewhere and no finite route that ends here contains
the destination. -/
theorem follows_longest_prefix_iff (tcfg : TableConfig Key Peer)
    (hid : tcfg.localId = cfg.localId) (hsystem : cfg.useSystemRouting = false)
    {routes : Table Prefix SelRoute}
    (hmasked : ∀ p route, routes.lookup p = some route → p.Masked)
    (hfill : fillTables tcfg routes = some cfg.tables)
    (haccepted : elem.packet.Accepted) (hip : elem.packet.IsIP)
    (httl : 1 < elem.packet.ttl) {route : SelRoute}
    (hroute : IsLongestMatch routes.lookup elem.packet.dst route) :
    (∃ result, (cfg.device allowedips isRunning protoWriter).filterElement elem =
        .ok result ∧ FollowsRoute tcfg route result) ↔
      (route.nh = tcfg.localId ∧ route.metric ≠ INF) ∨
      (route.nh ≠ tcfg.localId ∧ ¬ LocalCovers tcfg routes.lookup elem.packet.dst) := by
  have hmirrors := fillTables_mirrors hmasked hfill
  obtain ⟨next, hfilter⟩ := cfg.filterElement_ip allowedips isRunning protoWriter
    haccepted hip hsystem httl (hmirrors.lookup_forward hroute)
  have hcovers := hmirrors.isLocal_iff cfg hid elem.packet.dst
  simp only [hfilter, Except.ok.injEq, exists_eq_left']
  split_ifs with hlocal
  · rw [followsRoute_bounce]
    simp [hcovers.mp hlocal]
  · have hnot : ¬ LocalCovers tcfg routes.lookup elem.packet.dst := mt hcovers.mpr hlocal
    have hself : ¬ (route.nh = tcfg.localId ∧ route.metric ≠ INF) := by
      rintro ⟨hnh, hmetric⟩
      obtain ⟨p, hp, hpa, hget, -⟩ := hroute
      exact hnot ⟨p, route, hp, hpa, hget, hmetric, hnh⟩
    rw [followsRoute_forward]
    simp [hself, hnot]

end Lawful

/-- A header of 20 bytes with TTL 64 for `10.1.0.1`. -/
def sampleHeader : Packet :=
  ⟨[0x45, 0, 0, 20, 0, 0, 0, 0, 64, 0, 0, 0, 192, 0, 2, 1, 10, 1, 0, 1], []⟩

def netTen : Prefix := ⟨.v4 0x0A000000, 8, by decide⟩
def netTenOne : Prefix := ⟨.v4 0x0A010000, 16, by decide⟩

def routeVia (nh : NodeId) (pfx : Prefix) : SelRoute :=
  ⟨⟨⟨nh, pfx⟩, ⟨0, 10⟩⟩, nh, 100, []⟩

/-- Routes for a network and for a part of it. -/
def nestedRoutes (outer inner : NodeId) : Table Prefix SelRoute :=
  ((∅ : Table Prefix SelRoute).insert netTen (routeVia outer netTen)).insert netTenOne
    (routeVia inner netTenOne)

/-- The longer prefix is the longest match. -/
theorem isLongestMatch_nested (outer inner : NodeId) :
    IsLongestMatch (nestedRoutes outer inner).lookup sampleHeader.dst
      (routeVia inner netTenOne) := by
  refine ⟨netTenOne, by decide, by decide +kernel, ?_, fun q _ _ hsome => ?_⟩
  · simp [nestedRoutes]
  · simp only [nestedRoutes, Table.lookup_insert_eq] at hsome
    split_ifs at hsome with hinner houter
    · rw [hinner]
    · rw [houter]
      decide
    · simp at hsome

def sampleElement : TCElement NodeId Unit := .fromTun sampleHeader

theorem follows_longest_prefix_iff_nested : ∃ tables : Tables PrefixMap NodeId,
      fillTables (namedPeers "a") (nestedRoutes "c" "b") = some tables ∧
      ∃ result, ((TrafficConfig.routingOnly "a" tables).device
          ⟨fun _ => none, fun _ => none⟩ (fun _ => true) false).filterElement
            sampleElement = .ok result ∧
        FollowsRoute (namedPeers "a") (routeVia "b" netTenOne) result := by
  obtain ⟨tables, hfill⟩ : ∃ tables : Tables PrefixMap NodeId,
      fillTables (namedPeers "a") (nestedRoutes "c" "b") = some tables := ⟨_, rfl⟩
  have hmasked : ∀ p route, (nestedRoutes "c" "b").lookup p = some route → p.Masked := by
    decide +kernel
  have hremote : ∀ p route, (nestedRoutes "c" "b").lookup p = some route → route.nh ≠ "a" := by
    decide +kernel
  have hroute : IsLongestMatch (nestedRoutes "c" "b").lookup sampleElement.packet.dst
      (routeVia "b" netTenOne) := isLongestMatch_nested "c" "b"
  have hiff := follows_longest_prefix_iff (.routingOnly "a" tables)
    ⟨fun _ => none, fun _ => none⟩ (fun _ => true) false (namedPeers "a") rfl rfl hmasked
    hfill (by decide +kernel) (by decide +kernel) (by decide +kernel) hroute
  refine ⟨tables, hfill, hiff.mpr (.inr ⟨by decide, ?_⟩)⟩
  rintro ⟨p, route, -, -, hlookup, -, hnh⟩
  exact hremote p route hlookup hnh

/-- A shorter prefix of the local node takes the packets of a longer prefix that
leads to another node. -/
theorem shorter_local_prefix_bounces : ∃ tables : Tables PrefixMap NodeId,
      fillTables (namedPeers "a") (nestedRoutes "a" "b") = some tables ∧
      IsLongestMatch (nestedRoutes "a" "b").lookup sampleElement.packet.dst
        (routeVia "b" netTenOne) ∧
      ∃ result, ((TrafficConfig.routingOnly "a" tables).device
          ⟨fun _ => none, fun _ => none⟩ (fun _ => true) false).filterElement
            sampleElement = .ok result ∧
        result.action = .bounce ∧
        ¬ FollowsRoute (namedPeers "a") (routeVia "b" netTenOne) result := by
  have hmasked : ∀ p route, (nestedRoutes "a" "b").lookup p = some route → p.Masked := by
    decide +kernel
  have hroute : IsLongestMatch (nestedRoutes "a" "b").lookup sampleElement.packet.dst
      (routeVia "b" netTenOne) := isLongestMatch_nested "a" "b"
  obtain ⟨tables, hfill⟩ : ∃ tables : Tables PrefixMap NodeId,
      fillTables (namedPeers "a") (nestedRoutes "a" "b") = some tables := ⟨_, rfl⟩
  have hmirrors := fillTables_mirrors hmasked hfill
  have hlocal : (TrafficConfig.routingOnly "a" tables).isLocal sampleElement.packet.dst =
      true := by
    refine (Mirrors.isLocal_iff (.routingOnly "a" tables) hmirrors rfl _).mpr ?_
    exact ⟨netTen, routeVia "a" netTen, by decide, by decide +kernel, by decide +kernel,
      by decide +kernel, rfl⟩
  obtain ⟨next, hfilter⟩ := (TrafficConfig.routingOnly "a" tables).filterElement_ip
    ⟨fun _ => none, fun _ => none⟩ (fun _ => true) false
    (show sampleElement.packet.Accepted by decide +kernel) (by decide +kernel) rfl (by decide +kernel)
    (hmirrors.lookup_forward hroute)
  rw [if_pos hlocal] at hfilter
  refine ⟨tables, hfill, hroute, _, hfilter, rfl, fun hfollows => ?_⟩
  exact absurd (followsRoute_bounce.mp hfollows).1 (by decide)

end Nylon.Core
