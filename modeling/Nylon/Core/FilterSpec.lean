import Nylon.Core.TrafficFilters

/-!
What each filter does with a packet whose header is complete, and what the
chain does: packets that are neither MPLS nor control messages are first
compared with `ExitTable` and then routed by `ForwardTable`. No filter panics,
except that `tcfAllowedip` does on a packet that is not IP and has no peer.
-/

namespace Nylon.Core

open State Netip Lib Polyamide

variable {T : Type → Type} {Peer Endpoint : Type}

namespace TrafficConfig

variable (cfg : TrafficConfig T Peer) {elem : TCElement Peer Endpoint}

theorem traceAddrs_ok {packet : Packet} (h : packet.HasHeader) :
    cfg.traceAddrs packet = .ok () := by
  unfold traceAddrs
  split_ifs
  · obtain ⟨src, hsrc⟩ := h.getSrc
    rw [hsrc, Go.ok_bind, h.getDst]
    rfl
  · rfl

theorem mplsFilter_pass (h : elem.packet.HasHeader)
    (hver : elem.packet.version ≠ nyUnicastProtoId) :
    cfg.mplsFilter elem = .ok (.of .pass elem) := by
  unfold mplsFilter
  rw [h.getIPVersion, Go.ok_bind, if_pos hver]
  rfl

theorem mplsFilter_decides (h : elem.packet.HasHeader)
    (hver : elem.packet.version = nyUnicastProtoId) : Decides cfg.mplsFilter elem := by
  unfold Decides mplsFilter
  rw [h.getIPVersion, Go.ok_bind, if_neg (not_not.mpr hver)]
  cases cfg.exitFilter with
  | none => exact ⟨_, rfl, by simp⟩
  | some snap =>
    simp only [h.payload, Go.ok_bind]
    split_ifs
    · exact ⟨_, rfl, by simp⟩
    · exact ⟨_, rfl, by simp⟩
    · exact handleMplsPacket_decides h hver

theorem nylonFilter_pass (h : elem.packet.HasHeader)
    (hcontrol : ¬ (elem.incoming = true ∧ elem.packet.version = nyProtoId)) :
    nylonFilter elem = .ok (.of .pass elem) := by
  unfold nylonFilter
  by_cases hin : elem.incoming = true
  · rw [if_neg (by simp [hin]), h.getIPVersion, Go.ok_bind, if_neg fun hver => hcontrol ⟨hin, hver⟩]
    rfl
  · rw [if_pos (by simpa using hin)]
    rfl

theorem nylonFilter_decides (h : elem.packet.HasHeader) (hin : elem.incoming = true)
    (hver : elem.packet.version = nyProtoId) : Decides nylonFilter elem := by
  unfold Decides nylonFilter
  rw [if_neg (by simp [hin]), h.getIPVersion, Go.ok_bind, if_pos hver, h.payload]
  exact ⟨_, rfl, by simp⟩

theorem ttlFilter_pass (h : elem.packet.HasHeader)
    (hskip : elem.incoming = false ∨ ¬ elem.packet.IsIP) :
    cfg.ttlFilter elem = .ok (.of .pass elem) := by
  unfold ttlFilter
  by_cases hin : elem.incoming = true
  · have hip : ¬ elem.packet.IsIP := hskip.resolve_left (by simp [hin])
    rw [if_neg (by simp [hin]), h.getIPVersion, Go.ok_bind, if_pos (not_or.mp hip)]
    rfl
  · rw [if_pos (by simpa using hin)]
    rfl

private theorem ttl_sub_one_eq_zero {ttl : UInt8} (hpos : ttl ≥ 1) : ttl - 1 = 0 ↔ ttl ≤ 1 := by
  have hsub := UInt8.toNat_sub_of_le ttl 1 hpos
  rw [← UInt8.toNat_inj, UInt8.le_iff_toNat_le, hsub]
  exact Nat.sub_eq_zero_iff_le

/-- A hop taken off keeps the routing, and uses up a TTL of at most one. -/
theorem takeHop_ok {packet : Packet} (h : packet.HasHeader) (hip : packet.IsIP) :
    ∃ ttl next, takeHop packet = .ok (ttl, next) ∧ packet.SameRouting next ∧
      (ttl = 0 ↔ packet.ttl ≤ 1) := by
  unfold takeHop
  rw [h.getTTL hip, Go.ok_bind]
  split_ifs with hpos
  · obtain ⟨next, hnext, hsame⟩ := h.decrementTTL hip
    rw [hnext]
    exact ⟨_, next, rfl, hsame, ttl_sub_one_eq_zero hpos⟩
  · refine ⟨_, packet, rfl, ⟨rfl, rfl, rfl⟩, ?_⟩
    rw [ge_iff_le, UInt8.le_iff_toNat_le, UInt8.toNat_one] at hpos
    rw [← UInt8.toNat_inj, UInt8.le_iff_toNat_le, UInt8.toNat_zero, UInt8.toNat_one]
    omega

/-- An incoming IP packet is bounced if its TTL runs out, and passes otherwise
with the TTL decremented. -/
theorem ttlFilter_ip (h : elem.packet.HasHeader) (hin : elem.incoming = true)
    (hip : elem.packet.IsIP) :
    ∃ packet, elem.packet.SameRouting packet ∧ cfg.ttlFilter elem =
      .ok (.of (if elem.packet.ttl ≤ 1 then .bounce else .pass)
        {elem with packet := packet}) := by
  obtain ⟨ttl, packet, hhop, hsame, hzero⟩ := takeHop_ok h hip
  refine ⟨packet, hsame, ?_⟩
  unfold ttlFilter
  rw [if_neg (by simp [hin]), h.getIPVersion, Go.ok_bind,
    if_neg (fun hno => not_or.mpr hno hip), hhop, Go.ok_bind]
  simp only [cfg.traceAddrs_ok (hsame.hasHeader h), Go.ok_bind, hzero]
  split_ifs <;> rfl

theorem ttlFilter_of_not_expired (h : elem.packet.HasHeader) (hip : elem.packet.IsIP)
    (httl : elem.incoming = true → 1 < elem.packet.ttl) :
    ∃ packet, elem.packet.SameRouting packet ∧
      cfg.ttlFilter elem = .ok (.of .pass {elem with packet := packet}) := by
  by_cases hin : elem.incoming = true
  · obtain ⟨packet, hsame, hfilter⟩ := cfg.ttlFilter_ip h hin hip
    rw [if_neg (UInt8.not_le.mpr (httl hin))] at hfilter
    exact ⟨packet, hsame, hfilter⟩
  · have hskip : elem.incoming = false := by simpa using hin
    exact ⟨elem.packet, ⟨rfl, rfl, rfl⟩, cfg.ttlFilter_pass h (.inl hskip)⟩

theorem traceFilter_pass (h : elem.packet.HasHeader) : traceFilter elem = .ok (.of .pass elem) := by
  obtain ⟨src, hsrc⟩ := h.getSrc
  unfold traceFilter
  rw [Packet.validate_eq, Go.ok_bind, hsrc, h.getDst]
  split_ifs <;> rfl

theorem exitEncap_decides (snap : ExitFilterSnapshot Peer) (dst : Addr)
    (h : elem.packet.HasHeader) : Decides (cfg.exitEncap snap dst) elem := by
  unfold Decides exitEncap
  split_ifs
  · exact ⟨_, rfl, by simp⟩
  · cases snap.nextHop snap.exitNodeNumeric with
    | none =>
      simp only [cfg.traceAddrs_ok h, Go.ok_bind]
      exact ⟨_, rfl, by simp⟩
    | some peer =>
      obtain ⟨src, hsrc⟩ := h.getSrc
      obtain ⟨wrapped, hwrapped⟩ := wrapExitPacket_ok elem.packet snap.exitNodeNumeric
      simp only [hsrc, hwrapped, Go.ok_bind]
      cases wrapped <;> exact ⟨_, rfl, by simp⟩

variable [PrefixTable T]

/-- Exit encapsulation decides, or lets the element pass as it is. -/
theorem exitEncapFilter_cases (h : elem.packet.HasHeader) :
    Decides cfg.exitEncapFilter elem ∨ cfg.exitEncapFilter elem = .ok (.of .pass elem) := by
  unfold Decides exitEncapFilter
  cases cfg.exitFilter with
  | none => exact .inr rfl
  | some snap =>
    simp only [Packet.validate_eq, h.getIPVersion, h.getDst, Go.ok_bind]
    split_ifs
    · exact .inr rfl
    · exact .inr rfl
    · exact .inr rfl
    · exact .inr rfl
    · cases cfg.lookupForward elem.packet.dst with
      | none => exact .inl (cfg.exitEncap_decides snap _ h)
      | some entry => exact .inr rfl

theorem exitEncapFilter_pass (h : elem.packet.HasHeader) (hip : ¬ elem.packet.IsIP) :
    cfg.exitEncapFilter elem = .ok (.of .pass elem) := by
  unfold exitEncapFilter
  cases cfg.exitFilter with
  | none => rfl
  | some snap =>
    simp only [Packet.validate_eq, h.getIPVersion, Go.ok_bind, not_or.mp hip,
      ne_eq, not_false_eq_true, and_self, if_true]
    split_ifs <;> rfl

/-- The longest match in `ExitTable` is an entry of the local node. -/
def isLocal (addr : Addr) : Bool :=
  (cfg.lookupExit addr).any (·.nh = cfg.localId)

theorem exitTableFilter_eq (h : elem.packet.HasHeader) : cfg.exitTableFilter elem =
      .ok (.of (if cfg.isLocal elem.packet.dst then .bounce else .pass) elem) := by
  unfold exitTableFilter isLocal
  rw [h.getDst, Go.ok_bind]
  cases cfg.lookupExit elem.packet.dst with
  | none => rfl
  | some entry =>
    simp only [Option.any_some, decide_eq_true_eq, cfg.traceAddrs_ok h, Go.ok_bind]
    split_ifs <;> rfl

/-- The decision of the forwarding filters about an entry. -/
def forwardResult (entry : RouteTableEntry Peer) (elem : TCElement Peer Endpoint) :
    FilterResult Peer Endpoint (NylonPacket Peer Endpoint) :=
  if entry.blackhole then .of .drop elem
  else .of .forward {elem with toPeer := entry.peer}

theorem forwardBy_eq (outgoingOnly : Bool) (h : elem.packet.HasHeader) :
    cfg.forwardBy outgoingOnly elem = .ok (match cfg.lookupForward elem.packet.dst with
      | none => .of .pass elem
      | some entry => if outgoingOnly && elem.incoming then .of .pass elem
          else forwardResult entry elem) := by
  unfold forwardBy
  rw [h.getDst, Go.ok_bind]
  cases cfg.lookupForward elem.packet.dst with
  | none => rfl
  | some entry =>
    simp only [cfg.traceAddrs_ok h, Go.ok_bind, forwardResult]
    split_ifs <;> rfl

theorem forwardResult_err (entry : RouteTableEntry Peer)
    (elem : TCElement Peer Endpoint) : (forwardResult entry elem).err = none := by
  unfold forwardResult
  split_ifs <;> rfl

theorem forwardResult_action (entry : RouteTableEntry Peer)
    (elem : TCElement Peer Endpoint) : (forwardResult entry elem).action ≠ .pass := by
  unfold forwardResult
  split_ifs <;> simp

def routingFilters : List (NylonFilter Peer Endpoint) :=
  if cfg.useSystemRouting then [cfg.forwardOutgoingFilter, bounceIncomingFilter]
  else [cfg.ttlFilter, cfg.forwardFilter]

/-- The filters between routing and the defaults of the device. -/
def fallbackFilters : List (NylonFilter Peer Endpoint) :=
  (if cfg.traceTC then [traceFilter] else []) ++ [cfg.exitEncapFilter]

/-- All filters in the order they run. -/
theorem device_filters (allowedips : AllowedIPs Peer) (isRunning : Peer → Bool)
    (protoWriter : Bool) :
    (cfg.device allowedips isRunning protoWriter).tcFilters.reverse =
      cfg.mplsFilter :: nylonFilter :: cfg.exitTableFilter ::
        (cfg.routingFilters ++ (cfg.fallbackFilters ++
          ([tcfAllowedip allowedips, tcfBounce, tcfDrop] : List (NylonFilter Peer Endpoint)))) := by
  unfold device installTC routingFilters fallbackFilters
  rw [foldl_installFilter]
  cases cfg.useSystemRouting <;> cases cfg.traceTC <;> rfl

variable {rest : List (NylonFilter Peer Endpoint)}

/-- A packet that is neither MPLS nor a control message is bounced if it is for
the local node, and routed otherwise. -/
theorem runFilters_exitTable (h : elem.packet.HasHeader)
    (hver : elem.packet.version ≠ nyUnicastProtoId)
    (hcontrol : ¬ (elem.incoming = true ∧ elem.packet.version = nyProtoId)) :
    runFilters (cfg.mplsFilter :: nylonFilter :: cfg.exitTableFilter :: rest) elem =
      if cfg.isLocal elem.packet.dst then .ok (.of .bounce elem)
      else runFilters rest elem := by
  rw [runFilters_pass (cfg.mplsFilter_pass h hver), runFilters_pass (nylonFilter_pass h hcontrol)]
  have hfilter := cfg.exitTableFilter_eq h
  split_ifs with hlocal
  · rw [if_pos hlocal] at hfilter
    exact runFilters_decide hfilter rfl (by simp)
  · rw [if_neg hlocal] at hfilter
    exact runFilters_pass hfilter

theorem runFilters_forwardBy (outgoingOnly : Bool) (h : elem.packet.HasHeader) :
    runFilters (cfg.forwardBy outgoingOnly :: rest) elem =
      if outgoingOnly && elem.incoming then runFilters rest elem
      else match cfg.lookupForward elem.packet.dst with
        | some entry => .ok (forwardResult entry elem)
        | none => runFilters rest elem := by
  have hfilter := cfg.forwardBy_eq outgoingOnly h
  cases hlookup : cfg.lookupForward elem.packet.dst with
  | none =>
    rw [hlookup] at hfilter
    rw [runFilters_pass hfilter, ite_self]
  | some entry =>
    rw [hlookup] at hfilter
    dsimp only at hfilter
    split_ifs at hfilter ⊢
    · exact runFilters_pass hfilter
    · exact runFilters_decide hfilter (forwardResult_err entry elem)
        (forwardResult_action entry elem)

/-- Routing of a packet that is not IP: `ForwardTable` decides, except that the
system gets all incoming packets if it does the routing. -/
theorem runFilters_routing_of_not_ip (h : elem.packet.HasHeader) (hip : ¬ elem.packet.IsIP) :
    runFilters (cfg.routingFilters ++ rest) elem =
      if cfg.useSystemRouting && elem.incoming then .ok (.of .bounce elem)
      else match cfg.lookupForward elem.packet.dst with
        | some entry => .ok (forwardResult entry elem)
        | none => runFilters rest elem := by
  unfold routingFilters
  cases cfg.useSystemRouting with
  | false =>
    simp only [Bool.false_eq_true, if_false, Bool.false_and, List.cons_append, List.nil_append]
    rw [runFilters_pass (cfg.ttlFilter_pass h (.inr hip)), forwardFilter,
      runFilters_forwardBy cfg false h]
    rfl
  | true =>
    simp only [if_true, Bool.true_and, List.cons_append, List.nil_append]
    rw [forwardOutgoingFilter, runFilters_forwardBy cfg true h, Bool.true_and]
    by_cases hin : elem.incoming = true
    · rw [if_pos hin, if_pos hin]
      exact runFilters_decide (by rw [bounceIncomingFilter, if_pos hin]; rfl) rfl (by simp)
    · rw [if_neg hin, if_neg hin]
      have hbounce : bounceIncomingFilter elem = .ok (.of .pass elem) := by
        rw [bounceIncomingFilter, if_neg hin]
        rfl
      rw [runFilters_pass hbounce]

/-- Routing of an IP packet whose TTL does not run out, by nylon itself. -/
theorem runFilters_routing_of_ip (h : elem.packet.HasHeader) (hip : elem.packet.IsIP)
    (hsystem : cfg.useSystemRouting = false)
    (httl : elem.incoming = true → 1 < elem.packet.ttl) :
    ∃ packet, elem.packet.SameRouting packet ∧ runFilters (cfg.routingFilters ++ rest) elem =
        match cfg.lookupForward elem.packet.dst with
        | some entry => .ok (forwardResult entry {elem with packet := packet})
        | none => runFilters rest {elem with packet := packet} := by
  obtain ⟨packet, hsame, hfilter⟩ := cfg.ttlFilter_of_not_expired h hip httl
  have hheader : ({elem with packet := packet} : TCElement Peer Endpoint).packet.HasHeader :=
    hsame.hasHeader h
  have hforward : runFilters (cfg.forwardFilter :: rest) _ = _ :=
    cfg.runFilters_forwardBy false hheader
  simp only [Bool.false_and, Bool.false_eq_true, if_false, hsame.dst] at hforward
  refine ⟨packet, hsame, ?_⟩
  unfold routingFilters
  rw [hsystem, if_neg Bool.false_ne_true, List.cons_append, runFilters_pass hfilter]
  exact hforward

theorem runFilters_fallback_of_not_ip (h : elem.packet.HasHeader) (hip : ¬ elem.packet.IsIP) :
    runFilters (cfg.fallbackFilters ++ rest) elem = runFilters rest elem := by
  unfold fallbackFilters
  cases cfg.traceTC with
  | false =>
    exact runFilters_pass (cfg.exitEncapFilter_pass h hip)
  | true =>
    exact (runFilters_pass (traceFilter_pass h)).trans
      (runFilters_pass (cfg.exitEncapFilter_pass h hip))

/-- The way of a packet that is not IP, not MPLS and not a control message that
has arrived: what happens to it depends on the entries for `0.0.0.0`. -/
theorem runFilters_of_not_ip (allowedips : AllowedIPs Peer) (isRunning : Peer → Bool)
    (protoWriter : Bool) (h : elem.packet.HasHeader) (hip : ¬ elem.packet.IsIP)
    (hver : elem.packet.version ≠ nyUnicastProtoId)
    (hcontrol : ¬ (elem.incoming = true ∧ elem.packet.version = nyProtoId)) :
    runFilters (cfg.device allowedips isRunning protoWriter).tcFilters.reverse elem =
      if cfg.isLocal Addr.ipv4Unspecified then .ok (.of .bounce elem)
      else if cfg.useSystemRouting && elem.incoming then .ok (.of .bounce elem)
      else match cfg.lookupForward Addr.ipv4Unspecified with
        | some entry => .ok (forwardResult entry elem)
        | none => runFilters [tcfAllowedip allowedips, tcfBounce, tcfDrop] elem := by
  have hdst := Packet.dst_of_not_ip (not_or.mp hip).1 (not_or.mp hip).2
  rw [device_filters, cfg.runFilters_exitTable h hver hcontrol,
    cfg.runFilters_routing_of_not_ip h hip, cfg.runFilters_fallback_of_not_ip h hip, hdst]

/-- The way of an IP packet that is not expiring, if nylon does the routing and
`ForwardTable` has an entry for its destination. -/
theorem runFilters_of_ip (allowedips : AllowedIPs Peer) (isRunning : Peer → Bool)
    (protoWriter : Bool) (h : elem.packet.HasHeader) (hip : elem.packet.IsIP)
    (hsystem : cfg.useSystemRouting = false) (httl : 1 < elem.packet.ttl)
    {entry : RouteTableEntry Peer}
    (hentry : cfg.lookupForward elem.packet.dst = some entry) :
    ∃ packet, runFilters (cfg.device allowedips isRunning protoWriter).tcFilters.reverse elem =
      .ok (if cfg.isLocal elem.packet.dst then .of .bounce elem
        else forwardResult entry {elem with packet := packet}) := by
  have hother : ∀ ver, ver ≠ 4 → ver ≠ 6 → elem.packet.version ≠ ver := by
    rintro _ h4 h6 rfl
    exact hip.elim h4 h6
  obtain ⟨packet, -, hrouting⟩ := cfg.runFilters_routing_of_ip h hip hsystem fun _ => httl
  refine ⟨packet, ?_⟩
  rw [device_filters, cfg.runFilters_exitTable h (hother _ (by decide) (by decide))
    fun hcontrol => hother nyProtoId (by decide) (by decide) hcontrol.2, hrouting, hentry]
  split_ifs <;> rfl

end TrafficConfig

end Nylon.Core
