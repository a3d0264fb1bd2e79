import Nylon.Core.FilterSpec

/-!
Which packets crash the data plane. All filters return on IP packets, MPLS
packets and control messages that arrive. A packet of another version is taken
for one to `0.0.0.0`: if no table has an entry for that address the lookup of
allowed addresses panics.
-/

namespace Nylon.Core

open State Netip Lib Polyamide

variable {T : Type → Type} {Peer Endpoint : Type}

namespace TrafficConfig

variable (cfg : TrafficConfig T Peer)

/-- The invariant of an IP packet on its way through the filters. -/
def IPElement (elem : TCElement Peer Endpoint) : Prop :=
  elem.packet.HasHeader ∧ elem.packet.IsIP

theorem mplsFilter_keeps : Keeps IPElement (cfg.mplsFilter : NylonFilter Peer Endpoint) := by
  refine Keeps.of_cases fun elem helem => ⟨_, cfg.mplsFilter_pass helem.1 ?_, .inr rfl⟩
  rcases helem.2 with hver | hver <;> rw [hver] <;> decide

theorem nylonFilter_keeps : Keeps IPElement (nylonFilter : NylonFilter Peer Endpoint) := by
  refine Keeps.of_cases fun elem helem =>
    ⟨_, nylonFilter_pass helem.1 fun hcontrol => ?_, .inr rfl⟩
  rcases helem.2 with hver | hver <;> exact absurd (hver.symm.trans hcontrol.2) (by decide)

theorem ttlFilter_keeps : Keeps IPElement (cfg.ttlFilter : NylonFilter Peer Endpoint) := by
  intro elem helem
  by_cases hin : elem.incoming = true
  · obtain ⟨packet, hsame, hfilter⟩ := cfg.ttlFilter_ip helem.1 hin helem.2
    refine ⟨_, hfilter, fun _ _ => ⟨hsame.hasHeader helem.1, ?_⟩⟩
    exact helem.2.imp hsame.version.trans hsame.version.trans
  · exact ⟨_, cfg.ttlFilter_pass helem.1 (.inl (by simpa using hin)), fun _ _ => helem⟩

variable [PrefixTable T]

theorem forwardBy_keeps (outgoingOnly : Bool) :
    Keeps IPElement (cfg.forwardBy outgoingOnly : NylonFilter Peer Endpoint) := by
  refine Keeps.of_cases fun elem helem => ⟨_, cfg.forwardBy_eq outgoingOnly helem.1, ?_⟩
  cases cfg.lookupForward elem.packet.dst with
  | none => exact .inr rfl
  | some entry =>
    dsimp only
    split_ifs
    · exact .inr rfl
    · exact .inl (forwardResult_action entry elem)

theorem routingFilters_keep : ∀ filter ∈ (cfg.routingFilters : List (NylonFilter Peer Endpoint)),
      Keeps IPElement filter := by
  have hbounce : Keeps IPElement (bounceIncomingFilter : NylonFilter Peer Endpoint) :=
    Keeps.of_cases fun elem _ => ⟨_, rfl, .inr rfl⟩
  unfold routingFilters
  split_ifs
  · exact List.forall_mem_cons.mpr ⟨cfg.forwardBy_keeps true, List.forall_mem_singleton.mpr hbounce⟩
  · exact List.forall_mem_cons.mpr
      ⟨cfg.ttlFilter_keeps, List.forall_mem_singleton.mpr (cfg.forwardBy_keeps false)⟩

theorem exitEncapFilter_keeps :
    Keeps IPElement (cfg.exitEncapFilter : NylonFilter Peer Endpoint) := by
  refine Keeps.of_cases fun elem helem => ?_
  rcases cfg.exitEncapFilter_cases helem.1 with ⟨result, hresult, haction⟩ | hpass
  · exact ⟨result, hresult, .inl haction⟩
  · exact ⟨_, hpass, .inr rfl⟩

theorem fallbackFilters_keep : ∀ filter ∈ (cfg.fallbackFilters : List (NylonFilter Peer Endpoint)),
      Keeps IPElement filter := by
  have htrace : Keeps IPElement (traceFilter : NylonFilter Peer Endpoint) :=
    Keeps.of_cases fun elem helem => ⟨_, traceFilter_pass helem.1, .inr rfl⟩
  unfold fallbackFilters
  rw [List.forall_mem_append]
  refine ⟨?_, List.forall_mem_singleton.mpr cfg.exitEncapFilter_keeps⟩
  split_ifs
  · exact List.forall_mem_singleton.mpr htrace
  · exact List.forall_mem_nil _

/-- No filter panics on an IP packet, and those that let it pass leave it one. -/
theorem filters_keep (allowedips : AllowedIPs Peer) (isRunning : Peer → Bool) (protoWriter : Bool) :
    ∀ filter ∈ (cfg.device allowedips isRunning protoWriter).tcFilters.reverse,
      Keeps (IPElement : TCElement Peer Endpoint → Prop) filter := by
  have hexit : Keeps IPElement (cfg.exitTableFilter : NylonFilter Peer Endpoint) :=
    Keeps.of_cases fun elem helem => ⟨_, cfg.exitTableFilter_eq helem.1, .inr rfl⟩
  rw [device_filters]
  simp only [List.forall_mem_cons, List.forall_mem_append]
  exact ⟨cfg.mplsFilter_keeps, nylonFilter_keeps, hexit, cfg.routingFilters_keep,
    cfg.fallbackFilters_keep, tcfAllowedip_keeps allowedips,
    Keeps.of_cases fun elem _ => ⟨_, rfl, .inr rfl⟩,
    Keeps.of_cases fun elem _ => ⟨_, rfl, .inr rfl⟩, List.forall_mem_nil _⟩

/-- The packets that only the lookup of allowed addresses is left for, though
they are not IP. -/
@[mk_iff] structure Unhandled (elem : TCElement Peer Endpoint) : Prop where
  notIP : ¬ elem.packet.IsIP
  notMpls : elem.packet.version ≠ nyUnicastProtoId
  notControl : ¬ (elem.incoming = true ∧ elem.packet.version = nyProtoId)
  notLocal : ¬ cfg.isLocal Addr.ipv4Unspecified = true
  notSystem : ¬ (cfg.useSystemRouting && elem.incoming) = true
  noRoute : cfg.lookupForward Addr.ipv4Unspecified = none
  noPeer : elem.toPeer = none

section Chain

variable (allowedips : AllowedIPs Peer) (isRunning : Peer → Bool) (protoWriter : Bool)
  {elem : TCElement Peer Endpoint}

/-- The filters return on a packet with a complete header exactly if one of them
handles it. -/
theorem runFilters_ok_iff (h : elem.packet.HasHeader) :
    (∃ r, runFilters (cfg.device allowedips isRunning protoWriter).tcFilters.reverse elem =
        .ok r) ↔ ¬ cfg.Unhandled elem := by
  by_cases hip : elem.packet.IsIP
  · have hok := runFilters_ok (cfg.filters_keep allowedips isRunning protoWriter) ⟨h, hip⟩
    exact iff_of_true hok fun hno => hno.notIP hip
  by_cases hmpls : elem.packet.version = nyUnicastProtoId
  · rw [device_filters]
    exact iff_of_true (cfg.mplsFilter_decides h hmpls).runFilters_ok fun hno => hno.notMpls hmpls
  by_cases hcontrol : elem.incoming = true ∧ elem.packet.version = nyProtoId
  · rw [device_filters, runFilters_pass (cfg.mplsFilter_pass h hmpls)]
    exact iff_of_true (nylonFilter_decides h hcontrol.1 hcontrol.2).runFilters_ok
      fun hno => hno.notControl hcontrol
  rw [cfg.runFilters_of_not_ip allowedips isRunning protoWriter h hip hmpls hcontrol]
  split_ifs with hlocal hsystem
  · exact iff_of_true ⟨_, rfl⟩ fun hno => hno.notLocal hlocal
  · exact iff_of_true ⟨_, rfl⟩ fun hno => hno.notSystem hsystem
  · cases hlookup : cfg.lookupForward Addr.ipv4Unspecified with
    | some entry =>
      refine iff_of_true ⟨_, rfl⟩ fun hno => ?_
      cases hlookup.symm.trans hno.noRoute
    | none =>
      cases htoPeer : elem.toPeer with
      | some peer =>
        have hforward : (tcfAllowedip allowedips : NylonFilter Peer Endpoint) elem =
            .ok (.of .forward elem) :=
          tcfAllowedip_of_toPeer allowedips (by simp [htoPeer])
        refine iff_of_true ⟨_, runFilters_decide hforward rfl (by simp)⟩ fun hno => ?_
        cases htoPeer.symm.trans hno.noPeer
      | none =>
        have hpanic : runFilters ([tcfAllowedip allowedips, tcfBounce, tcfDrop] :
            List (NylonFilter Peer Endpoint)) elem =
              .error (.call "looking up unknown address type") :=
          runFilters_panic (tcfAllowedip_panic allowedips htoPeer h hip)
        refine iff_of_false (fun hok => ?_) (not_not.mpr
          ⟨hip, hmpls, hcontrol, hlocal, hsystem, hlookup, htoPeer⟩)
        simp [hpanic] at hok

/-- Trimming a packet to its length changes nothing about who handles it. -/
theorem unhandled_trimmed :
    cfg.Unhandled {elem with packet := elem.packet.trimmed} ↔ cfg.Unhandled elem := by
  simp only [unhandled_iff, Packet.IsIP, Packet.version_trimmed]
  rfl

theorem filterElement_ok_iff (hlen : 0 < elem.packet.len) :
    (∃ r, (cfg.device allowedips isRunning protoWriter).filterElement elem = .ok r) ↔
      ¬ (elem.packet.Accepted ∧ cfg.Unhandled elem) := by
  by_cases haccepted : elem.packet.Accepted
  · have hheader :
        ({elem with packet := elem.packet.trimmed} : TCElement Peer Endpoint).packet.HasHeader :=
      haccepted.hasHeader_trimmed
    rw [filterElement_of_accepted hlen haccepted, and_iff_right haccepted,
      ← unhandled_trimmed, ← cfg.runFilters_ok_iff allowedips isRunning protoWriter hheader]
    exact Go.bind_pure_ok_iff _ _
  · obtain ⟨next, hnext⟩ := filterElement_of_not_accepted _ hlen haccepted
    exact iff_of_true ⟨_, hnext⟩ fun hno => haccepted hno.1

/-- A batch is processed without a panic exactly if none of its packets is
accepted and yet left to the lookup of allowed addresses without being IP. -/
theorem tcBatch_returns_iff [DecidableEq Peer] (batch : List (TCElement Peer Endpoint))
    (tcs : TCState Peer Endpoint) (hbatch : ∀ elem ∈ batch, 0 < elem.packet.len) :
    (∃ r, (cfg.device allowedips isRunning protoWriter).tcBatch batch tcs = .ok r) ↔
      ∀ elem ∈ batch, ¬ (elem.packet.Accepted ∧ cfg.Unhandled elem) := by
  rw [tcBatch_ok_iff]
  exact forall₂_congr fun elem helem =>
    cfg.filterElement_ok_iff allowedips isRunning protoWriter (hbatch elem helem)

end Chain

end TrafficConfig

/-- A node without routes. -/
def idleDevice : Device NodeId Unit (NylonPacket NodeId Unit) :=
  (TrafficConfig.routingOnly "a" (.empty : Tables PrefixMap NodeId)).device
    ⟨fun _ => none, fun _ => none⟩ (fun _ => true) false

def emptyControl : TCElement NodeId Unit := .received ⟨[0x80, 0, 0], []⟩ none "b"

theorem tcBatch_returns_iff_control :
    (∀ elem ∈ [emptyControl], 0 < elem.packet.len ∧ elem.packet.Accepted) ∧
      ∃ r, idleDevice.tcBatch [emptyControl] .new = .ok r := by
  refine ⟨by decide, (TrafficConfig.tcBatch_returns_iff _ _ _ _ _ _ (by decide)).mpr ?_⟩
  intro elem helem hno
  rw [List.mem_singleton.mp helem] at hno
  exact hno.2.notControl (by decide)

/-- A header of three bytes with version 5 is enough to crash an idle node. -/
theorem version_five_panics : idleDevice.tcBatch [.fromTun ⟨[0x50, 0, 0], []⟩] .new =
      .error (.call "looking up unknown address type") :=
  rfl

end Nylon.Core
