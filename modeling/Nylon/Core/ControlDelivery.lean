import Nylon.Core.FilterSpec
import Nylon.Core.ForwardTable

/-!
Where control messages go. The packet that `SendNylonBundle` builds has no
destination address, so the filters look up `0.0.0.0`: it is staged for its
peer exactly if no table entry for that address takes it somewhere else.
-/

namespace Nylon.Core

open State Netip Lib Polyamide

variable {Peer Endpoint : Type} {endpoint : Option Endpoint} {peer : Peer}
  {elem : TCElement Peer Endpoint}

/-- The end of a packet does not wrap if it is in range. -/
theorem packetEnd_eq {len : UInt16} (h : messageTransportHeaderSize ≤ packetEnd len) :
    packetEnd len = messageTransportHeaderSize + len.toNat := by
  have hlt := len.toNat_lt
  unfold packetEnd at h ⊢
  rw [UInt16.toNat_add] at h ⊢
  simp only [messageTransportHeaderSize, UInt16.toNat_ofNat'] at h ⊢
  omega

theorem writeHeader_spec (packet : Packet) (len : UInt16) (hpos : 0 < packet.len)
    (hroom : polyHeaderSize ≤ packet.all.length) :
    ∃ q, writeHeader packet nyProtoId len = .ok q ∧ q.len = packet.len ∧
      q.version = nyProtoId ∧ q.totalLength = len := by
  obtain ⟨p, hp, hpall, hplen⟩ :=
    Slice.setIndex_eq (UInt8.ofNat (nyProtoId * 16)) hpos
  have hplength : p.all.length = packet.all.length := by
    rw [hpall]
    exact Slice.length_overwrite (Nat.succ_le_of_lt (hpos.trans_le packet.len_le_all))
  have hpver : Packet.version p = nyProtoId := by
    simp only [Packet.version, hpall, Slice.overwrite, List.take_zero, List.nil_append,
      List.singleton_append, List.headD_cons]
    decide
  have hfield : polyOffsetPayloadLength + (put16 (len - .ofNat polyHeaderSize)).length ≤
      p.all.length := hplength ▸ hroom
  obtain ⟨q, hq, hqall, hqlen⟩ := Slice.patch_eq _ _ hfield
  have hqver : Packet.version q = nyProtoId := by
    rw [← hpver]
    unfold Packet.version
    rw [hqall, Slice.overwrite_headD _ (by decide) ((Nat.le_add_right _ _).trans hfield)]
  refine ⟨q, ?_, hqlen.trans hplen, hqver, ?_⟩
  · unfold writeHeader Packet.setIPVersion Packet.setLength
    rw [hp, Go.ok_bind, Packet.getIPVersion_eq (hplen ▸ hpos), Go.ok_bind, hpver]
    exact hq
  · have hbytes : ((Slice.overwrite p.all polyOffsetPayloadLength
        (put16 (len - .ofNat polyHeaderSize))).take 3).drop 1 =
          put16 (len - .ofNat polyHeaderSize) :=
      Slice.overwrite_sub_self _ ((Nat.le_add_right _ _).trans hfield) rfl
    unfold Packet.totalLength
    rw [hqver, hqall, if_neg (by decide), if_neg (by decide), hbytes, be16_put16]
    exact UInt16.sub_add_cancel _ _

/-- A packet of nylon is built with its version and with the length that its
header states. -/
theorem initPacket_spec {content : List UInt8} {len : UInt16} {packet : Packet}
    (hcontent : polyHeaderSize ≤ content.length)
    (h : initPacket content nyProtoId len = .ok packet) :
    packet.len = len.toNat ∧ 0 < packet.len ∧ packet.version = nyProtoId ∧
      packet.totalLength = len := by
  unfold initPacket at h
  split_ifs at h with hbounds
  have hend := packetEnd_eq hbounds.1
  rw [hend, Nat.add_sub_cancel_left] at h
  have hlen : (Slice.ofAll content len.toNat).len = len.toNat :=
    Slice.len_ofAll (by omega)
  have hpos : 0 < (Slice.ofAll content len.toNat).len := by
    by_contra hzero
    simp [writeHeader, Packet.setIPVersion, Slice.setIndex, hzero, bind, Except.bind] at h
  obtain ⟨q, hq, hqlen, hqver, hqtotal⟩ := writeHeader_spec _ len hpos (by simpa using hcontent)
  obtain rfl : q = packet := Except.ok.inj (hq.symm.trans h)
  exact ⟨hqlen.trans hlen, hqlen ▸ hpos, hqver, hqtotal⟩

theorem MessageBuffer.length_content (buffer : MessageBuffer) : buffer.content.length = 65519 := by
  have hsize := buffer.size
  simp only [messageTransportHeaderSize, maxMessageSize] at hsize
  omega

/-- The element of a control message: not incoming, for its peer and endpoint, with
a packet of nylon that is accepted as it is once it has room for the header. -/
structure ControlElement (elem : TCElement Peer Endpoint) (endpoint : Option Endpoint)
    (peer : Peer) : Prop where
  outgoing : elem.incoming = false
  toEp : elem.toEp = endpoint
  toPeer : elem.toPeer = some peer
  nonempty : 0 < elem.packet.len
  version : elem.packet.version = nyProtoId
  length : elem.packet.totalLength.toNat = elem.packet.len

theorem nylonElement_spec {buffer : MessageBuffer} {bundle : List UInt8}
    (h : nylonElement buffer bundle endpoint peer = .ok elem) :
    ControlElement elem endpoint peer ∧ elem.packet.len = (bundle.length + 3) % 2 ^ 16 := by
  unfold nylonElement at h
  cases hinit : initPacket (buffer.marshal bundle).content nyProtoId
      (.ofNat (bundle.length + polyHeaderSize)) with
  | error p =>
    rw [hinit] at h
    cases h
  | ok packet =>
    rw [hinit, Go.ok_bind] at h
    cases h
    have hcontent := (buffer.marshal bundle).length_content
    obtain ⟨hlen, hpos, hver, htotal⟩ := initPacket_spec (by rw [hcontent]; decide) hinit
    exact ⟨⟨rfl, rfl, rfl, hpos, hver, htotal ▸ hlen.symm⟩, hlen.trans UInt16.toNat_ofNat'⟩

/-- A bundle leaves as the filters decide about its element. -/
theorem sendNylonBundle_eq [DecidableEq Peer]
    {dev : Device Peer Endpoint (NylonPacket Peer Endpoint)} {buffer : MessageBuffer}
    {bundle : List UInt8} {result : FilterResult Peer Endpoint (NylonPacket Peer Endpoint)}
    (hbuild : nylonElement buffer bundle endpoint peer = .ok elem)
    (hfilter : dev.filterElement elem = .ok result) :
    sendNylonBundle dev buffer bundle endpoint peer = .ok (dev.outcomeOf result) := by
  unfold sendNylonBundle
  rw [hbuild, Go.ok_bind, tcBatch_singleton hfilter]
  rfl

/-- A bundle that fits into the buffer is built. -/
theorem nylonElement_ok (buffer : MessageBuffer) (bundle : List UInt8)
    (endpoint : Option Endpoint) (peer : Peer) (hfits : bundle.length + 3 ≤ 65519) :
    ∃ elem, nylonElement buffer bundle endpoint peer = .ok elem := by
  have hcontent := (buffer.marshal bundle).length_content
  have hlen : (UInt16.ofNat (bundle.length + polyHeaderSize)).toNat = bundle.length + 3 :=
    UInt16.toNat_ofNat_of_lt' (by change bundle.length + 3 < 65536; omega)
  have hend : packetEnd (.ofNat (bundle.length + polyHeaderSize)) =
      messageTransportHeaderSize + (bundle.length + 3) := by
    unfold packetEnd
    rw [UInt16.toNat_add, hlen]
    exact Nat.mod_eq_of_lt (by change 16 + (bundle.length + 3) < 65536; omega)
  obtain ⟨packet, hpacket, -⟩ := writeHeader_spec
    (.ofAll (buffer.marshal bundle).content (bundle.length + 3))
    (.ofNat (bundle.length + polyHeaderSize))
    (by rw [Slice.len_ofAll (by omega)]; omega) (by rw [Slice.all_ofAll, hcontent]; decide)
  unfold nylonElement initPacket
  rw [hend, Nat.add_sub_cancel_left, if_pos (by omega), hpacket]
  exact ⟨_, rfl⟩

theorem ControlElement.accepted_iff (h : ControlElement elem endpoint peer) :
    elem.packet.Accepted ↔ 3 ≤ elem.packet.len := by
  have hheader : Packet.headerLen elem.packet.version = 3 := by
    rw [h.version]
    rfl
  refine ⟨fun haccepted => haccepted.hasHeader.poly_le, fun hlen => ⟨?_, h.length.le, ?_⟩⟩
  · rw [Packet.HasHeader, hheader]
    exact hlen
  · rw [hheader, h.length]
    exact hlen

theorem ControlElement.trimmed_eq (h : ControlElement elem endpoint peer) :
    elem.packet.trimmed = elem.packet := by
  rw [Packet.trimmed, h.length, Slice.ofAll_all_len]

theorem ControlElement.not_ip (h : ControlElement elem endpoint peer) : ¬ elem.packet.IsIP := by
  unfold Packet.IsIP
  rw [h.version]
  decide

namespace TrafficConfig

variable {T : Type → Type} [PrefixTable T] (cfg : TrafficConfig T Peer)
  (allowedips : AllowedIPs Peer) (isRunning : Peer → Bool) (protoWriter : Bool)
  {elem : TCElement Peer Endpoint} {endpoint : Option Endpoint} {peer : Peer}

/-- What the filters make of a control message, by the entries for `0.0.0.0`. -/
def controlResult (elem : TCElement Peer Endpoint) :
    FilterResult Peer Endpoint (NylonPacket Peer Endpoint) :=
  if cfg.isLocal Addr.ipv4Unspecified then .of .bounce elem
  else match cfg.lookupForward Addr.ipv4Unspecified with
    | some entry => forwardResult entry elem
    | none => .of .forward elem

theorem controlResult_action (elem : TCElement Peer Endpoint) :
    (cfg.controlResult elem).action ≠ .pass := by
  unfold controlResult
  split_ifs
  · simp
  · cases cfg.lookupForward Addr.ipv4Unspecified with
    | some entry => exact forwardResult_action entry elem
    | none => simp

theorem filterElement_control (h : ControlElement elem endpoint peer) (hlen : 3 ≤ elem.packet.len) :
    (cfg.device allowedips isRunning protoWriter).filterElement elem =
      .ok (cfg.controlResult elem) := by
  have haccepted := h.accepted_iff.mpr hlen
  have hallowed : runFilters ([tcfAllowedip allowedips, tcfBounce, tcfDrop] :
      List (NylonFilter Peer Endpoint)) elem = .ok (.of .forward elem) :=
    runFilters_decide (tcfAllowedip_of_toPeer allowedips (by simp [h.toPeer])) rfl (by simp)
  have hrun : runFilters (cfg.device allowedips isRunning protoWriter).tcFilters.reverse
      elem = .ok (cfg.controlResult elem) := by
    rw [cfg.runFilters_of_not_ip allowedips isRunning protoWriter haccepted.hasHeader h.not_ip
      (by rw [h.version]; decide) (by simp [h.outgoing]), h.outgoing, Bool.and_false,
      if_neg Bool.false_ne_true, hallowed]
    unfold controlResult
    split_ifs
    · rfl
    · cases cfg.lookupForward Addr.ipv4Unspecified <;> rfl
  rw [filterElement_of_accepted h.nonempty haccepted, h.trimmed_eq]
  change runFilters _ elem >>= _ = _
  rw [hrun, Go.ok_bind, if_neg (cfg.controlResult_action elem)]
  rfl

theorem controlResult_forwards_iff (h : ControlElement elem endpoint peer) :
    ((cfg.controlResult elem).action = .forward ∧
      (cfg.controlResult elem).elem.toPeer = some peer ∧
      (⟨(cfg.controlResult elem).elem.toEp, (cfg.controlResult elem).elem.packet.data⟩ :
        OutboundElement Endpoint) = ⟨endpoint, elem.packet.data⟩) ↔
    cfg.isLocal Addr.ipv4Unspecified = false ∧
      ∀ entry, cfg.lookupForward Addr.ipv4Unspecified = some entry →
        entry.blackhole = false ∧ entry.peer = some peer := by
  unfold controlResult
  split_ifs with hlocal
  · simp [hlocal]
  · cases cfg.lookupForward Addr.ipv4Unspecified with
    | none => simp [hlocal, h.toPeer, h.toEp]
    | some entry =>
      unfold forwardResult
      cases hblackhole : entry.blackhole <;> simp [hlocal, hblackhole, h.toEp]

/-- A control message is staged for its peer, and for no other, exactly if its
length does not wrap to less than a header, `0.0.0.0` is not local, and an entry
for `0.0.0.0` leads to that peer. -/
theorem control_staged_iff [DecidableEq Peer] {buffer : MessageBuffer}
    {bundle : List UInt8} (hbuild : nylonElement buffer bundle endpoint peer = .ok elem)
    (hrunning : isRunning peer = true) :
    (∃ outcome,
      sendNylonBundle (cfg.device allowedips isRunning protoWriter) buffer bundle endpoint peer =
        .ok outcome ∧
      outcome.StagedOnly peer ⟨endpoint, elem.packet.data⟩) ↔
    3 ≤ (bundle.length + 3) % 2 ^ 16 ∧ cfg.isLocal Addr.ipv4Unspecified = false ∧
      ∀ entry, cfg.lookupForward Addr.ipv4Unspecified = some entry →
        entry.blackhole = false ∧ entry.peer = some peer := by
  obtain ⟨hcontrol, hlen⟩ := nylonElement_spec hbuild
  have hdevice : (cfg.device allowedips isRunning protoWriter :
      Device Peer Endpoint (NylonPacket Peer Endpoint)).isRunning peer = true := by
    rw [device, foldl_installFilter]
    exact hrunning
  rw [← hlen]
  by_cases hroom : 3 ≤ elem.packet.len
  · rw [sendNylonBundle_eq hbuild (cfg.filterElement_control allowedips isRunning protoWriter
        hcontrol hroom), ← cfg.controlResult_forwards_iff hcontrol, and_iff_right hroom,
      ← stagedOnly_iff hdevice]
    simp
  · obtain ⟨next, hnext⟩ := filterElement_of_not_accepted
      (cfg.device allowedips isRunning protoWriter) hcontrol.nonempty
      (hcontrol.accepted_iff.not.mpr hroom)
    rw [sendNylonBundle_eq hbuild hnext]
    simp [hroom, stagedOnly_iff hdevice]

end TrafficConfig

def zeroBuffer : MessageBuffer where
  content := List.replicate 65519 0
  size := by rw [List.length_replicate]; rfl

/-- The default route leads to `b`. -/
def defaultThroughB : Tables PrefixMap NodeId :=
  (tableInsertRoute (namedPeers "a") .empty ⟨.v4 0, 0, by decide⟩
    ⟨⟨⟨"b", ⟨.v4 0, 0, by decide⟩⟩, ⟨0, 10⟩⟩, "b", 100, []⟩).getD .empty

theorem control_staged_through_default : ∃ elem : TCElement NodeId Unit,
      nylonElement zeroBuffer [1, 2] (some ()) "b" = .ok elem ∧
      (TrafficConfig.routingOnly "a" defaultThroughB).lookupForward Addr.ipv4Unspecified =
        some ⟨"b", some "b", false⟩ ∧
      ∃ outcome, sendNylonBundle ((TrafficConfig.routingOnly "a" defaultThroughB).device
          ⟨fun _ => none, fun _ => none⟩ (fun _ => true) false) zeroBuffer [1, 2] (some ()) "b" =
            .ok outcome ∧
        outcome.StagedOnly "b" ⟨some (), elem.packet.data⟩ := by
  obtain ⟨elem, helem⟩ := nylonElement_ok zeroBuffer [1, 2] (some ()) "b"
    (by decide)
  have hentry : (TrafficConfig.routingOnly "a" defaultThroughB).lookupForward
      Addr.ipv4Unspecified = some ⟨"b", some "b", false⟩ := by
    decide +kernel
  refine ⟨elem, helem, hentry, (TrafficConfig.control_staged_iff _ _ _ _ helem rfl).mpr
    ⟨by decide, by decide +kernel, fun entry hfound => ?_⟩⟩
  rw [hentry] at hfound
  cases hfound
  exact ⟨rfl, rfl⟩

/-- A node that advertises the default route itself. -/
def ownDefaultRun : List Event :=
  [.advertise ⟨.v4 0, 0, by decide⟩ ⟨"a", 100, false, none⟩, .computeRoutes 1]

/-- Such a node writes its own control messages to its TUN. -/
theorem control_bounced_by_own_default : (∀ e ∈ ownDefaultRun, Admissible (namedPeers "a") e) ∧
    ∃ (node : RouterNode PrefixMap NodeId) (elem : TCElement NodeId Unit),
      runNode (namedPeers "a") ⟨RouterState.init defaultRouterTunables "a", Tables.empty⟩
        ownDefaultRun = some node ∧
      nylonElement zeroBuffer [1, 2] (some ()) "b" = .ok elem ∧
      ∃ outcome, sendNylonBundle ((TrafficConfig.routingOnly "a" node.tables).device
          ⟨fun _ => none, fun _ => none⟩ (fun _ => true) false) zeroBuffer [1, 2] (some ()) "b" =
            .ok outcome ∧
        outcome.tunWrite = some (.write [elem.packet.data]) ∧
        outcome.staged "b" = [] := by
  refine ⟨by decide +kernel, ?_⟩
  have hfinal : (runNode (namedPeers "a")
      (⟨RouterState.init defaultRouterTunables "a", Tables.empty⟩ :
        RouterNode PrefixMap NodeId) ownDefaultRun).map
      (fun node => (TrafficConfig.routingOnly "a" node.tables).isLocal Addr.ipv4Unspecified) =
        some true := by
    decide +kernel
  obtain ⟨node, hnode, hlocal⟩ := Option.map_eq_some_iff.mp hfinal
  obtain ⟨elem, helem⟩ := nylonElement_ok zeroBuffer [1, 2] (some ()) "b"
    (by decide)
  obtain ⟨hcontrol, hlen⟩ := nylonElement_spec helem
  have hfilter := (TrafficConfig.routingOnly "a" node.tables).filterElement_control
    ⟨fun _ => none, fun _ => none⟩ (fun _ => true) false hcontrol (by rw [hlen]; decide)
  rw [TrafficConfig.controlResult, if_pos hlocal] at hfilter
  exact ⟨node, elem, hnode, helem, _, sendNylonBundle_eq helem hfilter, rfl, rfl⟩

end Nylon.Core
