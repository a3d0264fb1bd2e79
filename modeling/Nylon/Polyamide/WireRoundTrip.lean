import Nylon.Polyamide.MarshalFakeTCP
import Nylon.Polyamide.TransformerRuns

/-!
A fake-TCP packet on the wire. The marshaller, the egress program and the ingress
program agree on the layout of the header and on the checksums: the segment that
leaves the host is valid, and what the receiving host makes of it is a valid carrier
with the same ports, numbers and payload.
-/

namespace Nylon.Polyamide.Transformer

open Lib OnesComplement

section Kinds

variable {f : Frame} {rest : Bytes} {carrier : UdpCarrier}

/-- The packets of the fake-TCP bind: SYN, SYN with ACK, ACK, and data. -/
def Sendable (packet : FakeTCPPacket) : Prop :=
  packet.payload = [] ∧ (packet.flags = tcpFlagSYN ∨
    packet.flags = tcpFlagSYN ||| tcpFlagACK ∨ packet.flags = tcpFlagACK) ∨
  packet.flags = tcpFlagACK ∧ minFramePayloadSize ≤ packet.payload.length

instance (packet : FakeTCPPacket) : Decidable (Sendable packet) :=
  inferInstanceAs (Decidable (_ ∨ _))

/-- A UDP datagram with checksum zero. -/
def udpDatagram (source destination : UInt16) (data : Bytes) : Bytes :=
  put16 source ++ (put16 destination ++ (put16 (.ofNat (8 + data.length)) ++ (put16 0 ++ data)))

/-- The segment for a carrier with the given bytes behind its header: egress makes it,
and ingress accepts every frame with it. -/
structure Translates (f : Frame) (carrier : UdpCarrier) (rest : Bytes) (seg : Segment) : Prop where
  source : seg.tcp.source = carrier.source
  destination : seg.tcp.destination = carrier.destination
  sequence : seg.tcp.sequence = carrier.sequence
  acknowledgement : seg.tcp.acknowledgement = carrier.acknowledgement
  egress : ∀ skb : SkBuff, skb.bytes = f.bytes →
    (24 ≤ f.body.length → f.info.l4Offset + 24 ≤ skb.linear) →
    egressSegment skb f.info carrier = some seg
  sums : seg.Sums rest
  ingress : ∃ headerLength, seg.tcp.dataOffset &&& 0xf = 0 ∧
    (seg.tcp.dataOffset >>> 4).toNat * 4 = headerLength ∧ 20 ≤ headerLength ∧
    headerLength ≤ 60 ∧ headerLength ≤ 20 + rest.length ∧
    ∀ (g : Frame) (tcp : TcpHeader), tcp.flags = seg.tcp.flags → g.body = tcp.bytes ++ rest →
      ∀ skb : SkBuff, skb.bytes = g.bytes → g.info.l4Offset + headerLength ≤ skb.linear →
      ingressAccepts skb g.info tcp headerLength = true

theorem byteAt_rest {header : Bytes} (hbody : f.body = header ++ rest)
    (hlen : header.length = 20) (i : Nat) :
    byteAt f.bytes (f.info.l4Offset + 20 + i) = byteAt (rest ++ f.trailer) i := by
  obtain ⟨front, hbytes, hoffset⟩ := Frame.bytes_split hbody
  rw [hbytes, hoffset, Nat.add_assoc, byteAt_append, ← hlen, byteAt_append]

theorem isOption_rest {header : Bytes} (hbody : f.body = header ++ [1, 3, 3, 14])
    (hlen : header.length = 20) : isOption f.bytes (f.info.l4Offset + 20) = true := by
  have hzero : byteAt f.bytes (f.info.l4Offset + 20) = 1 := byteAt_rest hbody hlen 0
  have hone : byteAt f.bytes (f.info.l4Offset + 20 + 1) = 3 := byteAt_rest hbody hlen 1
  have htwo : byteAt f.bytes (f.info.l4Offset + 20 + 2) = 3 := byteAt_rest hbody hlen 2
  have hthree : byteAt f.bytes (f.info.l4Offset + 20 + 3) = 14 := byteAt_rest hbody hlen 3
  simp [isOption, hzero, hone, htwo, hthree]

/-- The header of a segment for a carrier, before its checksum is known. -/
def plainTcp (carrier : UdpCarrier) (dataOffset flags : UInt8) : TcpHeader :=
  ⟨carrier.source, carrier.destination, carrier.sequence, carrier.acknowledgement, dataOffset,
    flags, 0xffff, 0, 0⟩

theorem translates_syn {flags : UInt8}
    (hflags : flags = tcpFlagSyn ∨ flags = tcpFlagSyn ||| tcpFlagAck)
    (hvalue : carrier.metaField = flags.toUInt16)
    (hbody : f.body = carrier.bytes ++ [1, 3, 3, 14]) :
    Translates f carrier [1, 3, 3, 14]
      ⟨plainTcp carrier 0x60 flags, 0, be16 [1, 3], be16 [3, 14]⟩ := by
  have hlen : f.body.length = 24 := by
    rw [hbody]
    rfl
  have hlow : (0x60 : UInt8) &&& 0xf = 0 := by decide
  have hoffset : ((0x60 : UInt8) >>> 4).toNat * 4 = 24 := by decide
  have hsum : ((0 : UInt32).toNat + (be16 [1, 3]).toNat + (be16 [3, 14]).toNat) % 65535 =
      total [1, 3, 3, 14] % 65535 := by decide
  refine ⟨rfl, rfl, rfl, rfl, fun skb hbytes hlinear => ?_, ⟨Nat.zero_le _, hsum⟩,
    24, hlow, hoffset, by decide, by decide, by decide,
    fun g tcp hsame hg skb hbytes hlinear => ?_⟩
  · have hl4 : f.info.l4Length = udpCarrierSize + 4 := hlen
    have hone : be16At f.bytes (f.info.l4Offset + 20) = be16 [1, 3] := by
      rw [be16At, byteAt_rest hbody carrier.length_bytes 1]
      exact congrArg (fun b => be16 [b, 3]) (byteAt_rest hbody carrier.length_bytes 0)
    have htwo : be16At f.bytes (f.info.l4Offset + 20 + 2) = be16 [3, 14] := by
      rw [be16At, byteAt_rest hbody carrier.length_bytes 2, Nat.add_assoc _ 2 1,
        byteAt_rest hbody carrier.length_bytes 3]
      rfl
    have hopt : isOption f.bytes (f.info.l4Offset + 20) = true :=
      isOption_rest hbody carrier.length_bytes
    have hback : flags.toUInt16.toUInt8 = flags := by
      rcases hflags with rfl | rfl <;> rfl
    have hcase : flags.toUInt16 = tcpFlagSyn.toUInt16 ∨
        flags.toUInt16 = (tcpFlagSyn ||| tcpFlagAck).toUInt16 := by
      rcases hflags with rfl | rfl
      · exact .inl rfl
      · exact .inr rfl
    unfold egressSegment
    dsimp only
    rw [if_pos hl4, hbytes, hvalue, udpCarrierSize, if_pos ⟨hcase, hlinear hlen.ge, hopt⟩, hone,
      htwo, hback]
    rfl
  · have hl4 : g.info.l4Length = 24 := by
      show g.body.length = 24
      rw [hg]
      rfl
    have hopt : isOption g.bytes (g.info.l4Offset + 20) = true :=
      isOption_rest hg tcp.length_bytes
    have hflags' : tcp.flags = tcpFlagSyn ∨ tcp.flags = tcpFlagSyn ||| tcpFlagAck := by
      rw [hsame]
      exact hflags
    unfold ingressAccepts
    rw [if_pos hflags', isSynOptions]
    simp only [tcpHeaderSize, hbytes, hopt, hl4]
    simpa using hlinear

theorem translates_ack
    (hvalue : carrier.metaField = tcpFlagAck.toUInt16) (hbody : f.body = carrier.bytes ++ []) :
    Translates f carrier [] ⟨plainTcp carrier 0x50 tcpFlagAck, 0, 0, 0⟩ := by
  have hlen : f.body.length = 20 := by
    rw [hbody]
    rfl
  have hlow : (0x50 : UInt8) &&& 0xf = 0 := by decide
  have hoffset : ((0x50 : UInt8) >>> 4).toNat * 4 = 20 := by decide
  refine ⟨rfl, rfl, rfl, rfl, fun skb hbytes hlinear => ?_, ⟨Nat.zero_le _, rfl⟩,
    20, hlow, hoffset, by decide, by decide, by decide,
    fun g tcp hsame hg skb hbytes hlinear => ?_⟩
  · have hl4 : f.info.l4Length = udpCarrierSize := hlen
    unfold egressSegment
    dsimp only
    rw [hl4, if_neg (by decide), if_pos rfl, hvalue, if_neg (fun hne => hne rfl)]
    rfl
  · have hl4 : g.info.l4Length = 20 := by
      show g.body.length = 20
      rw [hg]
      rfl
    have hflags : tcp.flags = tcpFlagAck := hsame
    unfold ingressAccepts
    rw [hflags, hl4]
    rfl

theorem translates_data
    (hlong : 4 < rest.length) (hvalue : carrier.metaField.toNat % 65535 = total rest % 65535)
    (hbody : f.body = carrier.bytes ++ rest) :
    Translates f carrier rest
      ⟨plainTcp carrier 0x50 tcpFlagAck, carrier.metaField.toUInt32, 0, 0⟩ := by
  have hlen : f.body.length = 20 + rest.length := by
    rw [hbody, List.length_append, UdpCarrier.length_bytes]
  have hsum : carrier.metaField.toUInt32.toNat = carrier.metaField.toNat :=
    UInt16.toNat_toUInt32 _
  have hword := carrier.metaField.toNat_lt
  have hlow : (0x50 : UInt8) &&& 0xf = 0 := by decide
  have hoffset : ((0x50 : UInt8) >>> 4).toNat * 4 = 20 := by decide
  refine ⟨rfl, rfl, rfl, rfl, fun skb hbytes hlinear => ?_, ⟨?_, ?_⟩,
    20, hlow, hoffset, by decide, by decide, by omega,
    fun g tcp hsame hg skb hbytes hlinear => ?_⟩
  · have hl4 : f.info.l4Length = f.body.length := rfl
    unfold egressSegment
    dsimp only
    rw [udpCarrierSize, if_neg (by omega), if_neg (by omega)]
    rfl
  · show carrier.metaField.toUInt32.toNat ≤ 65535
    omega
  · show (carrier.metaField.toUInt32.toNat + 0 + 0) % 65535 = _
    rw [hsum]
    exact hvalue
  · have hl4 : g.info.l4Length ≠ 20 := by
      show g.body.length ≠ 20
      rw [hg, List.length_append, TcpHeader.length_bytes]
      omega
    have hflags : tcp.flags = tcpFlagAck := hsame
    unfold ingressAccepts
    rw [hflags, if_neg (by decide), if_neg (by decide), if_neg hl4]
    rfl

/-- A datagram of the bind is a carrier header with what follows it. -/
theorem udpDatagram_carrier (source destination value : UInt16) (seq ack : UInt32) (rest : Bytes) :
    udpDatagram source destination (carrierHeader value seq ack ++ rest) =
      (UdpCarrier.mk source destination (.ofNat (20 + rest.length)) 0 carrierMagic value seq
        ack).bytes ++ rest := by
  have hlen : 8 + (carrierHeader value seq ack ++ rest).length = 20 + rest.length := by
    rw [List.length_append, ← Nat.add_assoc]
    rfl
  rw [udpDatagram, hlen]
  simp only [UdpCarrier.bytes, carrierHeader, List.append_assoc]
  rfl

/-- The carrier of a frame whose datagram has the given content. -/
def carrierOf (f : Frame) (source destination value : UInt16) (packet : FakeTCPPacket) :
    UdpCarrier :=
  ⟨source, destination, .ofNat f.body.length, 0, carrierMagic, value, packet.seq, packet.ack⟩

theorem body_eq_carrierOf {source destination value : UInt16}
    {packet : FakeTCPPacket} {data : Bytes}
    (hdata : data = carrierHeader value packet.seq packet.ack ++ rest)
    (hbody : f.body = udpDatagram source destination data) :
    data.drop carrierHeaderSize = rest ∧
      f.body = (carrierOf f source destination value packet).bytes ++ rest := by
  rw [hdata, udpDatagram_carrier] at hbody
  have hlen : f.body.length = 20 + rest.length := by
    rw [hbody, List.length_append, UdpCarrier.length_bytes]
  refine ⟨?_, ?_⟩
  · rw [hdata]
    rfl
  · rw [carrierOf, hlen]
    exact hbody

/-- Every packet of the bind is on the wire as a carrier that is translated to a segment
with the flags of the packet. -/
theorem sendable_translates {packet : FakeTCPPacket} (hpacket : Sendable packet)
    (spare : Bytes) {source destination : UInt16}
    (hbody : f.body = udpDatagram source destination (marshalFakeTCPPacket packet spare)) :
    ∃ (value : UInt16) (rest : Bytes) (seg : Segment),
      (marshalFakeTCPPacket packet spare).drop carrierHeaderSize = rest ∧
      f.body = (carrierOf f source destination value packet).bytes ++ rest ∧
      seg.tcp.flags = packet.flags ∧
      Translates f (carrierOf f source destination value packet) rest seg := by
  rcases hpacket with ⟨hempty, hflags⟩ | ⟨hflags, hlong⟩
  · by_cases hsyn : packet.flags = tcpFlagSYN ∨ packet.flags = tcpFlagSYN ||| tcpFlagACK
    · have hbit : packet.flags &&& tcpFlagSYN ≠ 0 := by
        rcases hsyn with h | h <;> rw [h] <;> decide
      obtain ⟨hrest, hcarrier⟩ := body_eq_carrierOf (marshal_syn hbit hempty spare) hbody
      exact ⟨_, _, _, hrest, hcarrier, rfl, translates_syn hsyn rfl hcarrier⟩
    · have hack : packet.flags = tcpFlagACK := by tauto
      have hbit : packet.flags &&& tcpFlagSYN = 0 := by
        rw [hack]
        decide
      have hdata := marshal_control hbit hempty spare
      rw [← List.append_nil (carrierHeader _ _ _)] at hdata
      obtain ⟨hrest, hcarrier⟩ := body_eq_carrierOf hdata hbody
      exact ⟨_, _, _, hrest, hcarrier, hack.symm,
        translates_ack (congrArg UInt8.toUInt16 hack) hcarrier⟩
  · have hbit : packet.flags &&& tcpFlagSYN = 0 := by
      rw [hflags]
      decide
    have hne : packet.payload ≠ [] := by
      rintro hempty
      rw [hempty] at hlong
      exact absurd hlong (by decide)
    obtain ⟨hrest, hcarrier⟩ := body_eq_carrierOf (marshal_data hbit hne spare) hbody
    have hmax := f.ip.length_le_of_plain f.plain
    have hlen : f.body.length = 20 + (encodeFrame packet.payload).length := by
      rw [hcarrier, List.length_append, UdpCarrier.length_bytes]
    refine ⟨_, _, _, hrest, hcarrier, hflags.symm, translates_data ?_ ?_ hcarrier⟩
    · rw [length_encodeFrame, frameHeaderSize]
      rw [minFramePayloadSize] at hlong
      omega
    · show (FoldPayloadChecksum (encodeFrame packet.payload)).toNat % 65535 = _
      rw [toNat_foldPayloadChecksum (by omega)]
      exact (residue_spec _).2.1

end Kinds

section RoundTrip

/-- What arrives is a carrier of the packet. -/
structure Restores (carrier : UdpCarrier) (packet : FakeTCPPacket)
    (source destination : UInt16) : Prop where
  source : carrier.source = source
  destination : carrier.destination = destination
  magic : carrier.magic = Polyamide.carrierMagic
  flags : carrier.metaField = packet.flags.toUInt16
  sequence : carrier.sequence = packet.seq
  acknowledgement : carrier.acknowledgement = packet.ack

/-- A packet of the bind leaves the host as a valid TCP segment, and whatever frame
brings that segment to the other host, a valid carrier of the packet comes out. -/
theorem fakeTCP_wire_round_trip {packet : FakeTCPPacket} (hpacket : Sendable packet)
    (spare : Bytes) {source destination : UInt16} {f : Frame} {skb : SkBuff}
    (hbytes : skb.bytes = f.bytes) (hsegs : skb.gsoSegs ≤ 1)
    (hproto : f.ip.protocol = ipprotoUdp)
    (hbody : f.body = udpDatagram source destination (marshalFakeTCPPacket packet spare)) :
    ∃ (sent : SkBuff) (segment : Frame) (tcp : TcpHeader),
      transformEgress source skb f.link.length = (.next, sent) ∧
      sent.bytes = segment.bytes ∧ segment.link = f.link ∧
      segment.ip = f.ip.withProtocol ipprotoTcp ∧
      segment.body = tcp.bytes ++ (marshalFakeTCPPacket packet spare).drop carrierHeaderSize ∧
      tcp.flags = packet.flags ∧
      segment.ip.ChecksumValid ∧ segment.ip.TransportValid segment.body ∧
      ∀ (arrived : SkBuff) (g : Frame), g.ip = segment.ip → g.body = segment.body →
        arrived.bytes = g.bytes → arrived.gsoSegs ≤ 1 →
        ∃ (received : SkBuff) (datagram : Frame) (carrier : UdpCarrier),
          transformIngress destination arrived g.link.length = (.next, received) ∧
          received.bytes = datagram.bytes ∧ datagram.link = g.link ∧
          datagram.ip = g.ip.withProtocol ipprotoUdp ∧
          datagram.body =
            carrier.bytes ++ (marshalFakeTCPPacket packet spare).drop carrierHeaderSize ∧
          Restores carrier packet source destination ∧
          carrier.length.toNat = datagram.body.length ∧ carrier.checksum ≠ 0 ∧
          datagram.ip.ChecksumValid ∧ datagram.ip.TransportValid datagram.body := by
  obtain ⟨value, rest, seg, hrest, hcarrier, hflags, htrans⟩ :=
    sendable_translates hpacket spare hbody
  have hmax := f.ip.length_le_of_plain f.plain
  have hsize : f.body.length = 20 + rest.length := by
    rw [hcarrier, List.length_append, UdpCarrier.length_bytes]
  have hlen : ((seg.header f.bytes f.info).bytes ++ rest).length = f.body.length := by
    rw [List.length_append, TcpHeader.length_bytes, hsize]
  have hlength : (UInt16.ofNat f.body.length).toNat = f.body.length :=
    UInt16.toNat_ofNat_of_lt' (Nat.lt_succ_of_le hmax)
  obtain ⟨sent, hegress, hsent⟩ := transformEgress_frame hbytes hsegs hproto hcarrier rfl rfl
    hlength htrans.egress hlen
  rw [hrest]
  refine ⟨sent, f.withBody ipprotoTcp _ hlen, seg.header f.bytes f.info, hegress, hsent, rfl,
    rfl, rfl, hflags, f.ip.checksumValid_withProtocol ipprotoTcp, seg.header_valid htrans.sums hsize,
    fun arrived g hip hgbody harrived hgsegs => ?_⟩
  obtain ⟨headerLength, hlow, hoffset, hmin, hsixty, hheader, haccepts⟩ := htrans.ingress
  have hgtcp : g.body = (seg.header f.bytes f.info).bytes ++ rest := hgbody
  have hgproto : g.ip.protocol = ipprotoTcp := by
    rw [hip]
    exact f.ip.protocol_withProtocol ipprotoTcp
  have hgvalid : g.ip.TransportValid g.body := by
    rw [hip, hgbody]
    exact seg.header_valid htrans.sums hsize
  have hgsize : g.body.length = 20 + rest.length := by
    rw [hgtcp, List.length_append, TcpHeader.length_bytes]
  obtain ⟨received, hglen, hingress, hreceived⟩ := transformIngress_frame harrived hgproto
    hgtcp hlow hoffset hmin hsixty (hgsize ▸ hheader) (haccepts g _ rfl hgtcp)
  obtain ⟨hchecksum, hiff⟩ := ingressCarrier_valid_iff hgsegs hgproto hgtcp
  obtain ⟨checksum, hgcarrier, _⟩ := ingressCarrier_eq hgsegs g.info (seg.header f.bytes f.info)
  have hfield : (ingressCarrier arrived g.info (seg.header f.bytes f.info)).length.toNat =
      g.body.length := by
    rw [hgcarrier, hgsize, ← hsize, ← hlength, hsize, ← hgsize]
    rfl
  have hport : (seg.header f.bytes f.info).destination = destination := htrans.destination
  rw [hport] at hingress
  refine ⟨received, g.withBody ipprotoUdp _ hglen, ingressCarrier arrived g.info _, hingress,
    hreceived, rfl, rfl, rfl, ?_, ?_, hchecksum,
    g.ip.checksumValid_withProtocol ipprotoUdp, hiff.mpr hgvalid⟩
  · rw [hgcarrier]
    exact ⟨htrans.source, htrans.destination, rfl, congrArg UInt8.toUInt16 hflags,
      htrans.sequence, htrans.acknowledgement⟩
  · exact hfield.trans hglen.symm

def samplePacket : FakeTCPPacket := ⟨tcpFlagACK, 1001, 2001, List.replicate 33 0xAB⟩

/-- A data packet in an Ethernet frame with an IPv4 header. -/
def sampleFrame : Frame where
  link := List.replicate 12 0 ++ put16 ethPIp
  ip := .ipv4 ⟨0x45, 0, 75, 1, 0x4000, 64, ipprotoUdp, 0, 0x0A000001, 0x0A000002⟩
  body := udpDatagram 40000 51820 (marshalFakeTCPPacket samplePacket [])
  trailer := []
  linked := by decide
  plain := by decide +kernel

def sampleBuffer : SkBuff := ⟨sampleFrame.bytes, 0, 1, Nat.zero_le _⟩

/-- The segment arrives at an interface without a link header. -/
theorem fakeTCP_wire_round_trip_data :
    ∃ (sent received : SkBuff) (segment g datagram : Frame) (carrier : UdpCarrier),
      transformEgress 40000 sampleBuffer 14 = (.next, sent) ∧ sent.bytes = segment.bytes ∧
      g = {segment with link := [], linked := .inl rfl} ∧
      transformIngress 51820 ⟨g.bytes, 0, 1, Nat.zero_le _⟩ 0 = (.next, received) ∧
      received.bytes = datagram.bytes ∧ datagram.body = carrier.bytes ++
        (marshalFakeTCPPacket samplePacket []).drop carrierHeaderSize ∧
      Restores carrier samplePacket 40000 51820 ∧ datagram.ip.TransportValid datagram.body := by
  have hpacket : Sendable samplePacket := .inr (by decide)
  have hbytes : sampleBuffer.bytes = sampleFrame.bytes := rfl
  obtain ⟨sent, segment, tcp, hegress, hsent, _, _, _, _, _, _, harrives⟩ :=
    fakeTCP_wire_round_trip hpacket [] hbytes (by decide) rfl rfl
  obtain ⟨received, datagram, carrier, hingress, hreceived, _, _, hbody, hrestores, _, _, _, hudp⟩ :=
    harrives ⟨_, 0, 1, Nat.zero_le _⟩ {segment with link := [], linked := .inl rfl} rfl rfl rfl
      (Nat.le_refl 1)
  exact ⟨sent, received, segment, _, datagram, carrier, hegress, hsent, rfl, hingress, hreceived,
    hbody, hrestores, hudp⟩

end RoundTrip

end Nylon.Polyamide.Transformer
