import Nylon.Polyamide.TransformerChecksums

/-!
What the two programs of the transformer do to a frame. Egress turns a carrier of the
managed port into the segment that `egressSegment` describes; ingress turns a segment
for the managed port into its carrier, whose checksum is right if that of the segment
was.
-/

namespace Nylon.Polyamide.Transformer

open Lib OnesComplement

section Egress

variable {f : Frame} {rest : Bytes}

/-- Where the transport header of a frame stands. -/
theorem Frame.bytes_split {header : Bytes} (hbody : f.body = header ++ rest) :
    ∃ front, f.bytes = front ++ (header ++ (rest ++ f.trailer)) ∧
      f.info.l4Offset = front.length := by
  refine ⟨f.link ++ f.ip.bytes, ?_, List.length_append.symm⟩
  rw [Frame.bytes, hbody]
  simp

theorem read_body {carrier : UdpCarrier} (hbody : f.body = carrier.bytes ++ rest) :
    UdpCarrier.read f.bytes f.info.l4Offset = carrier := by
  obtain ⟨front, hbytes, hoffset⟩ := Frame.bytes_split hbody
  rw [hbytes, hoffset]
  exact UdpCarrier.read_append _ _ _

theorem egressPullLength_le {info : PacketInfo} (h : 20 ≤ info.l4Length) :
    egressPullLength info ≤ info.l4Offset + 24 ∧
      egressPullLength info ≤ info.l4Offset + info.l4Length := by
  unfold egressPullLength
  rw [tcpHeaderSize]
  split <;> omega

theorem le_egressPullLength (info : PacketInfo) : info.l4Offset + 20 ≤ egressPullLength info ∧
      (24 ≤ info.l4Length → info.l4Offset + 24 ≤ egressPullLength info) := by
  unfold egressPullLength
  split
  · simp [tcpHeaderSize]
  · next hshort => exact ⟨Nat.le_refl _, fun hlong => absurd hlong hshort⟩

/-- Egress replaces the carrier header of a frame by the header of the segment. -/
theorem transformEgress_frame {skb : SkBuff} {carrier : UdpCarrier}
    {seg : Segment} (hbytes : skb.bytes = f.bytes) (hsegs : skb.gsoSegs ≤ 1)
    (hproto : f.ip.protocol = ipprotoUdp) (hbody : f.body = carrier.bytes ++ rest)
    (hmagic : carrier.magic = carrierMagic) (hchecksum : carrier.checksum = 0)
    (hlength : carrier.length.toNat = f.body.length)
    (hseg : ∀ skb' : SkBuff, skb'.bytes = f.bytes →
      (24 ≤ f.body.length → f.info.l4Offset + 24 ≤ skb'.linear) →
      egressSegment skb' f.info carrier = some seg)
    (hlen : ((seg.header f.bytes f.info).bytes ++ rest).length = f.body.length) :
    ∃ skb', transformEgress carrier.source skb f.link.length = (.next, skb') ∧
      skb'.bytes = (f.withBody ipprotoTcp _ hlen).bytes := by
  have hsize : f.body.length = 20 + rest.length := by
    rw [hbody, List.length_append, UdpCarrier.length_bytes]
  have hip : f.ip.bytes.length ≤ 40 := by
    cases f.ip <;> simp [IpHeader.bytes]
  have hl3 : f.info.l4Offset = f.info.l3Offset + f.ip.bytes.length := rfl
  have hl4 : f.info.l4Length = f.body.length := rfl
  have hmin : 20 ≤ f.body.length := by omega
  obtain ⟨hpull, hpull24⟩ := le_egressPullLength f.info
  obtain ⟨hpullMax, hpullBody⟩ := egressPullLength_le (hl4 ▸ hmin)
  obtain ⟨skb1, hparse, hbytes1, hsegs1, hlinear1⟩ := parsePacket_frame hbytes (by omega)
  have hroom : egressPullLength f.info ≤ skb1.bytes.length := by
    have hl3' : f.info.l3Offset = f.link.length := rfl
    rw [hbytes1, f.length_bytes]
    omega
  obtain ⟨skb2, hensure, hbytes2, hsegs2, hlinear2, hgrow⟩ := skb1.ensureLinear_eq hroom
  have hframe2 : skb2.bytes = f.bytes := hbytes2.trans hbytes1
  obtain ⟨skb3, hreplace, hbytes3⟩ := replaceHeader_frame (p := ipprotoTcp) hframe2
    (hlinear1.trans hgrow) hbody hlen
  refine ⟨skb3, ?_, hbytes3⟩
  have hrewrite : rewriteEgress carrier.source skb2 f.info = (.next, skb3) := by
    have hone : ¬ 1 < skb2.gsoSegs := by
      rw [hsegs2, hsegs1]
      exact UInt32.not_lt.mpr hsegs
    unfold rewriteEgress
    dsimp only
    rw [hframe2, read_body hbody, if_neg, if_neg, if_neg, hseg skb2 hframe2 fun hlong =>
      (hpull24 hlong).trans hlinear2]
    · exact hreplace
    · rintro (hstandard | hmany | hwrong)
      · cases hstandard
      · exact hone hmany
      · exact hwrong hlength
    · exact fun hne => hne rfl
    · rintro (hshort | hne | hne)
      · rw [udpCarrierSize] at hshort
        omega
      · exact hne hmagic
      · exact hne hchecksum
  unfold transformEgress
  rw [hparse]
  dsimp only
  rw [if_neg, if_neg, hensure]
  · exact hrewrite
  · rw [tcpHeaderSize]
    omega
  · rintro (hother | hshort)
    · exact hother hproto
    · rw [udpCarrierSize] at hshort
      omega

/-- What a segment must be for the checksum of its header to be right. -/
structure Segment.Sums (seg : Segment) (rest : Bytes) : Prop where
  bound : seg.payloadSum.toNat ≤ 65535
  rest : (seg.payloadSum.toNat + seg.optionOne.toNat + seg.optionTwo.toNat) % 65535 =
    total rest % 65535

theorem Segment.header_valid {seg : Segment}
    (h : seg.Sums rest) (hlen : f.body.length = 20 + rest.length) :
    (f.ip.withProtocol ipprotoTcp).TransportValid
      ((seg.header f.bytes f.info).bytes ++ rest) :=
  tcpChecksum_valid f seg.tcp hlen h.bound h.rest

end Egress

section Ingress

variable {f : Frame} {tcp : TcpHeader} {rest : Bytes} {skb : SkBuff}

theorem read_segment (hbody : f.body = tcp.bytes ++ rest) :
    TcpHeader.read f.bytes f.info.l4Offset = tcp := by
  obtain ⟨front, hbytes, hoffset⟩ := Frame.bytes_split hbody
  rw [hbytes, hoffset]
  exact TcpHeader.read_append _ _ _

theorem IpHeader.addressWords_withProtocol (ip : IpHeader) (p : UInt8) :
    (ip.withProtocol p).addressWords = ip.addressWords := by
  cases ip <;> rfl

/-- The carrier header for a segment, without its checksum. -/
def bareCarrier (tcp : TcpHeader) (length : Nat) : UdpCarrier :=
  ⟨tcp.source, tcp.destination, .ofNat length, 0, carrierMagic, tcp.flags.toUInt16,
    tcp.sequence, tcp.acknowledgement⟩

theorem ingressCarrier_eq (hsegs : skb.gsoSegs ≤ 1) (info : PacketInfo) (tcp : TcpHeader) :
    ∃ checksum : UInt16, ingressCarrier skb info tcp =
        {bareCarrier tcp info.l4Length with checksum := checksum} ∧
      0 < checksum.toNat ∧
      (checksum.toNat + carrierWords (bareCarrier tcp info.l4Length) + 17) % 65535 =
        (tcpWords tcp + tcp.checksum.toNat + 6) % 65535 := by
  have hstart : Sums (~~~tcp.checksum.toUInt32 &&& (0xffff : UInt32))
      (65535 - tcp.checksum.toNat) 1 := by
    refine ⟨?_, by omega⟩
    rw [toNat_complement, UInt16.toNat_toUInt32, Nat.mod_eq_of_lt tcp.checksum.toNat_lt]
  have hsix : ipprotoTcp.toUInt32.toNat % 65536 = 6 := rfl
  have hseventeen : ipprotoUdp.toUInt32.toNat = 17 := rfl
  have hsum := (((hstart.subtractTcp (by decide) tcp).subtract (by decide) hsix).carrierHeader
    (by decide) (bareCarrier tcp info.l4Length)).add (by decide) hseventeen (by decide)
  obtain ⟨hmod, hpos⟩ := finishChecksum_spec hsum
  refine ⟨_, ?_, hpos, ?_⟩
  · exact if_pos hsegs
  · have hwords := tcpWords_le tcp
    have hck := tcp.checksum.toNat_lt
    omega

/-- The checksum of the carrier completes the same sum as that of the segment. -/
theorem ingressCarrier_valid_iff (hsegs : skb.gsoSegs ≤ 1) (hproto : f.ip.protocol = ipprotoTcp)
    (hbody : f.body = tcp.bytes ++ rest) :
    (ingressCarrier skb f.info tcp).checksum ≠ 0 ∧
      ((f.ip.withProtocol ipprotoUdp).TransportValid
        ((ingressCarrier skb f.info tcp).bytes ++ rest) ↔ f.ip.TransportValid f.body) := by
  have hmax := f.ip.length_le_of_plain f.plain
  obtain ⟨checksum, hcarrier, hpos, hmod⟩ := ingressCarrier_eq hsegs f.info tcp
  have hlen : ((ingressCarrier skb f.info tcp).bytes ++ rest).length = f.body.length := by
    rw [hbody, List.length_append, List.length_append, UdpCarrier.length_bytes,
      TcpHeader.length_bytes]
  have hsix : ipprotoTcp.toNat = 6 := rfl
  have hseventeen : ipprotoUdp.toNat = 17 := rfl
  have hwords : carrierWords (ingressCarrier skb f.info tcp) =
      carrierWords (bareCarrier tcp f.info.l4Length) := by
    rw [hcarrier]
    rfl
  have hck : (ingressCarrier skb f.info tcp).checksum = checksum := by rw [hcarrier]
  have hsegment : f.ip.TransportValid f.body ↔ (f.ip.addressWords + 6 + f.body.length +
      (tcpWords tcp + tcp.checksum.toNat + total rest)) % 65535 = 0 := by
    rw [IpHeader.TransportValid, valid_iff, IpHeader.total_pseudoHeader _ hmax, hproto, hsix]
    conv_lhs => rw [show total f.body = tcpWords tcp + tcp.checksum.toNat + total rest by
      rw [hbody, total_tcpHeader]]
    omega
  refine ⟨fun hzero => ?_, ?_⟩
  · rw [← hck, hzero] at hpos
    exact absurd hpos (by decide)
  · rw [hsegment, IpHeader.TransportValid, valid_iff, hlen, IpHeader.total_pseudoHeader _ hmax,
      total_udpCarrier, IpHeader.addressWords_withProtocol, IpHeader.protocol_withProtocol,
      hseventeen, hwords, hck]
    omega

/-- Ingress replaces the header of a segment by that of its carrier. -/
theorem transformIngress_frame {headerLength : Nat} (hbytes : skb.bytes = f.bytes)
    (hproto : f.ip.protocol = ipprotoTcp) (hbody : f.body = tcp.bytes ++ rest)
    (hoffset : tcp.dataOffset &&& 0xf = 0)
    (hheader : (tcp.dataOffset >>> 4).toNat * 4 = headerLength) (hmin : 20 ≤ headerLength)
    (hsixty : headerLength ≤ 60) (hmax : headerLength ≤ f.body.length)
    (haccepts : ∀ skb' : SkBuff, skb'.bytes = f.bytes →
      f.info.l4Offset + headerLength ≤ skb'.linear →
      ingressAccepts skb' f.info tcp headerLength = true) :
    ∃ (skb' : SkBuff) (hlen : ((ingressCarrier skb f.info tcp).bytes ++ rest).length =
        f.body.length),
      transformIngress tcp.destination skb f.link.length = (.next, skb') ∧
      skb'.bytes = (f.withBody ipprotoUdp _ hlen).bytes := by
  have hl4 : f.info.l4Length = f.body.length := rfl
  have hl3 : f.info.l4Offset = f.link.length + f.ip.bytes.length := rfl
  have hsize : f.body.length = 20 + rest.length := by
    rw [hbody, List.length_append, TcpHeader.length_bytes]
  have htotal := f.length_bytes
  obtain ⟨skb1, hparse, hbytes1, hsegs1, hlinear1⟩ := parsePacket_frame hbytes (by omega)
  obtain ⟨skb2, hensure2, hbytes2, hsegs2, hlinear2, hgrow2⟩ := skb1.ensureLinear_eq
    (show f.info.l4Offset + 20 ≤ skb1.bytes.length by rw [hbytes1]; omega)
  obtain ⟨skb3, hensure3, hbytes3, hsegs3, hlinear3, hgrow3⟩ := skb2.ensureLinear_eq
    (show f.info.l4Offset + headerLength ≤ skb2.bytes.length by rw [hbytes2, hbytes1]; omega)
  have hframe2 : skb2.bytes = f.bytes := hbytes2.trans hbytes1
  have hframe3 : skb3.bytes = f.bytes := hbytes3.trans hframe2
  have hsame : ingressCarrier skb3 f.info tcp = ingressCarrier skb f.info tcp := by
    rw [ingressCarrier, ingressCarrier, hsegs3, hsegs2, hsegs1]
  have hlen : ((ingressCarrier skb f.info tcp).bytes ++ rest).length = f.body.length := by
    rw [List.length_append, UdpCarrier.length_bytes, hsize]
  obtain ⟨skb4, hreplace, hbytes4⟩ := replaceHeader_frame (p := ipprotoUdp) hframe3
    (hlinear1.trans (hgrow2.trans hgrow3)) hbody hlen
  refine ⟨skb4, hlen, ?_, hbytes4⟩
  have hrewrite : rewriteIngress tcp.destination skb2 f.info = (.next, skb4) := by
    unfold rewriteIngress
    dsimp only
    rw [hframe2, read_segment hbody, hheader, if_neg, if_neg (by exact Bool.noConfusion),
      if_neg, hensure3]
    · dsimp only
      rw [if_neg (Nat.not_lt.mpr hlinear3), haccepts skb3 hframe3 hlinear3, hsame]
      exact hreplace
    · rw [tcpHeaderSize]
      rintro (hne | hbad)
      · exact hne hoffset
      · omega
    · rintro (hshort | hne)
      · rw [tcpHeaderSize] at hshort
        omega
      · exact hne rfl
  unfold transformIngress
  rw [hparse]
  dsimp only
  rw [if_neg, tcpHeaderSize, hensure2]
  · exact hrewrite
  · rintro (hother | hshort)
    · exact hother hproto
    · rw [tcpHeaderSize] at hshort
      omega

end Ingress

end Nylon.Polyamide.Transformer
