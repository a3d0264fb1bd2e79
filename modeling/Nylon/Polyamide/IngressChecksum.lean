import Nylon.Polyamide.CarrierSpec
import Nylon.Polyamide.TransformerRuns

/-!
Every segment that ingress rewrites is a frame, whatever its bytes are: the checks of the
program leave only packets with a plain network header. The checksum of the carrier is
derived from that of the segment, so it is right exactly if that of the segment was.
-/

namespace Nylon.Polyamide.Transformer

open Lib OnesComplement

section Reading

variable {bs : Bytes} {i : Nat}

theorem take_drop_eq_map {n : Nat} (h : i + n ≤ bs.length) :
    (bs.drop i).take n = (List.range n).map fun k => byteAt bs (i + k) := by
  apply List.ext_getElem
  · simp only [List.length_take, List.length_drop, List.length_map, List.length_range]
    omega
  · intro k hk hk'
    have hlt : i + k < bs.length := by
      rw [List.length_map, List.length_range] at hk'
      omega
    simp [byteAt, List.getElem?_eq_getElem hlt]

theorem put32_be32 (a b c d : UInt8) : put32 (be32 [a, b, c, d]) = [a, b, c, d] := by
  have ha := a.toNat_lt
  have hb := b.toNat_lt
  have hc := c.toNat_lt
  have hd := d.toNat_lt
  have hword : (be32 [a, b, c, d]).toNat =
      (a.toNat * 256 + b.toNat) * 65536 + (c.toNat * 256 + d.toNat) := by
    simp only [be32, beNat, List.foldl_cons, List.foldl_nil, UInt32.toNat_ofNat']
    omega
  have hhigh : (be32 [a, b, c, d] >>> 16).toUInt16 = be16 [a, b] := by
    apply UInt16.toNat_inj.mp
    rw [UInt32.toNat_toUInt16, toNat_high, toNat_be16, hword]
    omega
  have hlow : (be32 [a, b, c, d]).toUInt16 = be16 [c, d] := by
    apply UInt16.toNat_inj.mp
    rw [UInt32.toNat_toUInt16, toNat_be16, hword]
    omega
  rw [put32, hhigh, hlow, put16_be16, put16_be16]
  rfl

theorem Ipv4Header.bytes_read (h : i + 20 ≤ bs.length) :
    (Ipv4Header.read bs i).bytes = (bs.drop i).take 20 := by
  rw [take_drop_eq_map h]
  simp only [Ipv4Header.bytes, Ipv4Header.read, be16At, be32At, put16_be16, put32_be32]
  rfl

theorem TcpHeader.bytes_read (h : i + 20 ≤ bs.length) :
    (TcpHeader.read bs i).bytes = (bs.drop i).take 20 := by
  rw [take_drop_eq_map h]
  simp only [TcpHeader.bytes, TcpHeader.read, be16At, be32At, put16_be16, put32_be32]
  rfl

/-- The IPv6 header at a place in the packet. -/
def Ipv6Header.read (bs : Bytes) (i : Nat) (h : i + 40 ≤ bs.length) : Ipv6Header where
  versionFlow := be32At bs i
  payloadLength := be16At bs (i + 4)
  nextHeader := byteAt bs (i + 6)
  hopLimit := byteAt bs (i + 7)
  source := (bs.drop (i + 8)).take 16
  destination := (bs.drop (i + 24)).take 16
  source_length := by simp only [List.length_take, List.length_drop]; omega
  destination_length := by simp only [List.length_take, List.length_drop]; omega

theorem Ipv6Header.bytes_read (h : i + 40 ≤ bs.length) :
    (Ipv6Header.read bs i h).bytes = (bs.drop i).take 40 := by
  have hfront : put32 (be32At bs i) ++ (put16 (be16At bs (i + 4)) ++
      [byteAt bs (i + 6), byteAt bs (i + 7)]) = (bs.drop i).take 8 := by
    rw [take_drop_eq_map (by omega), be32At, be16At, put16_be16, put32_be32]
    rfl
  have hsplit : (bs.drop i).take 40 = (bs.drop i).take 8 ++
      ((bs.drop (i + 8)).take 16 ++ (bs.drop (i + 24)).take 16) := by
    rw [show 40 = 8 + (16 + 16) from rfl, List.take_add, List.take_add, List.drop_drop,
      List.drop_drop, Nat.add_assoc]
  rw [hsplit, ← hfront]
  simp [Ipv6Header.bytes, Ipv6Header.read]

end Reading

section Layout

variable {skb skb' : SkBuff} {l3Offset : Nat} {info : PacketInfo}

theorem SkBuff.of_ensureLinear {len : Nat} (h : skb.ensureLinear len = some skb') :
    skb'.bytes = skb.bytes ∧ skb'.gsoSegs = skb.gsoSegs ∧ skb.linear ≤ skb'.linear := by
  unfold SkBuff.ensureLinear SkBuff.pullData at h
  split at h
  · split at h
    · cases h
      exact ⟨rfl, rfl, le_max_left _ _⟩
    · cases h
  · cases h
    exact ⟨rfl, rfl, le_rfl⟩

theorem plainVersion {v : UInt8} (hversion : v >>> 4 = 4) (hihl : (v &&& 0xf).toNat * 4 = 20) :
    v = 0x45 := by
  have hhigh : v.toNat / 16 = 4 := by
    have hnat := congrArg UInt8.toNat hversion
    rw [UInt8.toNat_shiftRight] at hnat
    exact (Nat.shiftRight_eq_div_pow v.toNat 4).symm.trans hnat
  have hlow : v.toNat % 16 = 5 := by
    have hand : (v &&& 0xf).toNat = v.toNat % 16 :=
      (UInt8.toNat_and v 0xf).trans (Nat.and_two_pow_sub_one_eq_mod v.toNat 4)
    omega
  apply UInt8.toNat_inj.mp
  show v.toNat = 69
  omega

/-- The bytes around a network header of `size` bytes with `len` bytes behind it. -/
theorem split_packet (bs : Bytes) (l3Offset size len : Nat) :
    bs = bs.take l3Offset ++ ((bs.drop l3Offset).take size ++
      ((bs.drop (l3Offset + size)).take len ++ bs.drop (l3Offset + size + len))) := by
  have hbehind : (bs.drop (l3Offset + size)).take len ++ bs.drop (l3Offset + size + len) =
      (bs.drop l3Offset).drop size := by
    rw [List.drop_drop]
    conv_rhs => rw [← List.take_append_drop len (bs.drop (l3Offset + size)), List.drop_drop]
  rw [hbehind, List.take_append_drop, List.take_append_drop]

/-- The link layer announces the version of the network header, where there is one. -/
theorem linked_of_announced {bs : Bytes} {v : IpVersion} {ip : IpHeader}
    (hl3 : l3Offset = 0 ∨ l3Offset = ethHeaderSize) (hlen : l3Offset ≤ bs.length)
    (h : announcedVersion bs l3Offset = some v) (hip : ip.version = v) :
    bs.take l3Offset = [] ∨ (bs.take l3Offset).length = ethHeaderSize ∧
      be16At (bs.take l3Offset) 12 = ip.etherType := by
  rcases hl3 with rfl | rfl
  · exact .inl rfl
  · have hsize : (bs.take ethHeaderSize).length = ethHeaderSize := by
      rw [List.length_take]
      omega
    have htype : be16At bs 12 = be16At (bs.take ethHeaderSize) 12 := by
      conv_lhs => rw [← List.take_append_drop ethHeaderSize bs]
      rw [be16At, be16At, byteAt_append_left (by rw [hsize]; decide),
        byteAt_append_left (by rw [hsize]; decide)]
    refine .inr ⟨hsize, ?_⟩
    rw [announcedVersion, if_pos rfl, htype] at h
    subst hip
    split at h
    · next heq =>
      rw [heq]
      cases ip with
      | ipv4 _ => rfl
      | ipv6 _ => cases h
    · split at h
      · next heq =>
        rw [heq]
        cases ip with
        | ipv4 _ => cases h
        | ipv6 _ => rfl
      · cases h

theorem frame_of_parseIpv4 (hl3 : l3Offset = 0 ∨ l3Offset = ethHeaderSize)
    (hversion : announcedVersion skb.bytes l3Offset = some .v4)
    (h : parseIpv4 skb l3Offset = some info) (hstandard : info.standard = true) :
    ∃ f : Frame, skb.bytes = f.bytes ∧ f.link.length = l3Offset ∧ f.info = info := by
  unfold parseIpv4 at h
  dsimp only at h
  split at h
  · cases h
  · next hshort =>
    split at h
    · cases h
    · next hlengths =>
      push Not at hshort hlengths
      obtain ⟨hlinear, hfour⟩ := hshort
      obtain ⟨_, htotal, hroom⟩ := hlengths
      cases h
      have hplain := of_decide_eq_true hstandard
      have hbytes := skb.linear_le
      rw [ipv4HeaderSize] at hlinear hplain
      have htwenty : l3Offset + 20 ≤ skb.bytes.length := by omega
      have hheader := Ipv4Header.bytes_read htwenty
      have hlen : ((skb.bytes.drop (l3Offset + 20)).take
          ((Ipv4Header.read skb.bytes l3Offset).totalLength.toNat - 20)).length =
          (Ipv4Header.read skb.bytes l3Offset).totalLength.toNat - 20 := by
        rw [List.length_take, List.length_drop]
        omega
      refine ⟨{
        link := skb.bytes.take l3Offset
        ip := .ipv4 (Ipv4Header.read skb.bytes l3Offset)
        body := (skb.bytes.drop (l3Offset + 20)).take
          ((Ipv4Header.read skb.bytes l3Offset).totalLength.toNat - 20)
        trailer := skb.bytes.drop (l3Offset + 20 +
          ((Ipv4Header.read skb.bytes l3Offset).totalLength.toNat - 20))
        linked := linked_of_announced hl3 (by omega) hversion rfl
        plain := ⟨plainVersion hfour hplain.1, by rw [hlen, ipv4HeaderSize]; omega,
          hplain.2⟩ }, ?_, ?_, ?_⟩
      · conv_lhs => rw [split_packet skb.bytes l3Offset 20
          ((Ipv4Header.read skb.bytes l3Offset).totalLength.toNat - 20), ← hheader]
        rfl
      · rw [List.length_take]
        omega
      · have hlink : (skb.bytes.take l3Offset).length = l3Offset := by
          rw [List.length_take]
          omega
        simp only [Frame.info, IpHeader.bytes, Ipv4Header.length_bytes, hlink, hlen, hplain,
          IpHeader.version, IpHeader.protocol, ipv4HeaderSize, and_self, decide_true]

theorem frame_of_parseIpv6 (hl3 : l3Offset = 0 ∨ l3Offset = ethHeaderSize)
    (hversion : announcedVersion skb.bytes l3Offset = some .v6)
    (h : parseIpv6 skb l3Offset = some info) :
    ∃ f : Frame, skb.bytes = f.bytes ∧ f.link.length = l3Offset ∧ f.info = info := by
  unfold parseIpv6 at h
  dsimp only at h
  split at h
  · cases h
  · next hshort =>
    split at h
    · cases h
    · next hroom =>
      push Not at hshort hroom
      obtain ⟨hlinear, hsix⟩ := hshort
      cases h
      have hbytes := skb.linear_le
      rw [ipv6HeaderSize] at hlinear hroom
      have hforty : l3Offset + 40 ≤ skb.bytes.length := by omega
      have hheader := Ipv6Header.bytes_read hforty
      have hlen : ((skb.bytes.drop (l3Offset + 40)).take
          (be16At skb.bytes (l3Offset + 4)).toNat).length =
          (be16At skb.bytes (l3Offset + 4)).toNat := by
        rw [List.length_take, List.length_drop]
        omega
      have hlink : (skb.bytes.take l3Offset).length = l3Offset := by
        rw [List.length_take]
        omega
      refine ⟨{
        link := skb.bytes.take l3Offset
        ip := .ipv6 (Ipv6Header.read skb.bytes l3Offset hforty)
        body := (skb.bytes.drop (l3Offset + 40)).take (be16At skb.bytes (l3Offset + 4)).toNat
        trailer := skb.bytes.drop (l3Offset + 40 + (be16At skb.bytes (l3Offset + 4)).toNat)
        linked := linked_of_announced hl3 (by omega) hversion rfl
        plain := ⟨hsix, hlen.symm⟩ }, ?_, hlink, ?_⟩
      · conv_lhs => rw [split_packet skb.bytes l3Offset 40
          (be16At skb.bytes (l3Offset + 4)).toNat, ← hheader]
        rfl
      · simp only [Frame.info, IpHeader.bytes, Ipv6Header.length_bytes, hlink, hlen,
          IpHeader.version, IpHeader.protocol, ipv6HeaderSize]
        rfl

/-- A packet that is parsed as a standard one is a frame with this layout. -/
theorem frame_of_parsePacket (hl3 : l3Offset = 0 ∨ l3Offset = ethHeaderSize)
    (h : parsePacket skb l3Offset = (skb', some info)) (hstandard : info.standard = true) :
    ∃ f : Frame, skb'.bytes = f.bytes ∧ f.link.length = l3Offset ∧ f.info = info := by
  unfold parsePacket at h
  dsimp only at h
  split at h
  · cases h
  · split at h
    · cases h
    · split at h
      · cases h
      · next hversion =>
        obtain ⟨rfl, hparse⟩ := Prod.mk.inj h
        exact frame_of_parseIpv4 hl3 hversion hparse hstandard
      · next hversion =>
        obtain ⟨rfl, hparse⟩ := Prod.mk.inj h
        exact frame_of_parseIpv6 hl3 hversion hparse

theorem parsePacket_keeps {info : Option PacketInfo} (h : parsePacket skb l3Offset = (skb', info)) :
    skb'.bytes = skb.bytes ∧ skb'.gsoSegs = skb.gsoSegs ∧
      (info ≠ none → l3Offset + ipv6HeaderSize ≤ skb'.linear) := by
  unfold parsePacket at h
  dsimp only at h
  split at h
  · cases h
    exact ⟨rfl, rfl, fun hne => absurd rfl hne⟩
  · next pulled hensure =>
    obtain ⟨hbytes, hsegs, _⟩ := SkBuff.of_ensureLinear hensure
    split at h
    · cases h
      exact ⟨hbytes, hsegs, fun hne => absurd rfl hne⟩
    · next hlinear =>
      have hskb : pulled = skb' := by
        split at h
        · exact (Prod.mk.inj h).1
        · exact (Prod.mk.inj h).1
        · exact (Prod.mk.inj h).1
      subst hskb
      exact ⟨hbytes, hsegs, fun _ => Nat.le_of_not_lt hlinear⟩

end Layout

section Ingress

/-- A packet that is changed has its transport header replaced. -/
theorem rewriteIngress_changed {managedPort : UInt16} {skb skb' : SkBuff} {info : PacketInfo}
    (h : rewriteIngress managedPort skb info = (.next, skb')) (hne : skb'.bytes ≠ skb.bytes) :
    info.standard = true ∧ ∃ pulled : SkBuff, pulled.bytes = skb.bytes ∧
      pulled.gsoSegs = skb.gsoSegs ∧ skb.linear ≤ pulled.linear ∧
      replaceHeader pulled info (ingressCarrier pulled info
        (TcpHeader.read skb.bytes info.l4Offset)).bytes ipprotoUdp = (.next, skb') := by
  unfold rewriteIngress at h
  dsimp only at h
  split at h
  · cases h
    exact absurd rfl hne
  · split at h
    · cases h
    · next hstandard =>
      split at h
      · cases h
      · split at h
        · cases h
        · next pulled hensure =>
          split at h
          · cases h
          · split at h
            · cases h
            · obtain ⟨hbytes, hsegs, hlinear⟩ := SkBuff.of_ensureLinear hensure
              exact ⟨Bool.not_eq_false _ ▸ hstandard, pulled, hbytes, hsegs, hlinear, h⟩

/-- Every packet that ingress changes is a frame with a segment. -/
theorem transformIngress_changed {managedPort : UInt16} {skb skb' : SkBuff} {l3Offset : Nat}
    (hl3 : l3Offset = 0 ∨ l3Offset = ethHeaderSize)
    (h : transformIngress managedPort skb l3Offset = (.next, skb'))
    (hne : skb'.bytes ≠ skb.bytes) :
    ∃ (f : Frame) (tcp : TcpHeader) (rest : Bytes) (pulled : SkBuff),
      skb.bytes = f.bytes ∧ f.link.length = l3Offset ∧ f.ip.protocol = ipprotoTcp ∧
      f.body = tcp.bytes ++ rest ∧ pulled.bytes = f.bytes ∧ pulled.gsoSegs = skb.gsoSegs ∧
      l3Offset + ipv6HeaderSize ≤ pulled.linear ∧
      replaceHeader pulled f.info (ingressCarrier pulled f.info tcp).bytes ipprotoUdp =
        (.next, skb') := by
  unfold transformIngress at h
  split at h
  · next hparse =>
    cases h
    exact absurd (parsePacket_keeps hparse).1 hne
  · next parsed info hparse =>
    obtain ⟨hbytes, hsegs, hlinear⟩ := parsePacket_keeps hparse
    split at h
    · cases h
      exact absurd hbytes hne
    · next hsegment =>
      push Not at hsegment
      split at h
      · cases h
        exact absurd hbytes hne
      · next linear hensure =>
        obtain ⟨hbytes', hsegs', hlinear'⟩ := SkBuff.of_ensureLinear hensure
        obtain ⟨hstandard, pulled, hpulled, hpsegs, hplinear, hreplace⟩ :=
          rewriteIngress_changed h (by rw [hbytes', hbytes]; exact hne)
        obtain ⟨f, hframe, hlink, rfl⟩ := frame_of_parsePacket hl3 hparse hstandard
        have hbody : 20 ≤ f.body.length := hsegment.2
        obtain ⟨front, hsplit, hoffset⟩ := Frame.bytes_split (List.take_append_drop 20 f.body).symm
        have htcp : f.body = (TcpHeader.read f.bytes f.info.l4Offset).bytes ++ f.body.drop 20 := by
          have htake : ((f.bytes.drop f.info.l4Offset).take 20) = f.body.take 20 := by
            rw [hsplit, hoffset, List.drop_left, List.take_left']
            rw [List.length_take]
            omega
          rw [TcpHeader.bytes_read, htake, List.take_append_drop]
          rw [hsplit, hoffset, List.length_append, List.length_append, List.length_take]
          omega
        refine ⟨f, TcpHeader.read f.bytes f.info.l4Offset, f.body.drop 20, pulled,
          hbytes.symm.trans hframe, hlink, hsegment.1, htcp, ?_, ?_, ?_, ?_⟩
        · rw [hpulled, hbytes', hframe]
        · rw [hpsegs, hsegs', hsegs]
        · exact (hlinear (by simp)).trans (hlinear'.trans hplinear)
        · rw [hbytes', hframe] at hreplace
          exact hreplace

/-- Ingress keeps corruption detectable. Every single-segment packet that it changes, of
either version and with any header, options, payload, addresses and checksum, becomes a
datagram whose checksum is present, and is right exactly if that of the segment was. -/
theorem ingress_checksum_detects {managedPort : UInt16} {skb skb' : SkBuff} {l3Offset : Nat}
    (hl3 : l3Offset = 0 ∨ l3Offset = ethHeaderSize) (hsegs : skb.gsoSegs ≤ 1)
    (hrewrites : transformIngress managedPort skb l3Offset = (.next, skb'))
    (hchanged : skb'.bytes ≠ skb.bytes) :
    ∃ segment datagram : Frame, skb.bytes = segment.bytes ∧ skb'.bytes = datagram.bytes ∧
      segment.link.length = l3Offset ∧ datagram.link = segment.link ∧
      segment.ip.protocol = ipprotoTcp ∧ datagram.ip.protocol = ipprotoUdp ∧
      be16At datagram.body 6 ≠ 0 ∧
      (datagram.ip.TransportValid datagram.body ↔ segment.ip.TransportValid segment.body) := by
  obtain ⟨f, tcp, rest, pulled, hbytes, hlink, hproto, hbody, hpulled, hpsegs, hlinear,
    hreplace⟩ := transformIngress_changed hl3 hrewrites hchanged
  obtain ⟨hne, hiff⟩ := ingressCarrier_valid_iff (hpsegs.trans_le hsegs) hproto hbody
  have hlen : ((ingressCarrier pulled f.info tcp).bytes ++ rest).length = f.body.length := by
    rw [hbody, List.length_append, List.length_append, UdpCarrier.length_bytes,
      TcpHeader.length_bytes]
  obtain ⟨new, hnew, hnewBytes⟩ := replaceHeader_frame (p := ipprotoUdp) hpulled
    (hlink.symm ▸ hlinear) hbody hlen
  obtain rfl : new = skb' := (Prod.mk.inj (hnew.symm.trans hreplace)).2
  refine ⟨f, f.withBody ipprotoUdp _ hlen, hbytes, hnewBytes, hlink, rfl, hproto,
    f.ip.protocol_withProtocol ipprotoUdp, ?_, hiff⟩
  have hfield : be16At (f.withBody ipprotoUdp _ hlen).body 6 =
      (ingressCarrier pulled f.info tcp).checksum :=
    be16_put16 (ingressCarrier pulled f.info tcp).checksum
  rw [hfield]
  exact hne

/-- An acknowledgement for port 51820 with a wrong checksum, without a link-layer
header. -/
def ackSegment : SkBuff where
  bytes := [0x45, 0, 0, 40, 0, 1, 0x40, 0, 64, 6, 0, 0, 10, 0, 0, 1, 10, 0, 0, 2] ++
    [0x9c, 0x40, 0xca, 0x6c, 0, 0, 3, 0xe9, 0, 0, 7, 0xd1, 0x50, 0x10, 0xff, 0xff, 1, 2, 0, 0]
  linear := 40
  gsoSegs := 1
  linear_le := le_rfl

theorem ingress_checksum_detects_ack : ackSegment.gsoSegs ≤ 1 ∧
    ∃ (skb' : SkBuff) (segment datagram : Frame),
      transformIngress 51820 ackSegment 0 = (.next, skb') ∧ skb'.bytes ≠ ackSegment.bytes ∧
      ackSegment.bytes = segment.bytes ∧ skb'.bytes = datagram.bytes ∧
      be16At datagram.body 6 ≠ 0 ∧
      (datagram.ip.TransportValid datagram.body ↔ segment.ip.TransportValid segment.body) := by
  have hsegs : ackSegment.gsoSegs ≤ 1 := by decide
  have hnext : (transformIngress 51820 ackSegment 0).1 = .next := by decide +kernel
  have hchanged : (transformIngress 51820 ackSegment 0).2.bytes ≠ ackSegment.bytes := by
    decide +kernel
  have hrewrites : transformIngress 51820 ackSegment 0 =
      (.next, (transformIngress 51820 ackSegment 0).2) := Prod.ext hnext rfl
  obtain ⟨segment, datagram, hsegment, hdatagram, _, _, _, _, hpresent, hiff⟩ :=
    ingress_checksum_detects (.inl rfl) hsegs hrewrites hchanged
  exact ⟨hsegs, _, segment, datagram, hrewrites, hchanged, hsegment, hdatagram, hpresent, hiff⟩

end Ingress

end Nylon.Polyamide.Transformer
