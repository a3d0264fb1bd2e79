import Nylon.Polyamide.TransformerSums

/-!
Frames as the transformer finds them: a link-layer header or none, an IPv4 header
without options or fragmentation or an IPv6 header without extension headers, and the
transport part of the packet. Parsing such a frame gives its layout, and replacing the
transport header gives a frame of the other protocol.
-/

namespace Nylon.Polyamide.Transformer

open Lib OnesComplement

section Access

theorem byteAt_append (front back : Bytes) (i : Nat) :
    byteAt (front ++ back) (front.length + i) = byteAt back i := by
  simp [byteAt, List.getElem?_append_right]

theorem be16At_append (front back : Bytes) (i : Nat) :
    be16At (front ++ back) (front.length + i) = be16At back i := by
  rw [be16At, be16At, Nat.add_assoc, byteAt_append, byteAt_append]

theorem be32At_append (front back : Bytes) (i : Nat) :
    be32At (front ++ back) (front.length + i) = be32At back i := by
  rw [be32At, be32At, Nat.add_assoc, Nat.add_assoc, Nat.add_assoc, byteAt_append,
    byteAt_append, byteAt_append, byteAt_append]

theorem byteAt_length (front back : Bytes) :
    byteAt (front ++ back) front.length = byteAt back 0 := byteAt_append front back 0

theorem be16At_length (front back : Bytes) :
    be16At (front ++ back) front.length = be16At back 0 := be16At_append front back 0

theorem be32At_length (front back : Bytes) :
    be32At (front ++ back) front.length = be32At back 0 := be32At_append front back 0

theorem be32_put32 (n : UInt32) : be32 (put32 n) = n := by
  have h := n.toNat_lt
  apply UInt32.toNat_inj.mp
  have hhigh : (n >>> 16).toUInt16.toNat = n.toNat / 65536 := by
    rw [UInt32.toNat_toUInt16, toNat_high]
    omega
  have hlow : n.toUInt16.toNat = n.toNat % 65536 := UInt32.toNat_toUInt16 n
  simp only [be32, put32, put16, beNat, List.cons_append, List.nil_append, List.foldl_cons,
    List.foldl_nil, UInt32.toNat_ofNat', UInt8.toNat_ofNat', hhigh, hlow]
  omega

@[simp] theorem length_put16 (n : UInt16) : (put16 n).length = 2 := rfl

@[simp] theorem length_put32 (n : UInt32) : (put32 n).length = 4 := rfl

@[simp] theorem Ipv4Header.length_bytes (h : Ipv4Header) : h.bytes.length = 20 := rfl

@[simp] theorem UdpCarrier.length_bytes (c : UdpCarrier) : c.bytes.length = 20 := rfl

@[simp] theorem TcpHeader.length_bytes (t : TcpHeader) : t.bytes.length = 20 := rfl

theorem Ipv4Header.read_append (front : Bytes) (h : Ipv4Header) (back : Bytes) :
    Ipv4Header.read (front ++ (h.bytes ++ back)) front.length = h := by
  have hread : Ipv4Header.read (front ++ (h.bytes ++ back)) front.length =
      Ipv4Header.read (h.bytes ++ back) 0 := by
    simp only [Ipv4Header.read, be16At_append, be32At_append, byteAt_append, byteAt_length,
      Nat.zero_add]
  rw [hread]
  show Ipv4Header.mk _ _ (be16 (put16 h.totalLength)) (be16 (put16 h.id))
    (be16 (put16 h.fragmentOffset)) _ _ (be16 (put16 h.checksum)) (be32 (put32 h.source))
    (be32 (put32 h.destination)) = h
  simp only [be16_put16, be32_put32]
  rfl

theorem UdpCarrier.read_append (front : Bytes) (c : UdpCarrier) (back : Bytes) :
    UdpCarrier.read (front ++ (c.bytes ++ back)) front.length = c := by
  have hread : UdpCarrier.read (front ++ (c.bytes ++ back)) front.length =
      UdpCarrier.read (c.bytes ++ back) 0 := by
    simp only [UdpCarrier.read, be16At_append, be32At_append, be16At_length, Nat.zero_add]
  rw [hread]
  show UdpCarrier.mk (be16 (put16 c.source)) (be16 (put16 c.destination))
    (be16 (put16 c.length)) (be16 (put16 c.checksum)) (be16 (put16 c.magic))
    (be16 (put16 c.metaField)) (be32 (put32 c.sequence)) (be32 (put32 c.acknowledgement)) = c
  simp only [be16_put16, be32_put32]

theorem TcpHeader.read_append (front : Bytes) (t : TcpHeader) (back : Bytes) :
    TcpHeader.read (front ++ (t.bytes ++ back)) front.length = t := by
  have hread : TcpHeader.read (front ++ (t.bytes ++ back)) front.length =
      TcpHeader.read (t.bytes ++ back) 0 := by
    simp only [TcpHeader.read, be16At_append, be32At_append, byteAt_append, be16At_length,
      Nat.zero_add]
  rw [hread]
  show TcpHeader.mk (be16 (put16 t.source)) (be16 (put16 t.destination))
    (be32 (put32 t.sequence)) (be32 (put32 t.acknowledgement)) _ _ (be16 (put16 t.window))
    (be16 (put16 t.checksum)) (be16 (put16 t.urgent)) = t
  simp only [be16_put16, be32_put32]
  rfl

/-- A write that replaces a part of the buffer by one of the same length. -/
theorem SkBuff.storeBytes_eq {skb : SkBuff} {front old back : Bytes} (new : Bytes)
    (hbytes : skb.bytes = front ++ (old ++ back)) (hlen : new.length = old.length) :
    ∃ skb', skb.storeBytes front.length new = some skb' ∧ skb'.bytes = front ++ (new ++ back) := by
  have hroom : front.length + new.length ≤ skb.bytes.length := by
    rw [hbytes, List.length_append, List.length_append]
    omega
  refine ⟨_, dif_pos hroom, ?_⟩
  show Slice.overwrite skb.bytes front.length new = _
  rw [hbytes, Slice.overwrite, List.take_left, List.append_assoc, hlen, List.drop_length_add_append, List.drop_left]

theorem SkBuff.ensureLinear_eq {skb : SkBuff} {len : Nat} (h : len ≤ skb.bytes.length) :
    ∃ skb', skb.ensureLinear len = some skb' ∧ skb'.bytes = skb.bytes ∧
      skb'.gsoSegs = skb.gsoSegs ∧ len ≤ skb'.linear ∧ skb.linear ≤ skb'.linear := by
  unfold SkBuff.ensureLinear
  split
  · exact ⟨_, dif_pos h, rfl, rfl, le_max_right _ _, le_max_left _ _⟩
  · next hlinear => exact ⟨skb, rfl, rfl, rfl, Nat.le_of_not_lt hlinear, le_rfl⟩

theorem byteAt_append_left {front : Bytes} {i : Nat} (h : i < front.length) (back : Bytes) :
    byteAt (front ++ back) i = byteAt front i := by
  simp [byteAt, List.getElem?_append_left h]

end Access

structure Ipv6Header where
  versionFlow : UInt32
  payloadLength : UInt16
  nextHeader : UInt8
  hopLimit : UInt8
  source : Bytes
  destination : Bytes
  source_length : source.length = 16
  destination_length : destination.length = 16

def Ipv6Header.bytes (h : Ipv6Header) : Bytes :=
  put32 h.versionFlow ++ (put16 h.payloadLength ++ ([h.nextHeader, h.hopLimit] ++
    (h.source ++ h.destination)))

@[simp] theorem Ipv6Header.length_bytes (h : Ipv6Header) : h.bytes.length = 40 := by
  simp [Ipv6Header.bytes, h.source_length, h.destination_length]

inductive IpHeader where
  | ipv4 (h : Ipv4Header)
  | ipv6 (h : Ipv6Header)

namespace IpHeader

def bytes : IpHeader → Bytes
  | .ipv4 h => h.bytes
  | .ipv6 h => h.bytes

def version : IpHeader → IpVersion
  | .ipv4 _ => .v4
  | .ipv6 _ => .v6

def protocol : IpHeader → UInt8
  | .ipv4 h => h.protocol
  | .ipv6 h => h.nextHeader

def etherType : IpHeader → UInt16
  | .ipv4 _ => ethPIp
  | .ipv6 _ => ethPIpv6

/-- The header is of a packet with this much behind it, which is no fragment; an IPv4
header has no options. -/
def Plain (length : Nat) : IpHeader → Prop
  | .ipv4 h => h.versionIhl = 0x45 ∧ h.totalLength.toNat = ipv4HeaderSize + length ∧
      h.fragmentOffset &&& 0x3fff = 0
  | .ipv6 h => h.versionFlow >>> 28 = 6 ∧ h.payloadLength.toNat = length

instance (length : Nat) : (ip : IpHeader) → Decidable (ip.Plain length)
  | .ipv4 _ => inferInstanceAs (Decidable (_ ∧ _))
  | .ipv6 _ => inferInstanceAs (Decidable (_ ∧ _))

/-- The IPv4 header checksum is right. IPv6 has none. -/
def ChecksumValid : IpHeader → Prop
  | .ipv4 h => Valid h.bytes
  | .ipv6 _ => True

/-- The pseudo-header that the checksum of a transport protocol covers. -/
def pseudoHeader (ip : IpHeader) (length : Nat) : Bytes :=
  match ip with
  | .ipv4 h => put32 h.source ++ (put32 h.destination ++ ([0, h.protocol] ++
      put16 (.ofNat length)))
  | .ipv6 h => h.source ++ (h.destination ++ (put32 (.ofNat length) ++
      [0, 0, 0, h.nextHeader]))

def TransportValid (ip : IpHeader) (body : Bytes) : Prop :=
  Valid (ip.pseudoHeader body.length ++ body)

/-- The header as the transformer leaves it. -/
def withProtocol (ip : IpHeader) (protocol : UInt8) : IpHeader :=
  match ip with
  | .ipv4 h =>
    let h := {h with protocol := protocol, checksum := 0}
    .ipv4 {h with checksum := ipv4Checksum h}
  | .ipv6 h => .ipv6 {h with nextHeader := protocol}

section Lemmas

variable (ip : IpHeader) (p : UInt8)

@[simp] theorem length_bytes_withProtocol : (ip.withProtocol p).bytes.length = ip.bytes.length := by
  cases ip <;> simp [withProtocol, bytes]

@[simp] theorem etherType_withProtocol : (ip.withProtocol p).etherType = ip.etherType := by
  cases ip <;> rfl

@[simp] theorem version_withProtocol : (ip.withProtocol p).version = ip.version := by
  cases ip <;> rfl

@[simp] theorem protocol_withProtocol : (ip.withProtocol p).protocol = p := by
  cases ip <;> rfl

theorem plain_withProtocol {length : Nat} (h : ip.Plain length) :
    (ip.withProtocol p).Plain length := by
  cases ip <;> exact h

theorem checksumValid_withProtocol : (ip.withProtocol p).ChecksumValid := by
  cases ip with
  | ipv4 h => exact ipv4Checksum_valid _
  | ipv6 h => trivial

theorem length_le_of_plain {length : Nat} (h : ip.Plain length) : length ≤ 65535 := by
  cases ip with
  | ipv4 h' =>
    have hlt := h'.totalLength.toNat_lt
    have hlen := h.2.1
    omega
  | ipv6 h' =>
    have hlt := h'.payloadLength.toNat_lt
    have hlen := h.2
    omega

end Lemmas

end IpHeader

/-- A frame with one packet: what precedes the packet is nothing or an Ethernet header,
and anything may follow it. -/
structure Frame where
  link : Bytes
  ip : IpHeader
  body : Bytes
  trailer : Bytes
  linked : link = [] ∨ link.length = ethHeaderSize ∧ be16At link 12 = ip.etherType
  plain : ip.Plain body.length

namespace Frame

def bytes (f : Frame) : Bytes := f.link ++ (f.ip.bytes ++ (f.body ++ f.trailer))

def info (f : Frame) : PacketInfo where
  l3Offset := f.link.length
  l4Offset := f.link.length + f.ip.bytes.length
  l4Length := f.body.length
  version := f.ip.version
  protocol := f.ip.protocol
  standard := true

/-- The frame with another transport part of the same length. -/
def withBody (f : Frame) (p : UInt8) (body : Bytes) (h : body.length = f.body.length) : Frame where
  link := f.link
  ip := f.ip.withProtocol p
  body := body
  trailer := f.trailer
  linked := by simpa using f.linked
  plain := h ▸ f.ip.plain_withProtocol p f.plain

end Frame

section Parsing

variable {skb : SkBuff} {f : Frame}

theorem version_byte {flow : UInt32} (h : flow >>> 28 = 6) :
    UInt8.ofNat ((flow >>> 16).toUInt16.toNat / 256) >>> 4 = 6 := by
  have hlt := flow.toNat_lt
  have hversion : flow.toNat / 2 ^ 28 = 6 := by
    have hnat := congrArg UInt32.toNat h
    rw [UInt32.toNat_shiftRight] at hnat
    exact (Nat.shiftRight_eq_div_pow flow.toNat 28).symm.trans hnat
  have hfour : (4 : UInt8).toNat % 8 = 4 := rfl
  have hsix : (6 : UInt8).toNat = 6 := rfl
  apply UInt8.toNat_inj.mp
  rw [UInt8.toNat_shiftRight, hfour, Nat.shiftRight_eq_div_pow, UInt8.toNat_ofNat',
    UInt32.toNat_toUInt16, toNat_high, hsix]
  omega

theorem announcedVersion_frame (f : Frame) :
    announcedVersion f.bytes f.link.length = some f.ip.version := by
  obtain ⟨link, ip, body, trailer, hlink, hplain⟩ := f
  rcases hlink with rfl | ⟨hlen, htype⟩
  · show announcedVersion (ip.bytes ++ (body ++ trailer)) 0 = some ip.version
    rw [announcedVersion, if_neg (by decide)]
    cases ip with
    | ipv4 h =>
      have hfirst : byteAt ((IpHeader.ipv4 h).bytes ++ (body ++ trailer)) 0 = 0x45 :=
        hplain.1
      rw [hfirst, if_pos (by decide)]
      rfl
    | ipv6 h =>
      have hfirst : byteAt ((IpHeader.ipv6 h).bytes ++ (body ++ trailer)) 0 >>> 4 = 6 :=
        version_byte hplain.1
      rw [hfirst, if_neg (by decide), if_pos rfl]
      rfl
  · have hbytes : be16At (link ++ (ip.bytes ++ (body ++ trailer))) 12 = ip.etherType := by
      rw [← htype, be16At, be16At, byteAt_append_left (by rw [hlen]; decide),
        byteAt_append_left (by rw [hlen]; decide)]
    show announcedVersion (link ++ (ip.bytes ++ (body ++ trailer))) link.length = some ip.version
    rw [announcedVersion, if_pos hlen, hbytes]
    cases ip <;> rfl

theorem Frame.length_bytes (f : Frame) : f.bytes.length =
    f.link.length + f.ip.bytes.length + f.body.length + f.trailer.length := by
  simp only [Frame.bytes, List.length_append]
  omega

theorem parseIpv4_frame {h : Ipv4Header} (hip : f.ip = .ipv4 h)
    (hbytes : skb.bytes = f.bytes) (hlinear : f.link.length + ipv4HeaderSize ≤ skb.linear) :
    parseIpv4 skb f.link.length = some f.info := by
  have hplain := f.plain
  have hlen := f.length_bytes
  have hread : Ipv4Header.read skb.bytes f.link.length = h := by
    rw [hbytes, Frame.bytes, hip]
    exact Ipv4Header.read_append _ _ _
  rw [hip] at hplain hlen
  obtain ⟨hversion, htotal, hfragment⟩ := hplain
  have hihl : ((0x45 : UInt8) &&& 0xf).toNat * 4 = ipv4HeaderSize := by decide
  have hsize : (IpHeader.ipv4 h).bytes.length = ipv4HeaderSize := h.length_bytes
  unfold parseIpv4
  dsimp only
  rw [hread, hversion, hihl, htotal, if_neg, if_neg]
  · simp only [Frame.info, hip, IpHeader.version, IpHeader.protocol, hsize, hfragment,
      Nat.add_sub_cancel_left, and_self, decide_true]
  · rw [hbytes, hlen, hsize]
    omega
  · rintro (hshort | hwrong)
    · omega
    · exact hwrong (by decide)

theorem parseIpv6_frame {h : Ipv6Header} (hip : f.ip = .ipv6 h)
    (hbytes : skb.bytes = f.bytes) (hlinear : f.link.length + ipv6HeaderSize ≤ skb.linear) :
    parseIpv6 skb f.link.length = some f.info := by
  have hplain := f.plain
  have hlen := f.length_bytes
  have hframe : skb.bytes = f.link ++ (h.bytes ++ (f.body ++ f.trailer)) := by
    rw [hbytes, Frame.bytes, hip]
    rfl
  have hflow : be32At skb.bytes f.link.length = h.versionFlow := by
    rw [hframe, be32At_length]
    exact be32_put32 h.versionFlow
  have hpayload : be16At skb.bytes (f.link.length + 4) = h.payloadLength := by
    rw [hframe, be16At_append]
    exact be16_put16 h.payloadLength
  have hnext : byteAt skb.bytes (f.link.length + 6) = h.nextHeader := by
    rw [hframe, byteAt_append]
    rfl
  have hsize : (IpHeader.ipv6 h).bytes.length = ipv6HeaderSize := h.length_bytes
  rw [hip] at hplain hlen
  obtain ⟨hversion, htotal⟩ := hplain
  unfold parseIpv6
  dsimp only
  rw [hflow, hpayload, hnext, htotal, if_neg, if_neg]
  · simp only [Frame.info, hip, IpHeader.version, IpHeader.protocol, hsize]
  · rw [hbytes, hlen, hsize]
    omega
  · rintro (hshort | hwrong)
    · omega
    · exact hwrong hversion

/-- A frame is parsed to its layout. -/
theorem parsePacket_frame (hbytes : skb.bytes = f.bytes) (hbody : 20 ≤ f.body.length) :
    ∃ skb', parsePacket skb f.link.length = (skb', some f.info) ∧ skb'.bytes = f.bytes ∧
      skb'.gsoSegs = skb.gsoSegs ∧ f.link.length + ipv6HeaderSize ≤ skb'.linear := by
  have hroom : f.link.length + ipv6HeaderSize ≤ skb.bytes.length := by
    have hsize : 20 ≤ f.ip.bytes.length := by
      cases f.ip <;> simp [IpHeader.bytes]
    rw [hbytes, f.length_bytes, ipv6HeaderSize]
    omega
  obtain ⟨skb', hensure, hsame, hsegs, hlinear, _⟩ := skb.ensureLinear_eq hroom
  rw [hbytes] at hsame
  refine ⟨skb', ?_, hsame, hsegs, hlinear⟩
  rw [parsePacket, hensure]
  dsimp only
  rw [if_neg (Nat.not_lt.mpr hlinear), hsame, announcedVersion_frame]
  cases hip : f.ip with
  | ipv4 h =>
    have hshort : f.link.length + ipv4HeaderSize ≤ skb'.linear := by
      rw [ipv6HeaderSize] at hlinear
      rw [ipv4HeaderSize]
      omega
    exact congrArg _ (parseIpv4_frame hip hsame hshort)
  | ipv6 h => exact congrArg _ (parseIpv6_frame hip hsame hlinear)

end Parsing

section Replacing

theorem updateIpProtocol_frame {skb : SkBuff} {f : Frame} {body : Bytes} (p : UInt8)
    (ipv4 : Ipv4Header) (hbytes : skb.bytes = f.link ++ (f.ip.bytes ++ body))
    (hcopy : ∀ h, f.ip = .ipv4 h → ipv4 = h) :
    ∃ skb', updateIpProtocol skb f.info p ipv4 = some skb' ∧
      skb'.bytes = f.link ++ ((f.ip.withProtocol p).bytes ++ body) := by
  rw [updateIpProtocol, Frame.info]
  cases hip : f.ip with
  | ipv4 h =>
    rw [hip] at hbytes
    rw [hcopy h hip]
    exact SkBuff.storeBytes_eq _ hbytes rfl
  | ipv6 h =>
    have hsplit : ∀ next : UInt8, f.link ++ ((IpHeader.ipv6 {h with nextHeader := next}).bytes ++
        body) = (f.link ++ (put32 h.versionFlow ++ put16 h.payloadLength)) ++
          ([next] ++ ([h.hopLimit] ++ (h.source ++ h.destination) ++ body)) := by
      intro next
      simp [IpHeader.bytes, Ipv6Header.bytes]
    rw [hip, hsplit h.nextHeader] at hbytes
    obtain ⟨skb', hstore, hnew⟩ := SkBuff.storeBytes_eq [p] hbytes rfl
    refine ⟨skb', ?_, hnew.trans (hsplit p).symm⟩
    rw [List.length_append] at hstore
    exact hstore

theorem replaceHeader_frame {skb : SkBuff} {f : Frame} {old new rest : Bytes} {p : UInt8}
    (hbytes : skb.bytes = f.bytes) (hlinear : f.link.length + ipv6HeaderSize ≤ skb.linear)
    (hbody : f.body = old ++ rest) (hlen : (new ++ rest).length = f.body.length) :
    ∃ skb', replaceHeader skb f.info new p = (.next, skb') ∧
      skb'.bytes = (f.withBody p (new ++ rest) hlen).bytes := by
  have hold : new.length = old.length := by
    rw [hbody, List.length_append, List.length_append] at hlen
    omega
  have hframe : skb.bytes = (f.link ++ f.ip.bytes) ++ (old ++ (rest ++ f.trailer)) := by
    rw [hbytes, Frame.bytes, hbody]
    simp
  obtain ⟨skb', hstore, hmid⟩ := SkBuff.storeBytes_eq new hframe hold
  rw [List.append_assoc] at hmid
  obtain ⟨skb'', hupdate, hnew⟩ := updateIpProtocol_frame p
    (Ipv4Header.read skb.bytes f.info.l3Offset) hmid (fun h hip => by
      rw [hbytes, Frame.bytes, hip]
      exact Ipv4Header.read_append _ _ _)
  refine ⟨skb'', ?_, ?_⟩
  · rw [List.length_append] at hstore
    have hstore' : skb.storeBytes f.info.l4Offset new = some skb' := hstore
    rw [replaceHeader, if_neg]
    · rw [hstore']
      dsimp only
      rw [hupdate]
    · rintro ⟨-, hshort⟩
      rw [ipv4HeaderSize] at hshort
      rw [ipv6HeaderSize] at hlinear
      have hl3 : f.info.l3Offset = f.link.length := rfl
      omega
  · rw [hnew]
    simp [Frame.withBody, Frame.bytes]

end Replacing

end Nylon.Polyamide.Transformer
