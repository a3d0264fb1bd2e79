import Nylon.Polyamide.FakeTCP

/-!
The packet transformer of the fake-TCP transport (`polyamide/faketcp/transformer.c`).
On the way out a carrier datagram of the managed port becomes a TCP segment, on the
way in a segment for the managed port becomes a carrier datagram again. Both headers
have twenty bytes and are exchanged in place; the checksums are computed from the sum
in the carrier, or from the checksum of the segment.

Numbers in network order are kept as their values; the byte swaps of the program are
in the functions that read and write a header.
-/

namespace Nylon.Polyamide.Transformer

open Lib

inductive TcxAction where
  | next
  | drop
  deriving DecidableEq, Repr

def ethPIp : UInt16 := 0x0800
def ethPIpv6 : UInt16 := 0x86dd
def ipprotoTcp : UInt8 := 6
def ipprotoUdp : UInt8 := 17
def carrierMagic : UInt16 := 0x4e59
def tcpFlagFin : UInt8 := 0x01
def tcpFlagSyn : UInt8 := 0x02
def tcpFlagRst : UInt8 := 0x04
def tcpFlagAck : UInt8 := 0x10

def ethHeaderSize : Nat := 14
def ipv4HeaderSize : Nat := 20
def ipv6HeaderSize : Nat := 40
def udpCarrierSize : Nat := 20
def tcpHeaderSize : Nat := 20

/-- A packet buffer. Only its linear part, from `data` to `data_end`, can be accessed
directly. -/
structure SkBuff where
  bytes : Bytes
  linear : Nat
  gsoSegs : UInt32
  linear_le : linear ≤ bytes.length

namespace SkBuff

/-- `bpf_skb_pull_data`. -/
def pullData (skb : SkBuff) (len : Nat) : Option SkBuff :=
  if h : len ≤ skb.bytes.length then
    some {skb with linear := max skb.linear len, linear_le := max_le skb.linear_le h}
  else none

/-- Pulls data only if the linear part is too short. -/
def ensureLinear (skb : SkBuff) (len : Nat) : Option SkBuff :=
  if skb.linear < len then skb.pullData len else some skb

/-- `bpf_skb_store_bytes`. -/
def storeBytes (skb : SkBuff) (offset : Nat) (new : Bytes) : Option SkBuff :=
  if h : offset + new.length ≤ skb.bytes.length then
    some { skb with
      bytes := Slice.overwrite skb.bytes offset new
      linear_le := by rw [Slice.length_overwrite h]; exact skb.linear_le }
  else none

end SkBuff

def byteAt (bs : Bytes) (i : Nat) : UInt8 := bs.getD i 0

def be16At (bs : Bytes) (i : Nat) : UInt16 := be16 [byteAt bs i, byteAt bs (i + 1)]

def be32At (bs : Bytes) (i : Nat) : UInt32 :=
  be32 [byteAt bs i, byteAt bs (i + 1), byteAt bs (i + 2), byteAt bs (i + 3)]

structure Ipv4Header where
  versionIhl : UInt8
  tos : UInt8
  totalLength : UInt16
  id : UInt16
  fragmentOffset : UInt16
  ttl : UInt8
  protocol : UInt8
  checksum : UInt16
  source : UInt32
  destination : UInt32
  deriving DecidableEq, Repr

namespace Ipv4Header

def read (bs : Bytes) (i : Nat) : Ipv4Header :=
  ⟨byteAt bs i, byteAt bs (i + 1), be16At bs (i + 2), be16At bs (i + 4), be16At bs (i + 6),
    byteAt bs (i + 8), byteAt bs (i + 9), be16At bs (i + 10), be32At bs (i + 12),
    be32At bs (i + 16)⟩

def bytes (h : Ipv4Header) : Bytes :=
  [h.versionIhl, h.tos] ++ put16 h.totalLength ++ put16 h.id ++ put16 h.fragmentOffset ++
    [h.ttl, h.protocol] ++ put16 h.checksum ++ put32 h.source ++ put32 h.destination

end Ipv4Header

structure UdpCarrier where
  source : UInt16
  destination : UInt16
  length : UInt16
  checksum : UInt16
  magic : UInt16
  metaField : UInt16
  sequence : UInt32
  acknowledgement : UInt32
  deriving DecidableEq, Repr

namespace UdpCarrier

def read (bs : Bytes) (i : Nat) : UdpCarrier :=
  ⟨be16At bs i, be16At bs (i + 2), be16At bs (i + 4), be16At bs (i + 6), be16At bs (i + 8),
    be16At bs (i + 10), be32At bs (i + 12), be32At bs (i + 16)⟩

def bytes (c : UdpCarrier) : Bytes :=
  put16 c.source ++ put16 c.destination ++ put16 c.length ++ put16 c.checksum ++
    put16 c.magic ++ put16 c.metaField ++ put32 c.sequence ++ put32 c.acknowledgement

end UdpCarrier

structure TcpHeader where
  source : UInt16
  destination : UInt16
  sequence : UInt32
  acknowledgement : UInt32
  dataOffset : UInt8
  flags : UInt8
  window : UInt16
  checksum : UInt16
  urgent : UInt16
  deriving DecidableEq, Repr

namespace TcpHeader

def read (bs : Bytes) (i : Nat) : TcpHeader :=
  ⟨be16At bs i, be16At bs (i + 2), be32At bs (i + 4), be32At bs (i + 8), byteAt bs (i + 12),
    byteAt bs (i + 13), be16At bs (i + 14), be16At bs (i + 16), be16At bs (i + 18)⟩

def bytes (t : TcpHeader) : Bytes :=
  put16 t.source ++ put16 t.destination ++ put32 t.sequence ++ put32 t.acknowledgement ++
    [t.dataOffset, t.flags] ++ put16 t.window ++ put16 t.checksum ++ put16 t.urgent

end TcpHeader

inductive IpVersion where
  | v4
  | v6
  deriving DecidableEq, Repr

structure PacketInfo where
  l3Offset : Nat
  l4Offset : Nat
  l4Length : Nat
  version : IpVersion
  protocol : UInt8
  standard : Bool
  deriving DecidableEq, Repr

section Sums

def addBe16 (sum : UInt32) (value : UInt16) : UInt32 := sum + value.toUInt32

def addBe32 (sum : UInt32) (value : UInt32) : UInt32 :=
  sum + (value >>> 16) + (value &&& (0xffff : UInt32))

def subtractBe16 (sum : UInt32) (value : UInt16) : UInt32 :=
  sum + (~~~value.toUInt32 &&& (0xffff : UInt32))

def subtractBe32 (sum : UInt32) (value : UInt32) : UInt32 :=
  sum + (~~~(value >>> 16) &&& (0xffff : UInt32)) + (~~~value &&& (0xffff : UInt32))

/-- Two bytes of a header as one word, `((__u32)high << 8) + low`. -/
def bytePair (high low : UInt8) : UInt32 := high.toUInt32 <<< 8 + low.toUInt32

def finishChecksum (sum : UInt32) : UInt16 :=
  let sum := (sum &&& (0xffff : UInt32)) + (sum >>> 16)
  let sum := (sum &&& (0xffff : UInt32)) + (sum >>> 16)
  let checksum := (~~~sum).toUInt16
  if checksum = 0 then 0xffff else checksum

def ipv4Checksum (ip : Ipv4Header) : UInt16 :=
  let sum := bytePair ip.versionIhl ip.tos
  let sum := addBe16 sum ip.totalLength
  let sum := addBe16 sum ip.id
  let sum := addBe16 sum ip.fragmentOffset
  let sum := sum + bytePair ip.ttl ip.protocol
  let sum := addBe32 sum ip.source
  let sum := addBe32 sum ip.destination
  finishChecksum sum

def tcpHeaderSum (tcp : TcpHeader) (sum : UInt32) : UInt32 :=
  let sum := addBe16 sum tcp.source
  let sum := addBe16 sum tcp.destination
  let sum := addBe32 sum tcp.sequence
  let sum := addBe32 sum tcp.acknowledgement
  let sum := sum + bytePair tcp.dataOffset tcp.flags
  let sum := addBe16 sum tcp.window
  addBe16 sum tcp.urgent

def subtractTcpHeader (tcp : TcpHeader) (sum : UInt32) : UInt32 :=
  let sum := subtractBe16 sum tcp.source
  let sum := subtractBe16 sum tcp.destination
  let sum := subtractBe32 sum tcp.sequence
  let sum := subtractBe32 sum tcp.acknowledgement
  let sum := sum + (~~~(bytePair tcp.dataOffset tcp.flags) &&& (0xffff : UInt32))
  let sum := subtractBe16 sum tcp.window
  subtractBe16 sum tcp.urgent

def carrierHeaderSum (carrier : UdpCarrier) (sum : UInt32) : UInt32 :=
  let sum := addBe16 sum carrier.source
  let sum := addBe16 sum carrier.destination
  let sum := addBe16 sum carrier.length
  let sum := addBe16 sum carrier.magic
  let sum := addBe16 sum carrier.metaField
  let sum := addBe32 sum carrier.sequence
  addBe32 sum carrier.acknowledgement

/-- The two addresses of an IPv6 header, which start at bytes 8 and 24 of it. -/
def addIpv6Addresses (data : Bytes) (l3Offset : Nat) (sum : UInt32) : UInt32 :=
  [0, 2, 4, 6, 8, 10, 12, 14].foldl (fun sum i =>
    sum + bytePair (byteAt data (l3Offset + 8 + i)) (byteAt data (l3Offset + 8 + i + 1)) +
      bytePair (byteAt data (l3Offset + 24 + i)) (byteAt data (l3Offset + 24 + i + 1))) sum

def addAddresses (data : Bytes) (info : PacketInfo) (sum : UInt32) : UInt32 :=
  match info.version with
  | .v4 =>
    let ip := Ipv4Header.read data info.l3Offset
    addBe32 (addBe32 sum ip.source) ip.destination
  | .v6 => addIpv6Addresses data info.l3Offset sum

def tcpChecksum (data : Bytes) (info : PacketInfo) (tcp : TcpHeader) (payloadSum : UInt32)
    (optionWordOne optionWordTwo : UInt16) : UInt16 :=
  let sum := payloadSum + ipprotoTcp.toUInt32 + .ofNat info.l4Length
  let sum := addAddresses data info sum
  let sum := tcpHeaderSum tcp sum
  let sum := addBe16 sum optionWordOne
  let sum := addBe16 sum optionWordTwo
  finishChecksum sum

end Sums

/-- The version that the link layer announces, or the first byte where there is no
link-layer header. -/
def announcedVersion (data : Bytes) (l3Offset : Nat) : Option IpVersion :=
  if l3Offset = ethHeaderSize then
    if be16At data 12 = ethPIp then some .v4
    else if be16At data 12 = ethPIpv6 then some .v6
    else none
  else if byteAt data 0 >>> 4 = 4 then some .v4
  else if byteAt data 0 >>> 4 = 6 then some .v6
  else none

def parseIpv4 (skb : SkBuff) (l3Offset : Nat) : Option PacketInfo :=
  let ip := Ipv4Header.read skb.bytes l3Offset
  let ihl := (ip.versionIhl &&& 0xf).toNat * 4
  let totalLength := ip.totalLength.toNat
  if skb.linear < l3Offset + ipv4HeaderSize ∨ ip.versionIhl >>> 4 ≠ 4 then none
  else if ihl < ipv4HeaderSize ∨ totalLength < ihl ∨
      skb.bytes.length < l3Offset + totalLength then none
  else some {
    l3Offset := l3Offset
    l4Offset := l3Offset + ihl
    l4Length := totalLength - ihl
    version := .v4
    protocol := ip.protocol
    standard := ihl = ipv4HeaderSize ∧ ip.fragmentOffset &&& 0x3fff = 0 }

def parseIpv6 (skb : SkBuff) (l3Offset : Nat) : Option PacketInfo :=
  let payloadLength := (be16At skb.bytes (l3Offset + 4)).toNat
  if skb.linear < l3Offset + ipv6HeaderSize ∨ be32At skb.bytes l3Offset >>> 28 ≠ 6 then none
  else if skb.bytes.length < l3Offset + ipv6HeaderSize + payloadLength then none
  else some {
    l3Offset := l3Offset
    l4Offset := l3Offset + ipv6HeaderSize
    l4Length := payloadLength
    version := .v6
    protocol := byteAt skb.bytes (l3Offset + 6)
    standard := true }

/-- `parse_packet`, which may pull data also when it finds no packet. -/
def parsePacket (skb : SkBuff) (l3Offset : Nat) : SkBuff × Option PacketInfo :=
  let headerLength := l3Offset + ipv6HeaderSize
  match skb.ensureLinear headerLength with
  | none => (skb, none)
  | some skb =>
    if skb.linear < headerLength then (skb, none)
    else match announcedVersion skb.bytes l3Offset with
      | none => (skb, none)
      | some .v4 => (skb, parseIpv4 skb l3Offset)
      | some .v6 => (skb, parseIpv6 skb l3Offset)

/-- Changes the protocol of the network header. An IPv4 header is written back from the
copy that was taken before, with a new checksum. -/
def updateIpProtocol (skb : SkBuff) (info : PacketInfo) (protocol : UInt8)
    (ipv4 : Ipv4Header) : Option SkBuff :=
  match info.version with
  | .v4 =>
    let ipv4 := {ipv4 with protocol := protocol, checksum := 0}
    let ipv4 := {ipv4 with checksum := ipv4Checksum ipv4}
    skb.storeBytes info.l3Offset ipv4.bytes
  | .v6 => skb.storeBytes (info.l3Offset + 6) [protocol]

/-- Writes the new transport header and then the protocol. -/
def replaceHeader (skb : SkBuff) (info : PacketInfo) (header : Bytes) (protocol : UInt8) :
    TcxAction × SkBuff :=
  if info.version = .v4 ∧ skb.linear < info.l3Offset + ipv4HeaderSize then (.drop, skb)
  else
    let ipv4 := Ipv4Header.read skb.bytes info.l3Offset
    match skb.storeBytes info.l4Offset header with
    | none => (.drop, skb)
    | some skb =>
      match updateIpProtocol skb info protocol ipv4 with
      | none => (.drop, skb)
      | some skb => (.next, skb)

/-- The window-scale option that is part of every SYN. -/
def isOption (data : Bytes) (i : Nat) : Bool :=
  byteAt data i = 1 ∧ byteAt data (i + 1) = 3 ∧ byteAt data (i + 2) = 3 ∧ byteAt data (i + 3) = 14

section Egress

/-- A TCP header without its checksum, the sum of the payload, and the words of the
options. -/
structure Segment where
  tcp : TcpHeader
  payloadSum : UInt32
  optionOne : UInt16
  optionTwo : UInt16

/-- The header with its checksum. -/
def Segment.header (seg : Segment) (data : Bytes) (info : PacketInfo) : TcpHeader :=
  let checksum := tcpChecksum data info seg.tcp seg.payloadSum seg.optionOne seg.optionTwo
  {seg.tcp with checksum := checksum}

/-- The segment for a carrier, by the length of the datagram; nothing for a carrier
that is dropped. -/
def egressSegment (skb : SkBuff) (info : PacketInfo) (carrier : UdpCarrier) : Option Segment :=
  let tcp : TcpHeader := {
    source := carrier.source
    destination := carrier.destination
    sequence := carrier.sequence
    acknowledgement := carrier.acknowledgement
    dataOffset := 0x50
    flags := tcpFlagAck
    window := 0xffff
    checksum := 0
    urgent := 0 }
  let value := carrier.metaField
  if info.l4Length = udpCarrierSize + 4 then
    let option := info.l4Offset + udpCarrierSize
    if (value = tcpFlagSyn.toUInt16 ∨ value = (tcpFlagSyn ||| tcpFlagAck).toUInt16) ∧
        option + 4 ≤ skb.linear ∧ isOption skb.bytes option then
      some ⟨{tcp with dataOffset := 0x60, flags := value.toUInt8}, 0,
        be16At skb.bytes option, be16At skb.bytes (option + 2)⟩
    else some ⟨tcp, value.toUInt32, 0, 0⟩
  else if info.l4Length = udpCarrierSize then
    if value ≠ tcpFlagAck.toUInt16 then none else some ⟨tcp, 0, 0, 0⟩
  else some ⟨tcp, value.toUInt32, 0, 0⟩

/-- How much of the packet is accessed. -/
def egressPullLength (info : PacketInfo) : Nat :=
  info.l4Offset + tcpHeaderSize + if tcpHeaderSize + 4 ≤ info.l4Length then 4 else 0

/-- The part of `transform_egress` that has the transport header at hand. -/
def rewriteEgress (managedPort : UInt16) (skb : SkBuff) (info : PacketInfo) : TcxAction × SkBuff :=
  let carrier := UdpCarrier.read skb.bytes info.l4Offset
  if skb.linear < info.l4Offset + udpCarrierSize ∨ carrier.magic ≠ carrierMagic ∨
      carrier.checksum ≠ 0 then (.next, skb)
  else if carrier.source ≠ managedPort then (.next, skb)
  else if info.standard = false ∨ 1 < skb.gsoSegs ∨
      carrier.length.toNat ≠ info.l4Length then (.drop, skb)
  else match egressSegment skb info carrier with
    | none => (.drop, skb)
    | some seg => replaceHeader skb info (seg.header skb.bytes info).bytes ipprotoTcp

def transformEgress (managedPort : UInt16) (skb : SkBuff) (l3Offset : Nat) : TcxAction × SkBuff :=
  match parsePacket skb l3Offset with
  | (skb, none) => (.next, skb)
  | (skb, some info) =>
    if info.protocol ≠ ipprotoUdp ∨ info.l4Length < udpCarrierSize then (.next, skb)
    else if info.l3Offset + 60 + tcpHeaderSize + 4 < egressPullLength info then (.next, skb)
    else match skb.ensureLinear (egressPullLength info) with
      | none => (.next, skb)
      | some skb => rewriteEgress managedPort skb info

end Egress

section Ingress

/-- The options of a SYN: the window scale alone, or behind a maximum segment size. -/
def isSynOptions (skb : SkBuff) (info : PacketInfo) (headerLength : Nat) : Bool :=
  let option := info.l4Offset + tcpHeaderSize
  let canonical := headerLength = tcpHeaderSize + 4 ∧ option + 4 ≤ skb.linear ∧
    isOption skb.bytes option
  let withMss := headerLength = tcpHeaderSize + 8 ∧ option + 8 ≤ skb.linear ∧
    byteAt skb.bytes option = 2 ∧ byteAt skb.bytes (option + 1) = 4 ∧
    isOption skb.bytes (option + 4)
  info.l4Length = headerLength ∧ (canonical ∨ withMss)

/-- Which segments are translated: opening ones with their options and no payload, and
acknowledgements, the only ones that may have a payload, or the end of a flow. -/
def ingressAccepts (skb : SkBuff) (info : PacketInfo) (tcp : TcpHeader)
    (headerLength : Nat) : Bool :=
  if tcp.flags = tcpFlagSyn ∨ tcp.flags = tcpFlagSyn ||| tcpFlagAck then
    isSynOptions skb info headerLength
  else if headerLength ≠ tcpHeaderSize then false
  else if info.l4Length = headerLength then
    tcp.flags = tcpFlagAck ∨ tcp.flags = tcpFlagFin ||| tcpFlagAck ∨
      tcp.flags = tcpFlagRst ∨ tcp.flags = tcpFlagRst ||| tcpFlagAck
  else tcp.flags = tcpFlagAck

def ingressCarrier (skb : SkBuff) (info : PacketInfo) (tcp : TcpHeader) : UdpCarrier :=
  let carrier : UdpCarrier := {
    source := tcp.source
    destination := tcp.destination
    length := .ofNat info.l4Length
    checksum := 0
    magic := carrierMagic
    metaField := tcp.flags.toUInt16
    sequence := tcp.sequence
    acknowledgement := tcp.acknowledgement }
  if skb.gsoSegs ≤ 1 then
    let sum := ~~~tcp.checksum.toUInt32 &&& (0xffff : UInt32)
    let sum := subtractTcpHeader tcp sum
    let sum := sum + (~~~ipprotoTcp.toUInt32 &&& (0xffff : UInt32))
    let sum := carrierHeaderSum carrier sum
    let sum := sum + ipprotoUdp.toUInt32
    {carrier with checksum := finishChecksum sum}
  else carrier

/-- The part of `transform_ingress` that has the transport header at hand. -/
def rewriteIngress (managedPort : UInt16) (skb : SkBuff) (info : PacketInfo) : TcxAction × SkBuff :=
  let tcp := TcpHeader.read skb.bytes info.l4Offset
  let headerLength := (tcp.dataOffset >>> 4).toNat * 4
  if skb.linear < info.l4Offset + tcpHeaderSize ∨ tcp.destination ≠ managedPort then
    (.next, skb)
  else if info.standard = false then (.drop, skb)
  else if tcp.dataOffset &&& 0xf ≠ 0 ∨ headerLength < tcpHeaderSize ∨ 60 < headerLength ∨
      info.l4Length < headerLength then (.drop, skb)
  else match skb.ensureLinear (info.l4Offset + headerLength) with
    | none => (.drop, skb)
    | some skb =>
      if skb.linear < info.l4Offset + headerLength then (.drop, skb)
      else if ingressAccepts skb info tcp headerLength = false then (.drop, skb)
      else replaceHeader skb info (ingressCarrier skb info tcp).bytes ipprotoUdp

/-- The checksum state that `bpf_csum_level` resets at the end is no part of the
packet. -/
def transformIngress (managedPort : UInt16) (skb : SkBuff) (l3Offset : Nat) : TcxAction × SkBuff :=
  match parsePacket skb l3Offset with
  | (skb, none) => (.next, skb)
  | (skb, some info) =>
    if info.protocol ≠ ipprotoTcp ∨ info.l4Length < tcpHeaderSize then (.next, skb)
    else match skb.ensureLinear (info.l4Offset + tcpHeaderSize) with
      | none => (.next, skb)
      | some skb => rewriteIngress managedPort skb info

end Ingress

end Nylon.Polyamide.Transformer
