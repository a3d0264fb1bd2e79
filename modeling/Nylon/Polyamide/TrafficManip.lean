import Nylon.Lib.Go
import Nylon.State.Netip

/-!
Packet access (`polyamide/device/traffic_manip.go`). A packet is the part of a
message buffer that follows the transport header; the rest of the buffer is the
capacity of the slice. Packets of nylon itself use other "IP versions" than 4
and 6 and have a header of three bytes. Every accessor may panic.
-/

namespace Nylon.Polyamide

open Lib Netip

abbrev Packet := Slice UInt8

def polyHeaderSize : Nat := 3
def polyOffsetPayloadLength : Nat := 1
def mplsLseLen : Nat := 4
def messageTransportHeaderSize : Nat := 16
def maxMessageSize : Nat := 65535

def ipv4HeaderLen : Nat := 20
def ipv4OffsetTotalLength : Nat := 2
def ipv4OffsetSrc : Nat := 12
def ipv4OffsetDst : Nat := 16

def ipv6HeaderLen : Nat := 40
def ipv6OffsetPayloadLength : Nat := 4
def ipv6OffsetSrc : Nat := 8
def ipv6OffsetDst : Nat := 24

/-- The number that bytes in network order stand for. -/
def beNat (bytes : List UInt8) : Nat :=
  bytes.foldl (fun acc b => acc * 256 + b.toNat) 0

def be16 (bytes : List UInt8) : UInt16 := .ofNat (beNat bytes)

def put16 (n : UInt16) : List UInt8 := [.ofNat (n.toNat / 256), .ofNat n.toNat]

def be32 (bytes : List UInt8) : UInt32 := .ofNat (beNat bytes)

def put32 (n : UInt32) : List UInt8 := put16 (n >>> 16).toUInt16 ++ put16 n.toUInt16

def addrFrom4 (bytes : List UInt8) : Addr := .v4 (.ofNat 32 (beNat bytes))

def addrFrom16 (bytes : List UInt8) : Addr := .v6 (.ofNat 128 (beNat bytes))

namespace Packet

def getIPVersion (p : Packet) : Go Nat := do
  let b ← p.index 0
  return (b >>> 4).toNat

def getSrcBytes (p : Packet) : Go (List UInt8) := do
  let ver ← getIPVersion p
  if ver = 4 then p.sub ipv4OffsetSrc (ipv4OffsetSrc + 4)
  else if ver = 6 then p.sub ipv6OffsetSrc (ipv6OffsetSrc + 16)
  else return []

def getDstBytes (p : Packet) : Go (List UInt8) := do
  let ver ← getIPVersion p
  if ver = 4 then p.sub ipv4OffsetDst (ipv4OffsetDst + 4)
  else if ver = 6 then p.sub ipv6OffsetDst (ipv6OffsetDst + 16)
  else return []

/-- The address in the bytes, `0.0.0.0` if the packet is not IP. -/
def addrOf (ver : Nat) (bytes : List UInt8) : Addr :=
  if ver = 4 then addrFrom4 bytes
  else if ver = 6 then addrFrom16 bytes
  else Addr.ipv4Unspecified

def getSrc (p : Packet) : Go Addr := do
  let ver ← getIPVersion p
  let b ← getSrcBytes p
  return addrOf ver b

def getDst (p : Packet) : Go Addr := do
  let ver ← getIPVersion p
  let b ← getDstBytes p
  return addrOf ver b

def setIPVersion (p : Packet) (ver : Nat) : Go Packet :=
  p.setIndex 0 (.ofNat (ver * 16))

/-- The length of the packet, including the header, modulo `2 ^ 16`. -/
def getLength (p : Packet) : Go UInt16 := do
  let ver ← getIPVersion p
  if ver = 4 then
    let field ← p.sub ipv4OffsetTotalLength (ipv4OffsetTotalLength + 2)
    return be16 field
  else if ver = 6 then
    let field ← p.sub ipv6OffsetPayloadLength (ipv6OffsetPayloadLength + 2)
    return be16 field + .ofNat ipv6HeaderLen
  else
    let field ← p.sub polyOffsetPayloadLength (polyOffsetPayloadLength + 2)
    return be16 field + .ofNat polyHeaderSize

def setLength (p : Packet) (len : UInt16) : Go Packet := do
  let ver ← getIPVersion p
  if ver = 4 then p.patch ipv4OffsetTotalLength (put16 len)
  else if ver = 6 then
    p.patch ipv6OffsetPayloadLength (put16 (len - .ofNat ipv6HeaderLen))
  else p.patch polyOffsetPayloadLength (put16 (len - .ofNat polyHeaderSize))

def payload (p : Packet) : Go (List UInt8) := do
  let ver ← getIPVersion p
  if ver = 4 then p.after ipv4HeaderLen
  else if ver = 6 then p.after ipv6HeaderLen
  else p.after polyHeaderSize

def hasPacketHeader (p : Packet) : Go Bool := do
  if p.len < polyHeaderSize then return false
  else
    let ver ← getIPVersion p
    if ver = 4 then return ipv4HeaderLen ≤ p.len
    else if ver = 6 then return ipv6HeaderLen ≤ p.len
    else return true

/-- Cuts the packet to the length in its header. -/
def parseLength (p : Packet) : Go (Bool × Packet) := do
  if !(← hasPacketHeader p) then return (false, p)
  else
    let l ← getLength p
    if l.toNat > p.len then return (false, p)
    else
      let p ← p.upTo l.toNat
      return (true, p)

/-- An empty packet stands for the whole buffer. -/
def parsePacket (p : Packet) : Go (Bool × Packet) :=
  parseLength (if p.len = 0 then ⟨p.all, []⟩ else p)

def validate (p : Packet) : Go Bool := do
  if p.len = 0 then return false
  else if !(← hasPacketHeader p) then return false
  else
    let ver ← getIPVersion p
    let l ← getLength p
    if ver = 4 then return ipv4HeaderLen ≤ l.toNat
    else if ver = 6 then return ipv6HeaderLen ≤ l.toNat
    else return polyHeaderSize ≤ l.toNat

/-- Where the bytes that `TTLBytes` returns start. -/
def ttlOffset (p : Packet) : Go Nat := do
  let ver ← getIPVersion p
  if ver = 4 then return 8
  else if ver = 6 then return 7
  else throw (.call "invalid IP version")

def getTTL (p : Packet) : Go UInt8 := do
  let i ← ttlOffset p
  let b ← p.sub i (i + 1)
  (⟨b, []⟩ : Packet).index 0

/-- The checksum of an IPv4 header is adapted as in RFC 1141. -/
def decrementTTL (p : Packet) : Go Packet := do
  let i ← ttlOffset p
  let ttl ← getTTL p
  let p ← p.patch i [ttl - 1]
  if (← getIPVersion p) = 4 then
    let field ← p.sub 10 12
    let csum : UInt32 := (be16 field).toUInt32 + 0x100
    let csum := csum + (csum >>> 16)
    p.patch 10 (put16 csum.toUInt16)
  else return p

end Packet

/-- Puts a header of nylon and a subtype in front of the MPLS packet that was read
from the TUN into `buffer[offset : offset + size]`, and returns the new size. A
packet that is too short or has no room is left as it is. -/
def frameMplsUnicast (buffer : List UInt8) (offset size protoId subtype : Nat) : List UInt8 × Nat :=
  let added := polyHeaderSize + 1
  if size < mplsLseLen then (buffer, size)
  else if offset + size + added > buffer.length then (buffer, size)
  else
    let mpls := (buffer.take (offset + size)).drop offset
    let buffer := Slice.overwrite buffer (offset + added) mpls
    let buffer := Slice.overwrite buffer offset [.ofNat (protoId * 16)]
    let buffer := Slice.overwrite buffer (offset + polyOffsetPayloadLength)
      (put16 (.ofNat (size + 1)))
    let buffer := Slice.overwrite buffer (offset + polyHeaderSize) [.ofNat subtype]
    (buffer, size + added)

end Nylon.Polyamide
