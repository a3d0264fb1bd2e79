import Nylon.Core.RouteTable
import Nylon.Polyamide.FilterChain

/-!
Node-to-node unicast (`core/nylon_unicast.go`). The packet is wrapped behind a
header of nylon, a subtype and one MPLS label-stack entry whose label is the
number of the destination node. Neither wrapping nor handling such a packet
panics, whatever its bytes are.
-/

namespace Nylon.Core

open State Netip Lib Polyamide

abbrev NodeIdNumeric := UInt32

def invalidNodeIdNumeric : NodeIdNumeric := 0

def nyUnicastProtoId : Nat := 9
def nyUnicastHeaderSize : Nat := 1 + mplsLseLen
def nyUnicastDefaultTTL : UInt8 := 64
def nyUnicastOffsetSubtype : Nat := 0
def nyUnicastOffsetLse : Nat := 1
def nyUnicastSubtypeMpls : UInt8 := 1
def ethPMplsUnicast : UInt16 := 0x8847

def encodeMplsLse (label : UInt32) (tc : UInt8) (bos : Bool) (ttl : UInt8) : List UInt8 :=
  let s : UInt32 := if bos then 1 else 0
  put32 ((label &&& 0xFFFFF) <<< 12 ||| (tc &&& 0x7).toUInt32 <<< 9 ||| s <<< 8 ||| ttl.toUInt32)

structure MplsLse where
  label : UInt32
  tc : UInt8
  bos : Bool
  ttl : UInt8
  deriving DecidableEq, Repr

def decodeMplsLse (b : List UInt8) : MplsLse :=
  let v := be32 b
  { label := v >>> 12
    tc := ((v >>> 9) &&& 0x7).toUInt8
    bos := (v >>> 8) &&& 0x1 == 1
    ttl := v.toUInt8 }

/-- What the filters read of the exit configuration and the selected routes. -/
structure ExitFilterSnapshot (Peer : Type) where
  localIdNumeric : NodeIdNumeric
  advertiseExitNode : Bool
  exitNodeNumeric : NodeIdNumeric
  nodeForward : Table NodeIdNumeric (RouteTableEntry Peer)

/-- The peer to a node, if there is an entry with one. -/
def ExitFilterSnapshot.nextHop {Peer : Type} (snap : ExitFilterSnapshot Peer)
    (node : NodeIdNumeric) : Option Peer :=
  (snap.nodeForward.lookup node).bind (·.peer)

/-- The length of everything in front of the wrapped packet. -/
def exitHeaderLen : Nat := polyHeaderSize + nyUnicastHeaderSize

/-- The packet behind room for the headers. The buffer behind the transport
header is the capacity of the packet. -/
def slidePacket (packet : Packet) : Packet :=
  .ofAll (Slice.overwrite packet.all exitHeaderLen packet.data) (exitHeaderLen + packet.len)

def wrapExitPacket (packet : Packet) (exit : NodeIdNumeric) : Go (Except String Packet) :=
  if exit = invalidNodeIdNumeric then
    return .error "nylon: invalid node id in exit header"
  else if exitHeaderLen + packet.len > packet.all.length then
    return .error "nylon: packet too large for exit encapsulation"
  else do
    let wrapped ← (slidePacket packet).setIPVersion nyUnicastProtoId
    let wrapped ← wrapped.setLength (.ofNat (exitHeaderLen + packet.len))
    let wrapped ← wrapped.setIndex (polyHeaderSize + nyUnicastOffsetSubtype) nyUnicastSubtypeMpls
    let wrapped ← wrapped.patch (polyHeaderSize + nyUnicastOffsetLse)
      (encodeMplsLse exit 0 true nyUnicastDefaultTTL)
    return .ok wrapped

/-- The address at one of the offsets in an IP packet. -/
def packetAddr (packet : List UInt8) (off4 off6 : Nat) : Except String Addr :=
  match packet with
  | [] => .error "empty inner packet"
  | first :: _ =>
    if first >>> 4 = 4 then
      if packet.length < off4 + 4 then .error "short IPv4 packet"
      else .ok (addrFrom4 ((packet.take (off4 + 4)).drop off4))
    else if first >>> 4 = 6 then
      if packet.length < off6 + 16 then .error "short IPv6 packet"
      else .ok (addrFrom16 ((packet.take (off6 + 16)).drop off6))
    else .error "inner packet is not IP"

def packetSrc (packet : List UInt8) : Except String Addr :=
  packetAddr packet ipv4OffsetSrc ipv6OffsetSrc

def packetDst (packet : List UInt8) : Except String Addr :=
  packetAddr packet ipv4OffsetDst ipv6OffsetDst

variable {Peer Endpoint Call : Type}

/-- Copies the bytes to the front of the packet and cuts it to their length. -/
def replacePacket (packet : Packet) (bytes : List UInt8) : Go Packet := do
  let packet ← packet.patch 0 bytes
  packet.upTo bytes.length

def dropWith (err : String) (elem : TCElement Peer Endpoint) : FilterResult Peer Endpoint Call :=
  ⟨.drop, some err, elem, []⟩

/-- The packet has reached the node of its outer label. -/
def handleMplsTerminal (snap : ExitFilterSnapshot Peer) (bos : Bool)
    (rest : List UInt8) : TCFilter Peer Endpoint Call := fun elem =>
  if !snap.advertiseExitNode then
    return dropWith "local node is not advertising exit service" elem
  else if rest.length = 0 then return dropWith "mpls packet has no payload" elem
  else if !bos then
    if rest.length < mplsLseLen then
      return dropWith "mpls stack truncated after outer label" elem
    else do
      let packet ← replacePacket elem.packet rest
      return .of .bounce {elem with packet := packet, l3Proto := ethPMplsUnicast}
  else
    match packetSrc rest with
    | .error err => return dropWith err elem
    | .ok _ =>
      match packetDst rest with
      | .error err => return dropWith err elem
      | .ok _ => do
        let packet ← replacePacket elem.packet rest
        let (_, packet) ← packet.parsePacket
        return .of .bounce {elem with packet := packet}

/-- The packet is on its way to another node: the TTL is the last byte of the
label-stack entry. -/
def handleMplsTransit (snap : ExitFilterSnapshot Peer) (lse : MplsLse) :
    TCFilter Peer Endpoint Call := fun elem =>
  match snap.nextHop lse.label with
  | none => return dropWith ("no route to node numeric=" ++ toString lse.label) elem
  | some peer => do
    let packet ← elem.packet.patch
      (polyHeaderSize + nyUnicastOffsetLse + (mplsLseLen - 1)) [lse.ttl - 1]
    return .of .forward
      {elem with packet := packet, toPeer := some peer, priority := .medium}

def handleMplsLse (snap : ExitFilterSnapshot Peer) (lse : MplsLse)
    (rest : List UInt8) : TCFilter Peer Endpoint Call := fun elem =>
  if lse.ttl = 0 then return dropWith "mpls ttl exceeded" elem
  else if lse.label ≠ snap.localIdNumeric then handleMplsTransit snap lse elem
  else handleMplsTerminal snap lse.bos rest elem

def handleMplsPacket (snap : ExitFilterSnapshot Peer) : TCFilter Peer Endpoint Call :=
  fun elem => do
    let payload ← elem.packet.payload
    if payload.length < nyUnicastHeaderSize then
      return dropWith "mpls packet shorter than header" elem
    else
      handleMplsLse snap
        (decodeMplsLse ((payload.take nyUnicastHeaderSize).drop nyUnicastOffsetLse))
        (payload.drop nyUnicastHeaderSize) elem

theorem len_slidePacket {packet : Packet} (h : exitHeaderLen + packet.len ≤ packet.all.length) :
    (slidePacket packet).len = exitHeaderLen + packet.len :=
  Slice.len_ofAll ((Slice.length_overwrite h).symm ▸ h)

theorem wrapExitPacket_ok (packet : Packet) (exit : NodeIdNumeric) :
    ∃ r, wrapExitPacket packet exit = .ok r := by
  unfold wrapExitPacket
  split_ifs with hexit hlarge
  · exact ⟨_, rfl⟩
  · exact ⟨_, rfl⟩
  · have hlen : 8 ≤ (slidePacket packet).len := by
      rw [len_slidePacket (Nat.not_lt.mp hlarge)]
      exact Nat.le_add_right 8 _
    obtain ⟨p₁, h₁, -, hlen₁⟩ := Slice.setIndex_eq (s := slidePacket packet) (i := 0)
      (UInt8.ofNat (nyUnicastProtoId * 16)) (by omega)
    obtain ⟨p₂, h₂, hlen₂⟩ := Packet.setLength_ok (p := p₁)
      (.ofNat (exitHeaderLen + packet.len)) (by omega)
    obtain ⟨p₃, h₃, -, hlen₃⟩ := Slice.setIndex_eq (s := p₂)
      (i := polyHeaderSize + nyUnicastOffsetSubtype) nyUnicastSubtypeMpls
      (show 3 + 0 < p₂.len by omega)
    have hroom : 3 + 1 + 4 ≤ p₃.all.length :=
      (by omega : 3 + 1 + 4 ≤ p₃.len).trans p₃.len_le_all
    obtain ⟨p₄, h₄, -, -⟩ := Slice.patch_eq (s := p₃)
      (polyHeaderSize + nyUnicastOffsetLse)
      (encodeMplsLse exit 0 true nyUnicastDefaultTTL) hroom
    refine ⟨.ok p₄, ?_⟩
    unfold Packet.setIPVersion
    rw [h₁, Go.ok_bind, h₂, Go.ok_bind, h₃, Go.ok_bind, h₄]
    rfl

theorem replacePacket_ok {packet : Packet} {bytes : List UInt8}
    (h : bytes.length ≤ packet.len) : ∃ q, replacePacket packet bytes = .ok q := by
  obtain ⟨p₁, h₁, -, hlen₁⟩ := Slice.patch_eq (s := packet) 0 bytes
    (by have := packet.len_le_all; omega)
  obtain ⟨p₂, h₂, -, -⟩ := Slice.upTo_eq (s := p₁) (n := bytes.length)
    ((hlen₁ ▸ h).trans p₁.len_le_all)
  refine ⟨p₂, ?_⟩
  rw [replacePacket, h₁, Go.ok_bind, h₂]

variable {snap : ExitFilterSnapshot Peer} {elem : TCElement Peer Endpoint}

theorem handleMplsTerminal_decides (bos : Bool) {rest : List UInt8}
    (hrest : rest.length ≤ elem.packet.len) :
    Decides (handleMplsTerminal snap bos rest : TCFilter Peer Endpoint Call) elem := by
  have hdrop : (TCAction.drop) ≠ .pass := by decide
  obtain ⟨packet, hpacket⟩ := replacePacket_ok hrest
  unfold Decides handleMplsTerminal
  rw [hpacket]
  split_ifs
  · exact ⟨_, rfl, hdrop⟩
  · exact ⟨_, rfl, hdrop⟩
  · exact ⟨_, rfl, hdrop⟩
  · exact ⟨_, rfl, by simp⟩
  · split
    · exact ⟨_, rfl, hdrop⟩
    · split
      · exact ⟨_, rfl, hdrop⟩
      · obtain ⟨parsed, hparsed⟩ := Packet.parsePacket_ok packet
        rw [Go.ok_bind, hparsed]
        exact ⟨_, rfl, by simp⟩

theorem handleMplsTransit_decides (lse : MplsLse) (hlen : 8 ≤ elem.packet.len) :
    Decides (handleMplsTransit snap lse : TCFilter Peer Endpoint Call) elem := by
  unfold Decides handleMplsTransit
  split
  · exact ⟨_, rfl, by simp [dropWith]⟩
  · obtain ⟨packet, hpacket, -, -⟩ := Slice.patch_eq (s := elem.packet)
      (polyHeaderSize + nyUnicastOffsetLse + (mplsLseLen - 1)) [lse.ttl - 1]
      (hlen.trans elem.packet.len_le_all)
    rw [hpacket]
    exact ⟨_, rfl, by simp⟩

/-- Whatever the bytes of an MPLS packet are, handling it decides. -/
theorem handleMplsPacket_decides (hheader : elem.packet.HasHeader)
    (hver : elem.packet.version = nyUnicastProtoId) :
    Decides (handleMplsPacket snap : TCFilter Peer Endpoint Call) elem := by
  have hpayload := hheader.payload
  rw [hver] at hpayload
  have hlength : (elem.packet.data.drop (Packet.headerLen nyUnicastProtoId)).length =
      elem.packet.len - 3 := List.length_drop
  unfold Decides handleMplsPacket
  rw [hpayload, Go.ok_bind]
  split_ifs with hshort
  · exact ⟨_, rfl, by simp [dropWith]⟩
  · rw [hlength, nyUnicastHeaderSize, mplsLseLen] at hshort
    unfold handleMplsLse
    split_ifs
    · exact ⟨_, rfl, by simp [dropWith]⟩
    · exact handleMplsTransit_decides _ (by omega)
    · refine handleMplsTerminal_decides _ ?_
      rw [List.length_drop, hlength]
      omega

end Nylon.Core
