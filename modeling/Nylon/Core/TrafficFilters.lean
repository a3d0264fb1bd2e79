import Nylon.Core.Unicast

/-!
The filters of nylon (`InstallTC` of `core/nylon_tc.go`) and the sending of
control messages. The last filter installed runs first: MPLS packets, control
messages, packets for the local node, then routing by `ForwardTable`, and last
the encapsulation for an exit node. Trace texts are left out, the accessors
they call are not.
-/

namespace Nylon.State

open Netip

def defaultLocalIPv4Excludes : List Prefix :=
  [⟨.v4 0x7F000000, 8, by decide⟩, ⟨.v4 0xA9FE0000, 16, by decide⟩,
    ⟨.v4 0xE0000000, 4, by decide⟩, ⟨.v4 0xFFFFFFFF, 32, by decide⟩]

def defaultLocalExcludes : List Prefix :=
  defaultLocalIPv4Excludes ++ [⟨.v6 1, 128, by decide⟩,
    ⟨.v6 0xFE800000000000000000000000000000, 10, by decide⟩,
    ⟨.v6 0xFF000000000000000000000000000000, 8, by decide⟩]

def isDefaultLocalExcludedAddr (addr : Addr) : Bool :=
  defaultLocalExcludes.any (·.contains addr)

end Nylon.State

namespace Nylon.Core

open State Netip Lib Polyamide

def nyProtoId : Nat := 8

/-- What the filters read: the configuration, the tables and the snapshot at the
time a packet is handled. -/
structure TrafficConfig (T : Type → Type) (Peer : Type) where
  localId : NodeId
  useSystemRouting : Bool
  traceTC : Bool
  tables : Tables T Peer
  exitFilter : Option (ExitFilterSnapshot Peer)

/-- A node that routes by itself, does not trace and has no snapshot yet. -/
def TrafficConfig.routingOnly {T : Type → Type} {Peer : Type} (localId : NodeId)
    (tables : Tables T Peer) : TrafficConfig T Peer :=
  ⟨localId, false, false, tables, none⟩

/-- A control message that is handed to `handleNylonPacket`. -/
structure NylonPacket (Peer Endpoint : Type) where
  packet : List UInt8
  endpoint : Option Endpoint
  peer : Option Peer
  deriving DecidableEq, Repr

abbrev NylonFilter (Peer Endpoint : Type) :=
  TCFilter Peer Endpoint (NylonPacket Peer Endpoint)

variable {T : Type → Type} [PrefixTable T] {Peer Endpoint : Type}

namespace TrafficConfig

variable (cfg : TrafficConfig T Peer)

def lookupForward (addr : Addr) : Option (RouteTableEntry Peer) :=
  PrefixTable.lookup cfg.tables.forwardTable addr

def lookupExit (addr : Addr) : Option (RouteTableEntry Peer) :=
  PrefixTable.lookup cfg.tables.exitTable addr

def traceAddrs (packet : Packet) : Go Unit :=
  if cfg.traceTC then do
    let _ ← packet.getSrc
    let _ ← packet.getDst
    return ()
  else return ()

/-- Sends a packet off to the exit node of the snapshot. -/
def exitEncap (snap : ExitFilterSnapshot Peer) (dst : Addr) :
    NylonFilter Peer Endpoint := fun elem =>
  if isDefaultLocalExcludedAddr dst then return .of .drop elem
  else match snap.nextHop snap.exitNodeNumeric with
    | none => do
      let _ ← cfg.traceAddrs elem.packet
      return .of .drop elem
    | some peer => do
      let _ ← elem.packet.getSrc
      match ← wrapExitPacket elem.packet snap.exitNodeNumeric with
      | .error _ => return .of .drop elem
      | .ok packet =>
        return .of .forward
          {elem with packet := packet, toPeer := some peer, priority := .medium}

/-- Outbound IP packets without a route go to the exit node, if there is one. -/
def exitEncapFilter : NylonFilter Peer Endpoint := fun elem =>
  match cfg.exitFilter with
  | none => return .of .pass elem
  | some snap =>
    if snap.exitNodeNumeric = invalidNodeIdNumeric then return .of .pass elem
    else if elem.incoming then return .of .pass elem
    else do
      if !(← elem.packet.validate) then return .of .pass elem
      else
        let ver ← elem.packet.getIPVersion
        if ver ≠ 4 ∧ ver ≠ 6 then return .of .pass elem
        else
          let dst ← elem.packet.getDst
          match cfg.lookupForward dst with
          | some _ => return .of .pass elem
          | none => cfg.exitEncap snap dst elem

/-- Installed only when tracing; reports what no other filter has handled. -/
def traceFilter : NylonFilter Peer Endpoint := fun elem => do
  if ← elem.packet.validate then
    let _ ← elem.packet.getSrc
    let _ ← elem.packet.getDst
    return .of .pass elem
  else return .of .pass elem

/-- With system routing, incoming packets go to the system. -/
def bounceIncomingFilter : NylonFilter Peer Endpoint := fun elem =>
  return .of (if elem.incoming then .bounce else .pass) elem

/-- Forwards by the routing table, either all packets or those not incoming. -/
def forwardBy (outgoingOnly : Bool) : NylonFilter Peer Endpoint := fun elem => do
  let dst ← elem.packet.getDst
  match cfg.lookupForward dst with
  | none => return .of .pass elem
  | some entry =>
    if outgoingOnly && elem.incoming then return .of .pass elem
    else if entry.blackhole then return .of .drop elem
    else
      let _ ← cfg.traceAddrs elem.packet
      return .of .forward {elem with toPeer := entry.peer}

def forwardOutgoingFilter : NylonFilter Peer Endpoint := cfg.forwardBy true

def forwardFilter : NylonFilter Peer Endpoint := cfg.forwardBy false

/-- Takes a hop off the TTL and returns what is left. -/
def takeHop (packet : Packet) : Go (UInt8 × Packet) := do
  let ttl ← packet.getTTL
  if ttl ≥ 1 then
    let packet ← packet.decrementTTL
    return (ttl - 1, packet)
  else return (ttl, packet)

/-- An incoming IP packet loses a hop; the system answers one that expires. -/
def ttlFilter : NylonFilter Peer Endpoint := fun elem =>
  if !elem.incoming then return .of .pass elem
  else do
    let ver ← elem.packet.getIPVersion
    if ver ≠ 4 ∧ ver ≠ 6 then return .of .pass elem
    else
      let (ttl, packet) ← takeHop elem.packet
      if ttl = 0 then
        let _ ← cfg.traceAddrs packet
        return .of .bounce {elem with packet := packet}
      else return .of .pass {elem with packet := packet}

/-- Packets for the local node, but not for its passive clients. -/
def exitTableFilter : NylonFilter Peer Endpoint := fun elem => do
  let dst ← elem.packet.getDst
  match cfg.lookupExit dst with
  | none => return .of .pass elem
  | some entry =>
    if entry.nh = cfg.localId then
      let _ ← cfg.traceAddrs elem.packet
      return .of .bounce elem
    else return .of .pass elem

def nylonFilter : NylonFilter Peer Endpoint := fun elem =>
  if !elem.incoming then return .of .pass elem
  else do
    let ver ← elem.packet.getIPVersion
    if ver = nyProtoId then
      let payload ← elem.packet.payload
      return ⟨.drop, none, elem, [⟨payload, elem.fromEp, elem.fromPeer⟩]⟩
    else return .of .pass elem

def mplsFilter : NylonFilter Peer Endpoint := fun elem => do
  let ver ← elem.packet.getIPVersion
  if ver ≠ nyUnicastProtoId then return .of .pass elem
  else match cfg.exitFilter with
    | none => return .of .drop elem
    | some snap =>
      let payload ← elem.packet.payload
      if payload.length < nyUnicastHeaderSize then return .of .drop elem
      else if payload[nyUnicastOffsetSubtype]? ≠ some nyUnicastSubtypeMpls then
        return .of .drop elem
      else handleMplsPacket snap elem

def installTC : List (NylonFilter Peer Endpoint) :=
  [cfg.exitEncapFilter] ++ (if cfg.traceTC then [traceFilter] else []) ++
    (if cfg.useSystemRouting then [bounceIncomingFilter, cfg.forwardOutgoingFilter]
      else [cfg.forwardFilter, cfg.ttlFilter]) ++
    [cfg.exitTableFilter, nylonFilter, cfg.mplsFilter]

def device (allowedips : AllowedIPs Peer) (isRunning : Peer → Bool) (protoWriter : Bool) :
    Device Peer Endpoint (NylonPacket Peer Endpoint) :=
  cfg.installTC.foldl Device.installFilter (newDevice allowedips isRunning protoWriter)

end TrafficConfig

/-- The version and the length in the header of a new packet. -/
def writeHeader (packet : Packet) (ver : Nat) (len : UInt16) : Go Packet := do
  let packet ← packet.setIPVersion ver
  packet.setLength len

/-- The end of a packet in the message buffer, computed in 16 bits. -/
def packetEnd (len : UInt16) : Nat := (.ofNat messageTransportHeaderSize + len : UInt16).toNat

/-- `InitPacket`; `content` is the buffer behind the transport header. -/
def initPacket (content : List UInt8) (ver : Nat) (len : UInt16) : Go Packet :=
  if messageTransportHeaderSize ≤ packetEnd len ∧
      packetEnd len ≤ messageTransportHeaderSize + content.length then
    writeHeader (.ofAll content (packetEnd len - messageTransportHeaderSize)) ver len
  else .error .sliceBounds

/-- What follows the transport header in a message buffer. -/
structure MessageBuffer where
  content : List UInt8
  size : messageTransportHeaderSize + content.length = maxMessageSize

/-- The buffer after a bundle has been serialised behind the header. A bundle that
does not fit is serialised to a new array, and the buffer stays as it was. -/
def MessageBuffer.marshal (buffer : MessageBuffer) (bundle : List UInt8) : MessageBuffer :=
  if h : polyHeaderSize + bundle.length ≤ buffer.content.length then
    { content := Slice.overwrite buffer.content polyHeaderSize bundle
      size := by rw [Slice.length_overwrite h, buffer.size] }
  else buffer

/-- The element `SendNylonBundle` builds for a serialised bundle. -/
def nylonElement (buffer : MessageBuffer) (bundle : List UInt8)
    (endpoint : Option Endpoint) (peer : Peer) : Go (TCElement Peer Endpoint) := do
  let packet ← initPacket (buffer.marshal bundle).content nyProtoId
    (.ofNat (bundle.length + polyHeaderSize))
  return {
    packet := packet
    fromEp := none
    toEp := endpoint
    fromPeer := none
    toPeer := some peer
    priority := .high
    l3Proto := 0 }

def sendNylonBundle [DecidableEq Peer]
    (dev : Device Peer Endpoint (NylonPacket Peer Endpoint)) (buffer : MessageBuffer)
    (bundle : List UInt8) (endpoint : Option Endpoint) (peer : Peer) :
    Go (Polyamide.Outcome Peer Endpoint (NylonPacket Peer Endpoint)) := do
  let elem ← nylonElement buffer bundle endpoint peer
  let (_, outcome) ← dev.tcBatch [elem] .new
  return outcome

end Nylon.Core
