import Nylon.Polyamide.TrafficManip
import Nylon.State.Routing

/-!
The receiving side of the fake-TCP transport (`polyamide/conn/fake_tcp.go`). A
carrier is a UDP datagram that starts with a magic number, a header with flags and
sequence numbers, and for data packets a payload that tiles into length-prefixed
frames, each a datagram of its own. A bind keeps one flow per remote address and
local source; only an established flow delivers data.
-/

namespace Nylon.Polyamide

open Lib Netip State

abbrev Bytes := List UInt8

def carrierMagic : UInt16 := 0x4e59
def carrierHeaderSize : Nat := 12
def frameHeaderSize : Nat := 2
def minFramePayloadSize : Nat := 32
def synOptionSize : Nat := 4
def tcpFlagFIN : UInt8 := 0x01
def tcpFlagSYN : UInt8 := 0x02
def tcpFlagRST : UInt8 := 0x04
def tcpFlagACK : UInt8 := 0x10
def fakeTCPStateLimit : Nat := 65536
def fakeTCPStandaloneACKAfter : Nat := 32 * 1024 * 1024

structure AddrPort where
  addr : Addr
  port : UInt16
  deriving DecidableEq, Repr

inductive Transport where
  | udp
  | fakeTCP
  deriving DecidableEq, Repr

/-- A sticky source: the local address and the interface of a datagram. -/
structure PktInfo where
  addr : Addr
  ifidx : Int
  deriving DecidableEq, Repr

structure StdNetEndpoint where
  addrPort : AddrPort
  src : Option PktInfo
  transport : Transport
  deriving DecidableEq, Repr

inductive FakeTCPState where
  | synSent
  | synReceived
  | established
  deriving DecidableEq, Repr

structure FakeTCPFlowKey where
  remote : AddrPort
  localAddr : Option Addr
  ifidx : Int
  deriving DecidableEq, Repr

structure FakeTCPFlow where
  state : FakeTCPState
  sendNext : UInt32
  recvNext : UInt32
  receivedUnacked : UInt64
  lastSeen : Time
  passive : Bool
  deriving DecidableEq, Repr

structure FakeTCPPacket where
  flags : UInt8
  seq : UInt32
  ack : UInt32
  payload : Bytes
  deriving DecidableEq, Repr

/-- The flow table of a bind. A zero `staleAfter` turns the clean-up off. -/
structure FakeTCPStates where
  flows : Table FakeTCPFlowKey FakeTCPFlow
  staleAfter : Time
  lastClean : Option Time
  deriving DecidableEq

def fakeTCPKey (ep : StdNetEndpoint) : FakeTCPFlowKey :=
  { remote := ep.addrPort
    localAddr := ep.src.map (·.addr)
    ifidx := (ep.src.map (·.ifidx)).getD 0 }

def unspecified : Addr → Addr
  | .v4 _ => Addr.ipv4Unspecified
  | .v6 _ => Addr.ipv6Unspecified

/-- A concrete source first matches its own flow, then one that was opened with an
unspecified source. -/
def findFakeTCPFlowLocked (s : FakeTCPStates) (ep : StdNetEndpoint) :
    FakeTCPFlowKey × Option FakeTCPFlow :=
  let key := fakeTCPKey ep
  match s.flows.lookup key, key.localAddr with
  | some flow, _ => (key, some flow)
  | none, none => (key, none)
  | none, some addr =>
    let wildcardKey := {key with localAddr := some (unspecified addr)}
    match s.flows.lookup wildcardKey with
    | some flow => (wildcardKey, some flow)
    | none => (key, none)

/-- Flows that have not been seen for a while are dropped, at most once in that
time unless it is forced. -/
def cleanupFakeTCPStatesLocked (s : FakeTCPStates) (now : Time) (force : Bool) :
    FakeTCPStates :=
  if s.staleAfter ≤ 0 then s
  else if !force && s.lastClean.any (fun last => now - last < s.staleAfter) then s
  else
    { s with
      flows := s.flows.range (fun flows key flow =>
        if s.staleAfter ≤ now - flow.lastSeen then flows.erase key else flows) s.flows
      lastClean := some now }

/-- What `handleFakeTCPPacket` leaves: the flow table, the control packet it wants
to have sent, and whether the payload is delivered. -/
structure Handled where
  states : FakeTCPStates
  response : Option FakeTCPPacket
  deliver : Bool
  deriving DecidableEq

def FakeTCPStates.setFlow (s : FakeTCPStates) (key : FakeTCPFlowKey)
    (flow : FakeTCPFlow) : FakeTCPStates :=
  {s with flows := s.flows.insert key flow}

/-- A SYN without ACK: the peer opens a flow. -/
def handleSYN (s : FakeTCPStates) (now : Time) (isn : UInt32) (key : FakeTCPFlowKey)
    (flow : Option FakeTCPFlow) (packet : FakeTCPPacket) : Handled :=
  let accept := fun (s : FakeTCPStates) (flow : FakeTCPFlow) =>
    let flow := { flow with
      state := .synReceived
      recvNext := packet.seq + 1
      receivedUnacked := 0
      lastSeen := now }
    ({ states := s.setFlow key flow
       response := some ⟨tcpFlagSYN ||| tcpFlagACK, flow.sendNext - 1, flow.recvNext, []⟩
       deliver := false } : Handled)
  match flow with
  | some flow =>
    if flow.state = .established then ⟨s, none, false⟩
    else if flow.state = .synReceived ∧ flow.recvNext ≠ packet.seq + 1 then
      accept s {flow with sendNext := isn + 1}
    else accept s flow
  | none =>
    let cleaned := if fakeTCPStateLimit ≤ s.flows.entries.length then
      cleanupFakeTCPStatesLocked s now true else s
    if fakeTCPStateLimit ≤ cleaned.flows.entries.length then ⟨cleaned, none, false⟩
    else accept cleaned ⟨.synSent, isn + 1, 0, 0, now, true⟩

/-- A SYN with ACK: the peer accepts a flow. -/
def handleSYNACK (s : FakeTCPStates) (now : Time) (key : FakeTCPFlowKey)
    (flow : Option FakeTCPFlow) (packet : FakeTCPPacket) : Handled :=
  let accept := fun (flow : FakeTCPFlow) =>
    ({ states := s.setFlow key flow
       response := some ⟨tcpFlagACK, flow.sendNext, flow.recvNext, []⟩
       deliver := false } : Handled)
  match flow with
  | none => ⟨s, none, false⟩
  | some flow =>
    if flow.state = .established then
      if packet.ack = flow.sendNext ∧ packet.seq + 1 = flow.recvNext then
        accept {flow with lastSeen := now}
      else ⟨s, none, false⟩
    else if packet.ack ≠ flow.sendNext then ⟨s, none, false⟩
    else accept {flow with
      state := .established, recvNext := packet.seq + 1, lastSeen := now}

/-- Data of an established flow. -/
def handleData (s : FakeTCPStates) (now : Time) (key : FakeTCPFlowKey)
    (flow : FakeTCPFlow) (packet : FakeTCPPacket) : Handled :=
  let flow := {flow with lastSeen := now}
  if packet.payload = [] then ⟨s.setFlow key flow, none, false⟩
  else
    let last := packet.seq + .ofNat packet.payload.length
    let ahead := last - flow.recvNext
    let flow := if 0 < ahead ∧ ahead < 0x80000000 then
      { flow with
        receivedUnacked := flow.receivedUnacked + .ofNat ahead.toNat
        recvNext := last }
      else flow
    if fakeTCPStandaloneACKAfter ≤ flow.receivedUnacked.toNat then
      ⟨s.setFlow key {flow with receivedUnacked := 0},
        some ⟨tcpFlagACK, flow.sendNext, flow.recvNext, []⟩, true⟩
    else ⟨s.setFlow key flow, none, true⟩

/-- Neither SYN, FIN nor RST: data or an acknowledgement, which may complete the
handshake. -/
def handleACK (s : FakeTCPStates) (now : Time) (key : FakeTCPFlowKey)
    (flow : FakeTCPFlow) (packet : FakeTCPPacket) : Handled :=
  if flow.state = .synReceived ∧ packet.flags &&& tcpFlagACK ≠ 0 ∧ packet.ack = flow.sendNext then
    if packet.payload ≠ [] ∧ packet.seq ≠ flow.recvNext then ⟨s, none, false⟩
    else handleData s now key {flow with state := .established} packet
  else if flow.state ≠ .established then ⟨s, none, false⟩
  else handleData s now key flow packet

def handleFakeTCPPacket (s : FakeTCPStates) (now : Time) (isn : UInt32)
    (ep : StdNetEndpoint) (packet : FakeTCPPacket) : Handled :=
  let s := cleanupFakeTCPStatesLocked s now false
  let found := findFakeTCPFlowLocked s ep
  if packet.flags &&& tcpFlagRST ≠ 0 ∨ packet.flags &&& tcpFlagFIN ≠ 0 then
    ⟨{s with flows := s.flows.erase found.1}, none, false⟩
  else if packet.flags &&& tcpFlagSYN ≠ 0 then
    if packet.flags &&& tcpFlagACK = 0 then handleSYN s now isn found.1 found.2 packet
    else handleSYNACK s now found.1 found.2 packet
  else
    match found.2 with
    | none => ⟨s, none, false⟩
    | some flow => handleACK s now found.1 flow packet

/-- The first frame, what follows it, and whether there is one. -/
def nextFakeTCPFrame (data : Bytes) : Bytes × Bytes × Bool :=
  if data.length < frameHeaderSize then ([], [], false)
  else
    let length := (be16 (data.take frameHeaderSize)).toNat
    if length < minFramePayloadSize ∨ data.length - frameHeaderSize < length then
      ([], [], false)
    else
      let last := frameHeaderSize + length
      ((data.take last).drop frameHeaderSize, data.drop last, true)

/-- The number of frames that a payload tiles into. Every frame has a header, so
the length of the payload is enough fuel. -/
def countFrames : Nat → Bytes → Option Nat
  | 0, remaining => if remaining = [] then some 0 else none
  | fuel + 1, remaining =>
    if remaining = [] then some 0
    else if (nextFakeTCPFrame remaining).2.2 then
      (countFrames fuel (nextFakeTCPFrame remaining).2.1).map (· + 1)
    else none

/-- What `receiveFakeTCP` makes of a datagram. -/
structure Carried where
  states : FakeTCPStates
  ep : StdNetEndpoint
  response : Option FakeTCPPacket
  payload : Bytes
  frames : Nat
  carrier : Bool
  deriving DecidableEq

def carrierFlags (carrier : Bytes) : UInt8 :=
  (be16 ((carrier.take 4).drop 2)).toUInt8

/-- A well-formed carrier is handled by its flow. -/
def receiveCarrier (s : FakeTCPStates) (now : Time) (isn : UInt32) (carrier : Bytes)
    (ep : StdNetEndpoint) (payload : Bytes) (frameCount : Nat) : Carried :=
  let ep := {ep with transport := .fakeTCP}
  let handled := handleFakeTCPPacket s now isn ep
    ⟨carrierFlags carrier, be32 ((carrier.take 8).drop 4), be32 ((carrier.take 12).drop 8), payload⟩
  if handled.deliver then
    ⟨handled.states, ep, handled.response, payload, frameCount, true⟩
  else ⟨handled.states, ep, handled.response, [], 0, true⟩

def receiveFakeTCP (s : FakeTCPStates) (now : Time) (isn : UInt32) (carrier : Bytes)
    (ep : StdNetEndpoint) : Carried :=
  if carrier.length < 2 ∨ be16 (carrier.take 2) ≠ carrierMagic then
    ⟨s, ep, none, [], 0, false⟩
  else if carrier.length < carrierHeaderSize then ⟨s, ep, none, [], 0, true⟩
  else if carrierFlags carrier &&& tcpFlagSYN ≠ 0 then
    if carrier.length < carrierHeaderSize + synOptionSize then ⟨s, ep, none, [], 0, true⟩
    else receiveCarrier s now isn carrier ep
      (carrier.drop (carrierHeaderSize + synOptionSize)) 0
  else
    let payload := carrier.drop carrierHeaderSize
    match countFrames payload.length payload with
    | none => ⟨s, ep, none, [], 0, true⟩
    | some frameCount => receiveCarrier s now isn carrier ep payload frameCount

end Nylon.Polyamide
