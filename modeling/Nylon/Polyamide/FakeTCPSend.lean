import Nylon.Polyamide.FakeTCP

/-!
The sending side of the fake-TCP transport (`polyamide/conn/fake_tcp.go`): opening a flow, and
the packets for the datagrams of an established one. Sending a packet may fail, which is
no different from losing it.
-/

namespace Nylon.Polyamide

open Lib Netip State

inductive FakeTCPError where
  | notConfigured
  | closed
  | stateLimit
  | notEstablished
  deriving DecidableEq, Repr

def isUnspecified (addr : Addr) : Bool := addr = unspecified addr

/-- The flow with a concrete local address that was opened by the peer last, for an endpoint
that only has an interface. -/
def passiveFlow (s : FakeTCPStates) (key : FakeTCPFlowKey) :
    Option (FakeTCPFlowKey × FakeTCPFlow) :=
  s.flows.range (fun best candidateKey candidate =>
    if candidateKey.remote ≠ key.remote ∨ candidateKey.ifidx ≠ key.ifidx ∨
        candidateKey.localAddr.all isUnspecified ∨ !candidate.passive then best
    else if best.all (fun found => found.2.lastSeen < candidate.lastSeen) then
      some (candidateKey, candidate)
    else best) none

/-- The flow that `PrepareFakeTCP` uses for an endpoint, with its key. -/
def preparedFlow (s : FakeTCPStates) (ep : StdNetEndpoint) : FakeTCPFlowKey × Option FakeTCPFlow :=
  let key := fakeTCPKey ep
  match s.flows.lookup key with
  | some flow => (key, some flow)
  | none =>
    if key.localAddr.any isUnspecified then
      match passiveFlow s key with
      | some (candidateKey, flow) => (candidateKey, some flow)
      | none => (key, none)
    else (key, none)

/-- `SetSrc`, where the flow of another key is used. -/
def preparedEndpoint (ep : StdNetEndpoint) (key : FakeTCPFlowKey) : StdNetEndpoint :=
  if key = fakeTCPKey ep then ep
  else {ep with src := key.localAddr.map fun addr => ⟨addr, key.ifidx⟩}

/-- What `PrepareFakeTCP` leaves: the flow table, the endpoint, the packet it sends, and the
error, which is none for an established flow. -/
structure Prepared where
  states : FakeTCPStates
  ep : StdNetEndpoint
  packet : Option FakeTCPPacket
  err : Option FakeTCPError
  deriving DecidableEq

/-- The packet that opens a flow, or accepts the one that the peer opens. -/
def openingPacket (flow : FakeTCPFlow) : FakeTCPPacket :=
  if flow.state = .synReceived then
    ⟨tcpFlagSYN ||| tcpFlagACK, flow.sendNext - 1, flow.recvNext, []⟩
  else ⟨tcpFlagSYN, flow.sendNext - 1, 0, []⟩

def prepareFakeTCP (enabled isOpen : Bool) (s : FakeTCPStates) (now : Time) (isn : UInt32)
    (ep : StdNetEndpoint) : Prepared :=
  if !enabled then ⟨s, ep, none, some .notConfigured⟩
  else if !isOpen then ⟨s, ep, none, some .closed⟩
  else
    let s := cleanupFakeTCPStatesLocked s now false
    let found := preparedFlow s ep
    let ep := preparedEndpoint ep found.1
    let retry := fun (s : FakeTCPStates) (flow : FakeTCPFlow) =>
      let flow := {flow with lastSeen := now}
      (⟨s.setFlow found.1 flow, ep, some (openingPacket flow), some .notEstablished⟩ : Prepared)
    match found.2 with
    | some flow =>
      if flow.state = .established then ⟨s, ep, none, none⟩ else retry s flow
    | none =>
      let cleaned := if fakeTCPStateLimit ≤ s.flows.entries.length then
        cleanupFakeTCPStatesLocked s now true else s
      if fakeTCPStateLimit ≤ cleaned.flows.entries.length then
        ⟨cleaned, ep, none, some .stateLimit⟩
      else retry cleaned ⟨.synSent, isn + 1, 0, 0, now, false⟩

/-- One packet for each datagram; the sequence numbers count the frame headers too. -/
def dataPackets (flow : FakeTCPFlow) : List Bytes → FakeTCPFlow × List FakeTCPPacket
  | [] => (flow, [])
  | buf :: bufs =>
    let packet : FakeTCPPacket := ⟨tcpFlagACK, flow.sendNext, flow.recvNext, buf⟩
    let rest := dataPackets
      {flow with sendNext := flow.sendNext + .ofNat (frameHeaderSize + buf.length)} bufs
    (rest.1, packet :: rest.2)

def sendFakeTCPData (s : FakeTCPStates) (ep : StdNetEndpoint) (bufs : List Bytes) :
    Except FakeTCPError (FakeTCPStates × List FakeTCPPacket) :=
  let found := findFakeTCPFlowLocked s ep
  match found.2 with
  | none => .error .notEstablished
  | some flow =>
    if flow.state ≠ .established then .error .notEstablished
    else
      let sent := dataPackets flow bufs
      .ok (s.setFlow found.1 {sent.1 with receivedUnacked := 0}, sent.2)

end Nylon.Polyamide
