import Nylon.Polyamide.PacketSpec

/-!
Traffic control (`polyamide/device/traffic_control.go`). A batch of packets goes
through the installed filters, the last one installed first, until a filter
decides. Bounced packets are written to the TUN, forwarded ones are staged for
their peers by priority. `Call` is what filters pass on to the rest of the
program. Message buffers and their pools are left out.
-/

namespace Nylon.Polyamide

open Lib Netip

inductive TCAction where
  | pass
  | bounce
  | forward
  | drop
  deriving DecidableEq, Repr

inductive TCPriority where
  | normal
  | medium
  | high
  | max
  deriving DecidableEq, Repr

structure TCElement (Peer Endpoint : Type) where
  packet : Packet
  fromEp : Option Endpoint
  toEp : Option Endpoint
  fromPeer : Option Peer
  toPeer : Option Peer
  priority : TCPriority
  l3Proto : UInt16
  deriving DecidableEq, Repr

/-- What a filter returns, with the element as it leaves it. -/
structure FilterResult (Peer Endpoint Call : Type) where
  action : TCAction
  err : Option String
  elem : TCElement Peer Endpoint
  calls : List Call
  deriving DecidableEq, Repr

abbrev TCFilter (Peer Endpoint Call : Type) :=
  TCElement Peer Endpoint → Go (FilterResult Peer Endpoint Call)

variable {Peer Endpoint Call : Type}

def TCElement.incoming (elem : TCElement Peer Endpoint) : Bool := elem.fromPeer.isSome

/-- An element as it is read from the TUN. -/
def TCElement.fromTun (packet : Packet) : TCElement Peer Endpoint :=
  ⟨packet, none, none, none, none, .normal, 0⟩

/-- An element as it is decrypted from a peer. -/
def TCElement.received (packet : Packet) (endpoint : Option Endpoint) (peer : Peer) :
    TCElement Peer Endpoint :=
  ⟨packet, endpoint, none, some peer, none, .normal, 0⟩

/-- A result without an error and without calls. -/
def FilterResult.of (action : TCAction) (elem : TCElement Peer Endpoint) :
    FilterResult Peer Endpoint Call :=
  ⟨action, none, elem, []⟩

/-- The tries of `AllowedIPs`, by what a lookup in them finds. -/
structure AllowedIPs (Peer : Type) where
  ipv4 : List UInt8 → Option Peer
  ipv6 : List UInt8 → Option Peer

def AllowedIPs.lookup (table : AllowedIPs Peer) (ip : List UInt8) : Go (Option Peer) :=
  if ip.length = 16 then .ok (table.ipv6 ip)
  else if ip.length = 4 then .ok (table.ipv4 ip)
  else .error (.call "looking up unknown address type")

def tcfAllowedip (allowedips : AllowedIPs Peer) : TCFilter Peer Endpoint Call :=
  fun elem =>
    if elem.toPeer.isSome then return .of .forward elem
    else do
      let ip ← elem.packet.getDstBytes
      match ← allowedips.lookup ip with
      | some peer => return .of .forward {elem with toPeer := some peer}
      | none => return .of .pass elem

def tcfDrop : TCFilter Peer Endpoint Call := fun elem => return .of .drop elem

def tcfBounce : TCFilter Peer Endpoint Call := fun elem =>
  return .of (if elem.incoming then .bounce else .pass) elem

structure Device (Peer Endpoint Call : Type) where
  tcFilters : List (TCFilter Peer Endpoint Call)
  isRunning : Peer → Bool
  /-- The TUN is a `ProtoWriter`. -/
  protoWriter : Bool

/-- A device with the default filters. -/
def newDevice (allowedips : AllowedIPs Peer) (isRunning : Peer → Bool)
    (protoWriter : Bool) : Device Peer Endpoint Call where
  tcFilters := [tcfDrop, tcfBounce, tcfAllowedip allowedips]
  isRunning := isRunning
  protoWriter := protoWriter

def Device.installFilter (dev : Device Peer Endpoint Call)
    (filter : TCFilter Peer Endpoint Call) : Device Peer Endpoint Call :=
  {dev with tcFilters := dev.tcFilters ++ [filter]}

/-- The filters in the order they run; an error drops the packet. -/
def runFilters : List (TCFilter Peer Endpoint Call) → TCFilter Peer Endpoint Call
  | [], elem => return .of .pass elem
  | filter :: rest, elem => do
    let result ← filter elem
    if result.err.isSome then return {result with action := .drop}
    else if result.action ≠ .pass then return result
    else
      let next ← runFilters rest result.elem
      return {next with calls := result.calls ++ next.calls}

/-- What `TCBatch` does with an element: it is parsed, validated and filtered. A
malformed packet and one that passes all filters are dropped. -/
def Device.filterElement (dev : Device Peer Endpoint Call) :
    TCFilter Peer Endpoint Call := fun elem => do
  let (parsed, packet) ← elem.packet.parsePacket
  let elem := {elem with packet := packet}
  if !parsed then return .of .drop elem
  else if !(← packet.validate) then return .of .drop elem
  else
    let result ← runFilters dev.tcFilters.reverse elem
    return if result.action = .pass then {result with action := .drop} else result

/-- The lists `TCBatch` collects. An element to be forwarded has a peer. -/
structure TCState (Peer Endpoint : Type) where
  priority : TCPriority → List (Peer × TCElement Peer Endpoint)
  bouncePkts : List (TCElement Peer Endpoint)
  elemsForPeer : Peer → List (TCElement Peer Endpoint)

def TCState.new : TCState Peer Endpoint := ⟨fun _ => [], [], fun _ => []⟩

/-- Puts a filtered element on its list; without a peer it is not forwarded. -/
def TCState.add (tcs : TCState Peer Endpoint)
    (result : FilterResult Peer Endpoint Call) : TCState Peer Endpoint :=
  match result.action, result.elem.toPeer with
  | .bounce, _ => {tcs with bouncePkts := tcs.bouncePkts ++ [result.elem]}
  | .forward, some peer =>
    { tcs with
      priority := Function.update tcs.priority result.elem.priority
        (tcs.priority result.elem.priority ++ [(peer, result.elem)]) }
  | _, _ => tcs

def Device.collect (dev : Device Peer Endpoint Call)
    (acc : TCState Peer Endpoint × List Call) (elem : TCElement Peer Endpoint) :
    Go (TCState Peer Endpoint × List Call) := do
  let result ← dev.filterElement elem
  return (acc.1.add result, acc.2 ++ result.calls)

inductive TunWrite where
  | write (bufs : List (List UInt8))
  | writeWithProtos (bufs : List (List UInt8)) (protos : List UInt16)
  deriving DecidableEq, Repr

/-- Bounced packets are written in one call, with their ethertypes if the TUN
takes them and one is not IP. -/
def Device.bounce (dev : Device Peer Endpoint Call)
    (pkts : List (TCElement Peer Endpoint)) : Option TunWrite :=
  if pkts.isEmpty then none
  else if dev.protoWriter && pkts.any (·.l3Proto != 0) then
    some (.writeWithProtos (pkts.map (·.packet.data)) (pkts.map (·.l3Proto)))
  else some (.write (pkts.map (·.packet.data)))

structure OutboundElement (Endpoint : Type) where
  endpoint : Option Endpoint
  packet : List UInt8
  deriving DecidableEq, Repr

/-- What leaves a batch: the calls of the filters, what is written to the TUN and
what is staged for each peer. -/
structure Outcome (Peer Endpoint Call : Type) where
  calls : List Call
  tunWrite : Option TunWrite
  staged : Peer → List (OutboundElement Endpoint)

variable [DecidableEq Peer]

/-- The elements for each peer, those of higher priority first. -/
def TCState.byPeer (tcs : TCState Peer Endpoint) : Peer → List (TCElement Peer Endpoint) :=
  ([TCPriority.max, .high, .medium, .normal].flatMap tcs.priority).foldl
    (fun elems entry => Function.update elems entry.1 (elems entry.1 ++ [entry.2]))
    tcs.elemsForPeer

/-- Elements for a peer that is not running are dropped. -/
def Device.stage (dev : Device Peer Endpoint Call)
    (elems : Peer → List (TCElement Peer Endpoint)) (peer : Peer) :
    List (OutboundElement Endpoint) :=
  if dev.isRunning peer then
    (elems peer).map fun elem => ⟨elem.toEp, elem.packet.data⟩
  else []

/-- The state that is returned is empty: all lists are truncated. -/
def Device.tcBatch (dev : Device Peer Endpoint Call)
    (batch : List (TCElement Peer Endpoint)) (tcs : TCState Peer Endpoint) :
    Go (TCState Peer Endpoint × Outcome Peer Endpoint Call) := do
  let (tcs, calls) ← batch.foldlM dev.collect (tcs, [])
  return (.new, ⟨calls, dev.bounce tcs.bouncePkts, dev.stage tcs.byPeer⟩)

end Nylon.Polyamide
