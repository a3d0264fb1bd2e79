import Nylon.Lib.RangeLoop
import Nylon.Lib.Reuse
import Nylon.Polyamide.FilterChain

/-!
`TCBatch` with the memory it works on. The slices and the map of a `TCState` are used
for one batch after the other: they are truncated, never replaced, and the map keeps its
keys. Elements and their message buffers are told apart by numbers; what a batch does
with them, with the TUN and with the peers is a list of effects.
-/

namespace Nylon.Polyamide

open Lib

/-- What a `*TCElement` points to. -/
structure PooledElement (Peer Endpoint : Type) where
  id : Nat
  buffer : Nat
  elem : TCElement Peer Endpoint
  deriving DecidableEq, Repr

/-- An outbound element that took over the buffer of an element. -/
structure StagedElement (Endpoint : Type) extends OutboundElement Endpoint where
  buffer : Nat
  deriving DecidableEq, Repr

inductive BatchEffect (Peer Endpoint Call : Type) where
  | call (c : Call)
  | putMessageBuffer (buffer : Nat)
  | putTCElement (id : Nat)
  | tunWrite (w : TunWrite)
  | stagePackets (peer : Peer) (elems : List (StagedElement Endpoint))
  | sendStagedPackets (peer : Peer)
  deriving DecidableEq, Repr

/-- The fields of `TCState`. A cell of a slice of pointers may be `nil`; an element with
a priority has a peer. -/
structure TCQueues (Peer Endpoint : Type) where
  priority : TCPriority → Slice (Option (Peer × PooledElement Peer Endpoint))
  bouncePkts : Slice (Option (PooledElement Peer Endpoint))
  bounceBufs : Slice (List UInt8)
  bounceProtos : Slice UInt16
  elemsForPeer : Table Peer (Slice (Option (PooledElement Peer Endpoint)))

def TCQueues.new {Peer Endpoint : Type} : TCQueues Peer Endpoint :=
  ⟨fun _ => .empty, .empty, .empty, .empty, ∅⟩

/-- An element of a batch. A filter may keep state of its own, so that each element meets
the filters as they are at its turn. -/
structure Turn (Peer Endpoint Call : Type) where
  elem : PooledElement Peer Endpoint
  filters : List (TCFilter Peer Endpoint Call)

/-- What a batch finds: the device, and the order in which the map is walked. -/
structure BatchEnv (Peer Endpoint Call : Type) where
  dev : Device Peer Endpoint Call
  order : Table.Walk Peer (Slice (Option (PooledElement Peer Endpoint)))

/-- An element after the filters. -/
structure Processed (Peer Endpoint Call : Type) where
  elem : PooledElement Peer Endpoint
  action : TCAction
  calls : List Call
  deriving DecidableEq, Repr

variable {Peer Endpoint Call : Type}

def BatchEnv.process (env : BatchEnv Peer Endpoint Call) (turn : Turn Peer Endpoint Call) :
    Go (Processed Peer Endpoint Call) := do
  let result ← {env.dev with tcFilters := turn.filters}.filterElement turn.elem.elem
  return ⟨{turn.elem with elem := result.elem}, result.action, result.calls⟩

def PooledElement.put (elem : PooledElement Peer Endpoint) :
    List (BatchEffect Peer Endpoint Call) :=
  [.putMessageBuffer elem.buffer, .putTCElement elem.id]

def PooledElement.outbound (elem : PooledElement Peer Endpoint) : StagedElement Endpoint :=
  ⟨⟨elem.elem.toEp, elem.elem.packet.data⟩, elem.buffer⟩

namespace TCQueues

def pushBounce (q : TCQueues Peer Endpoint) (elem : PooledElement Peer Endpoint) :
    TCQueues Peer Endpoint :=
  {q with bouncePkts := q.bouncePkts.append (some elem)}

def pushPriority (q : TCQueues Peer Endpoint) (peer : Peer)
    (elem : PooledElement Peer Endpoint) : TCQueues Peer Endpoint :=
  { q with
    priority := Function.update q.priority elem.elem.priority
      ((q.priority elem.elem.priority).append (some (peer, elem))) }

/-- The `switch` of the first loop. -/
def add (q : TCQueues Peer Endpoint) (x : Processed Peer Endpoint Call) :
    Go (TCQueues Peer Endpoint × List (BatchEffect Peer Endpoint Call)) :=
  match x.action, x.elem.elem.toPeer with
  | .drop, _ => return (q, x.elem.put)
  | .bounce, _ => return (q.pushBounce x.elem, [])
  | .forward, none => return (q, x.elem.put)
  | .forward, some peer => return (q.pushPriority peer x.elem, [])
  | .pass, _ => .error (.call "unreachable default case")

def dispatch (env : BatchEnv Peer Endpoint Call)
    (acc : TCQueues Peer Endpoint × List (BatchEffect Peer Endpoint Call))
    (turn : Turn Peer Endpoint Call) :
    Go (TCQueues Peer Endpoint × List (BatchEffect Peer Endpoint Call)) := do
  let x ← env.process turn
  let (q, effects) ← acc.1.add x
  return (q, acc.2 ++ x.calls.map .call ++ effects)

/-- Bounced packets are written in one call, and then put back. -/
def bounce (dev : Device Peer Endpoint Call) (q : TCQueues Peer Endpoint) :
    Go (TCQueues Peer Endpoint × List (BatchEffect Peer Endpoint Call)) :=
  if q.bouncePkts.len = 0 then return (q, [])
  else do
    let elems ← q.bouncePkts.data.mapM Go.deref
    let bufs := elems.foldl (fun s elem => s.append elem.elem.packet.data) q.bounceBufs
    let protos := elems.foldl (fun s elem => s.append elem.elem.l3Proto) q.bounceProtos
    let hasNonIP := elems.any fun elem => elem.elem.l3Proto != 0
    let write := if dev.protoWriter && hasNonIP then
        TunWrite.writeWithProtos bufs.data protos.data
      else TunWrite.write bufs.data
    return ({ q with
      bouncePkts := (q.bouncePkts.fill none).truncate
      bounceBufs := (bufs.fill []).truncate
      bounceProtos := (protos.fill 0).truncate },
      .tunWrite write :: elems.flatMap PooledElement.put)

variable [DecidableEq Peer]

/-- The element is appended to those of its peer; a `nil` cell is skipped. -/
def pushPeer (q : TCQueues Peer Endpoint)
    (entry : Option (Peer × PooledElement Peer Endpoint)) : TCQueues Peer Endpoint :=
  match entry with
  | none => q
  | some (peer, elem) =>
    { q with
      elemsForPeer := q.elemsForPeer.insert peer
        (((q.elemsForPeer.lookup peer).getD .empty).append (some elem)) }

def arrangeAt (q : TCQueues Peer Endpoint) (p : TCPriority) : TCQueues Peer Endpoint :=
  let moved := (q.priority p).data.foldl pushPeer q
  { moved with
    priority := Function.update moved.priority p ((moved.priority p).fill none).truncate }

/-- The elements with a priority, the highest one first. -/
def arrange (q : TCQueues Peer Endpoint) : TCQueues Peer Endpoint :=
  [TCPriority.max, .high, .medium, .normal].foldl arrangeAt q

/-- The elements of one peer are staged, or put back if the peer is not running. -/
def stagePeer (dev : Device Peer Endpoint Call) (peer : Peer)
    (elems : List (PooledElement Peer Endpoint)) : List (BatchEffect Peer Endpoint Call) :=
  if dev.isRunning peer then
    elems.map (fun elem => .putTCElement elem.id) ++
      [.stagePackets peer (elems.map PooledElement.outbound), .sendStagedPackets peer]
  else elems.flatMap PooledElement.put

/-- The body of the last loop. -/
def stage (dev : Device Peer Endpoint Call)
    (acc : TCQueues Peer Endpoint × List (BatchEffect Peer Endpoint Call))
    (entry : Σ _ : Peer, Slice (Option (PooledElement Peer Endpoint))) :
    Go (TCQueues Peer Endpoint × List (BatchEffect Peer Endpoint Call)) :=
  if entry.2.len = 0 then return acc
  else do
    let elems ← entry.2.data.mapM Go.deref
    return ({ acc.1 with
      elemsForPeer := acc.1.elemsForPeer.insert entry.1 (entry.2.fill none).truncate },
      acc.2 ++ stagePeer dev entry.1 elems)

def tcBatch (env : BatchEnv Peer Endpoint Call) (turns : List (Turn Peer Endpoint Call))
    (q : TCQueues Peer Endpoint) :
    Go (TCQueues Peer Endpoint × List (BatchEffect Peer Endpoint Call)) := do
  let (q, dispatched) ← turns.foldlM (dispatch env) (q, [])
  let (q, bounced) ← q.bounce env.dev
  let q := q.arrange
  let (q, staged) ← (env.order.walk q.elemsForPeer).entries.foldlM (stage env.dev) (q, [])
  return (q, dispatched ++ bounced ++ staged)

/-- One batch after the other, with the effects of each. -/
def tcBatches : List (BatchEnv Peer Endpoint Call × List (Turn Peer Endpoint Call)) →
    TCQueues Peer Endpoint →
    Go (TCQueues Peer Endpoint × List (List (BatchEffect Peer Endpoint Call)))
  | [], q => return (q, [])
  | (env, turns) :: rest, q => do
    let (q, effects) ← tcBatch env turns q
    let (q, others) ← tcBatches rest q
    return (q, effects :: others)

structure Empty (q : TCQueues Peer Endpoint) : Prop where
  priority : ∀ p, (q.priority p).data = []
  bouncePkts : q.bouncePkts.data = []
  bounceBufs : q.bounceBufs.data = []
  bounceProtos : q.bounceProtos.data = []
  elemsForPeer : ∀ peer s, q.elemsForPeer.lookup peer = some s → s.data = []

end TCQueues

end Nylon.Polyamide
