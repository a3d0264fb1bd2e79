import Nylon.Core.Hold

/-!
Two neighbouring nodes that exchange updates and acknowledgements. Each node
collects what it has to send to the other one in queues, where updates for one
prefix overwrite each other; `flushIO` sends it, one packet at a time here and in
any order. Each direction delivers in order, after any delay. A node
handles the packets of a bundle one after the other and then recomputes its
routes, if one of them was an update; nothing else happens at the node meanwhile.
Seqno requests may come at any time and are not tracked.
-/

namespace Nylon.Network

open State Netip Lib Nylon.Core

/-- The packets of a `TransportBundle` that update routes. -/
inductive Packet where
  | routeOp (u : PubRoute)
  | ackRetractOp (p : Prefix)
  deriving DecidableEq

namespace Packet

def event (neigh : NodeId) (now : Time) : Packet → Event
  | .routeOp u => .neighbourUpdate now neigh u
  | .ackRetractOp p => .ackRetract now neigh p

def retracted : Packet → Option Prefix
  | .routeOp u => if u.metric = INF then some u.pfx else none
  | .ackRetractOp _ => none

/-- The prefix of an update with a finite metric. -/
def announced : Packet → Option Prefix
  | .routeOp u => if u.metric = INF then none else some u.pfx
  | .ackRetractOp _ => none

def acked : Packet → Option Prefix
  | .routeOp _ => none
  | .ackRetractOp p => some p

end Packet

/-- The updates and acknowledgements of an `IOPending`. -/
structure PendingUpdates where
  acks : Table Prefix Unit
  updates : Table Prefix PubRoute

namespace PendingUpdates

/-- `SendRouteUpdate`, `BroadcastSendRouteUpdate` and `SendAckRetract` of a node
in state `s`, as far as the neighbour is concerned. -/
def call (s : RouterState) (neigh : NodeId) (io : PendingUpdates) : RouterCall → PendingUpdates
  | .sendRouteUpdate id u =>
    if id = neigh then {io with updates := io.updates.insert u.pfx u} else io
  | .broadcastSendRouteUpdate u =>
    if neigh ∈ s.neighbours.map (·.id) then
      {io with updates := io.updates.insert u.pfx u}
    else io
  | .sendAckRetract id p =>
    if id = neigh then {io with acks := io.acks.insert p ()} else io
  | _ => io

/-- `GcRouter` forgets what waits for a node that is no neighbour any more. -/
def gc (s : RouterState) (neigh : NodeId) (io : PendingUpdates) : Event → PendingUpdates
  | .runGC _ => if neigh ∈ s.neighbours.map (·.id) then io else ⟨∅, ∅⟩
  | _ => io

def Queued (io : PendingUpdates) : Packet → Prop
  | .routeOp u => io.updates.lookup u.pfx = some u
  | .ackRetractOp p => p ∈ io.acks

instance (io : PendingUpdates) (pkt : Packet) : Decidable (io.Queued pkt) := by
  cases pkt <;> dsimp only [Queued] <;> infer_instance

def remove (io : PendingUpdates) : Packet → PendingUpdates
  | .routeOp u => {io with updates := io.updates.erase u.pfx}
  | .ackRetractOp p => {io with acks := io.acks.erase p}

end PendingUpdates

inductive NodeEvent where
  | act (e : Event)
  | deliver (now : Time)
  | finish (now : Time)
  | flush (pkt : Packet)
  deriving DecidableEq

/-- A node with its pending packets for the other one. `routeUpdated` is set in
the middle of a bundle, between an update and the recomputation. -/
structure Node where
  router : RouterState
  io : PendingUpdates
  routeUpdated : Bool

namespace Node

def act (node : Node) (neigh : NodeId) (e : Event) : Node :=
  let out := step node.router e
  let io := out.2.foldl (PendingUpdates.call node.router neigh) node.io
  {node with router := out.1, io := io.gc out.1 neigh e}

/-- The event the router of the node handles. A packet from a node that is not
a neighbour is dropped (`checkNeigh`). -/
def input (node : Node) (neigh : NodeId) (incoming : Option Packet) : NodeEvent → Option Event
  | .act e => if node.routeUpdated then none else some e
  | .deliver now =>
    if neigh ∈ node.router.neighbours.map (·.id) then
      incoming.map (Packet.event neigh now)
    else none
  | .finish now => if node.routeUpdated then some (.computeRoutes now) else none
  | .flush _ => none

/-- `flushIO` sends what is queued, over an active endpoint. -/
def Flushes (node : Node) (neigh : NodeId) (pkt : Packet) : Prop :=
  node.routeUpdated = false ∧ Connected node.router neigh ∧ node.io.Queued pkt

instance (node : Node) (neigh : NodeId) (pkt : Packet) : Decidable (node.Flushes neigh pkt) :=
  inferInstanceAs (Decidable (_ ∧ _))

def next (node : Node) (neigh : NodeId) (incoming : Option Packet)
    (ev : NodeEvent) : Node :=
  match ev with
  | .flush pkt =>
    if node.Flushes neigh pkt then {node with io := node.io.remove pkt} else node
  | _ =>
    match node.input neigh incoming ev with
    | none => node
    | some e =>
      let updated := match ev, e with
        | .deliver _, .neighbourUpdate _ _ _ => true
        | .deliver _, _ => node.routeUpdated
        | _, _ => false
      {node.act neigh e with routeUpdated := updated}

def sent (node : Node) (neigh : NodeId) : NodeEvent → List Packet
  | .flush pkt => if node.Flushes neigh pkt then [pkt] else []
  | _ => []

end Node

/-- Of the calls of an event, only the updates for a prefix change what is queued
for it. -/
theorem PendingUpdates.lookup_updates_calls {s : RouterState} {neigh : NodeId}
    {calls : List RouterCall} {io : PendingUpdates} {p : Prefix} {u : PubRoute}
    (h : (calls.foldl (PendingUpdates.call s neigh) io).updates.lookup p = some u) :
    io.updates.lookup p = some u ∨ ∃ c ∈ calls, sentUpdate c = some u ∧ u.pfx = p := by
  have hinsert : ∀ (io : PendingUpdates) (v : PubRoute),
      (io.updates.insert v.pfx v).lookup p = some u →
      io.updates.lookup p = some u ∨ v = u ∧ u.pfx = p := by
    intro io v hv
    rw [Table.lookup_insert_eq] at hv
    split at hv
    · next heq => exact Or.inr ⟨Option.some.inj hv, by rw [heq, Option.some.inj hv]⟩
    · exact Or.inl hv
  induction calls generalizing io with
  | nil => exact Or.inl h
  | cons c rest ih =>
    rcases ih h with hcall | ⟨c', hc', hsent⟩
    · unfold call at hcall
      split at hcall
      · split at hcall
        · exact (hinsert io _ hcall).imp_right fun ⟨heq, hpfx⟩ =>
            ⟨_, List.mem_cons_self, congrArg some heq, hpfx⟩
        · exact Or.inl hcall
      · split at hcall
        · exact (hinsert io _ hcall).imp_right fun ⟨heq, hpfx⟩ =>
            ⟨_, List.mem_cons_self, congrArg some heq, hpfx⟩
        · exact Or.inl hcall
      · split at hcall <;> exact Or.inl hcall
      · exact Or.inl hcall
    · exact Or.inr ⟨c', List.mem_cons_of_mem _ hc', hsent⟩

theorem PendingUpdates.mem_acks_calls {s : RouterState} {neigh : NodeId}
    {calls : List RouterCall} {io : PendingUpdates} {p : Prefix}
    (h : p ∈ (calls.foldl (PendingUpdates.call s neigh) io).acks) :
    p ∈ io.acks ∨ RouterCall.sendAckRetract neigh p ∈ calls := by
  induction calls generalizing io with
  | nil => exact Or.inl h
  | cons c rest ih =>
    rcases ih h with hcall | hc'
    · unfold call at hcall
      split at hcall
      · split at hcall <;> exact Or.inl hcall
      · split at hcall <;> exact Or.inl hcall
      · split at hcall
        · next heq =>
          rcases (AList.mem_insert _).mp hcall with rfl | hold
          · exact Or.inr (heq ▸ List.mem_cons_self)
          · exact Or.inl hold
        · exact Or.inl hcall
      · exact Or.inl hcall
    · exact Or.inr (List.mem_cons_of_mem _ hc')

theorem Node.lookup_updates_act {node : Node} {neigh : NodeId} {e : Event}
    {p : Prefix} {u : PubRoute}
    (h : (node.act neigh e).io.updates.lookup p = some u) :
    node.io.updates.lookup p = some u ∨
      ∃ c ∈ (step node.router e).2, sentUpdate c = some u ∧ u.pfx = p := by
  unfold act PendingUpdates.gc at h
  dsimp only at h
  split at h
  · split at h
    · exact PendingUpdates.lookup_updates_calls h
    · cases h
  · exact PendingUpdates.lookup_updates_calls h

theorem Node.mem_acks_act {node : Node} {neigh : NodeId} {e : Event} {p : Prefix}
    (h : p ∈ (node.act neigh e).io.acks) :
    p ∈ node.io.acks ∨ RouterCall.sendAckRetract neigh p ∈ (step node.router e).2 := by
  unfold act PendingUpdates.gc at h
  dsimp only at h
  split at h
  · split at h
    · exact PendingUpdates.mem_acks_calls h
    · cases h
  · exact PendingUpdates.mem_acks_calls h

/-- Where the event that the router handles comes from. -/
theorem Node.input_cases {node : Node} {neigh : NodeId} {incoming : Option Packet}
    {ev : NodeEvent} {e : Event} (h : node.input neigh incoming ev = some e) :
    (ev = .act e ∧ node.routeUpdated = false) ∨
    (∃ now pkt, ev = .deliver now ∧ incoming = some pkt ∧
      neigh ∈ node.router.neighbours.map (·.id) ∧ e = pkt.event neigh now) ∨
    ∃ now, ev = .finish now ∧ e = .computeRoutes now := by
  unfold input at h
  split at h
  · split at h
    · cases h
    · next hidle =>
      exact Or.inl ⟨by rw [Option.some.inj h], by simpa using hidle⟩
  · next now =>
    split at h
    · next hneigh =>
      obtain ⟨pkt, hpkt, rfl⟩ := Option.map_eq_some_iff.mp h
      exact Or.inr (Or.inl ⟨now, pkt, rfl, hpkt, hneigh, rfl⟩)
    · cases h
  · next now =>
    split at h
    · exact Or.inr (Or.inr ⟨now, rfl, (Option.some.inj h).symm⟩)
    · cases h
  · cases h

theorem Node.next_of_input_some {node : Node} {neigh : NodeId}
    {incoming : Option Packet} {ev : NodeEvent} {e : Event}
    (h : node.input neigh incoming ev = some e) :
    (node.next neigh incoming ev).router = (step node.router e).1 ∧
    (node.next neigh incoming ev).io = (node.act neigh e).io ∧
    node.sent neigh ev = [] := by
  cases ev with
  | flush pkt => cases h
  | act e' => simp [next, h, sent, act]
  | deliver now => simp [next, h, sent, act]
  | finish now => simp [next, h, sent, act]

/-- A packet on its way, with the number of holds of its prefix that had begun
when it was sent. The number is not part of the packet. -/
structure Sent where
  packet : Packet
  hold : Nat
  deriving DecidableEq

/-- Nodes `A` and `B` and the packets between them. Of each prefix, `holds`
counts the holds that `A` has begun, and `seen` is the hold in which the last
retraction was sent that `B` has processed. -/
structure Pair where
  a : Node
  b : Node
  ab : List Sent
  ba : List Packet
  holds : Prefix → Nat
  seen : Prefix → Nat

inductive PairEvent where
  | atA (ev : NodeEvent)
  | atB (ev : NodeEvent)
  deriving DecidableEq

namespace Pair

variable (A B : NodeId)

/-- The state on which `A` runs `computeRoutes` in an event. -/
def runA (pair : Pair) : PairEvent → Option (RouterState × Time)
  | .atA ev => (pair.a.input B pair.ba.head? ev).bind (recompute pair.a.router)
  | .atB _ => none

def holdsAfter (pair : Pair) (ev : PairEvent) (p : Prefix) : Nat :=
  if (pair.runA B ev).any fun run => startsHold run.1 run.2 p then
    pair.holds p + 1
  else pair.holds p

/-- The updates of `A` carry the number of the present hold of their prefix. -/
def stamp (pair : Pair) (pkt : Packet) : Sent :=
  ⟨pkt, (pkt.retracted.map pair.holds).getD 0⟩

def seenAfter (pair : Pair) : NodeEvent → Prefix → Nat
  | .deliver _ =>
    match pair.ab.head? with
    | none => pair.seen
    | some m =>
      match m.packet.retracted with
      | none => pair.seen
      | some p =>
        if A ∈ pair.b.router.neighbours.map (·.id) then
          Function.update pair.seen p m.hold
        else pair.seen
  | _ => pair.seen

def channelAfter {α : Type} (channel : List α) : NodeEvent → List α
  | .deliver _ => channel.tail
  | _ => channel

def step (pair : Pair) : PairEvent → Pair
  | .atA ev =>
    { pair with
      a := pair.a.next B pair.ba.head? ev
      ab := pair.ab ++ (pair.a.sent B ev).map pair.stamp
      ba := channelAfter pair.ba ev
      holds := pair.holdsAfter B (.atA ev) }
  | .atB ev =>
    { pair with
      b := pair.b.next A (pair.ab.head?.map (·.packet)) ev
      ab := channelAfter pair.ab ev
      ba := pair.ba ++ pair.b.sent A ev
      seen := pair.seenAfter A ev }

def init (tunablesA tunablesB : RouterTunables) : Pair where
  a := ⟨RouterState.init tunablesA A, ⟨∅, ∅⟩, false⟩
  b := ⟨RouterState.init tunablesB B, ⟨∅, ∅⟩, false⟩
  ab := []
  ba := []
  holds := fun _ => 0
  seen := fun _ => 0

end Pair

end Nylon.Network
