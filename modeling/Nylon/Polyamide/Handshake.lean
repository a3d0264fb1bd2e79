import Nylon.Lib.Transitions
import Nylon.Polyamide.FlowSteps

/-!
Two binds that run the fake-TCP transport against each other. Each side keeps its flow table
and reacts to the packets that the other side has sent; the network may deliver any of them
any number of times, in any order and from any address, or never, but it delivers no other
packet. Flows may be deleted at any time.

Beside the code's state, every side records for its flows the numbers they started with: a
flow is told apart from those that had its key before by an identity, it has an initial
number of its own, and the initial number of the peer that it has received. The code only
keeps the numbers that come next.
-/

namespace Nylon.Polyamide

open Lib Netip State

/-- What is known of a flow: its identity, its own initial number, and the one it has
received. -/
structure FlowLabel where
  id : Nat
  own : UInt32
  peer : Option UInt32
  deriving DecidableEq, Repr

/-- The label of a flow after a step. A flow is new if there was none, or if the peer opens
another flow before this one is established, for which the code draws a number again; `syn` is
the initial number in the packet that is received, if it has one. -/
def FlowLabel.next (label : FlowLabel) (fresh : Nat) (syn : Option UInt32) :
    Option FakeTCPFlow → Option FakeTCPFlow → FlowLabel
  | _, none => label
  | none, some flow => ⟨fresh, flow.sendNext - 1, syn⟩
  | some old, some flow =>
    if flow = old ∨ old.state = .established then label
    else if old.state = .synReceived ∧ flow.state = .synReceived ∧ flow.recvNext ≠ old.recvNext then
      ⟨fresh, flow.sendNext - 1, syn⟩
    else {label with peer := syn.orElse fun _ => label.peer}

/-- One side: the flow table of the code, the labels of its flows, all labels that its flows
have had, the packets it has sent, with the identity of the flow that sent them, and the
number of steps. -/
structure Side where
  states : FakeTCPStates
  labels : FakeTCPFlowKey → FlowLabel
  had : List FlowLabel
  sent : List (Nat × FakeTCPPacket)
  steps : Nat

inductive FlowEvent where
  | prepare (enabled isOpen : Bool) (now : Time) (isn : UInt32) (ep : StdNetEndpoint)
  | receive (now : Time) (isn : UInt32) (ep : StdNetEndpoint) (index : Nat)
  | sendData (ep : StdNetEndpoint) (bufs : List Bytes)
  | delete (key : FakeTCPFlowKey)
  deriving DecidableEq, Repr

/-- The packet as the peer sees it: its payload is in a frame. -/
def FakeTCPPacket.onWire (packet : FakeTCPPacket) : FakeTCPPacket :=
  if packet.payload = [] then packet else {packet with payload := encodeFrame packet.payload}

/-- The initial number in a SYN. -/
def FakeTCPPacket.synNumber (packet : FakeTCPPacket) : Option UInt32 :=
  if packet.flags &&& tcpFlagSYN ≠ 0 then some packet.seq else none

namespace Side

def start (staleAfter : Time) : Side :=
  ⟨⟨∅, staleAfter, none⟩, fun _ => ⟨0, 0, none⟩, [], [], 0⟩

def flow (side : Side) (key : FakeTCPFlowKey) : Option FakeTCPFlow :=
  side.states.flows.lookup key

def cleanup (side : Side) (now : Time) : Side :=
  {side with states := cleanupFakeTCPStatesLocked side.states now false}

/-- The labels when the flow table becomes `after`. -/
def nextLabels (side : Side) (after : FakeTCPStates) (incoming : Option FakeTCPPacket)
    (key : FakeTCPFlowKey) : FlowLabel :=
  (side.labels key).next side.steps (incoming.bind FakeTCPPacket.synNumber) (side.flow key)
    (after.flows.lookup key)

/-- The flow table becomes `after`, and the flow of the key sends packets. -/
def advance (side : Side) (after : FakeTCPStates) (incoming : Option FakeTCPPacket)
    (key : FakeTCPFlowKey) (packets : List FakeTCPPacket) : Side :=
  let labels := side.nextLabels after incoming
  { states := after
    labels := labels
    had := side.had ++ after.flows.entries.map fun entry => labels entry.1
    sent := side.sent ++ packets.map fun packet => ((labels key).id, packet.onWire)
    steps := side.steps + 1 }

def step (side peer : Side) : FlowEvent → Side
  | .prepare enabled isOpen now isn ep =>
    let prepared := prepareFakeTCP enabled isOpen side.states now isn ep
    if enabled && isOpen then
      let cleaned := side.cleanup now
      cleaned.advance prepared.states none (preparedFlow cleaned.states ep).1 prepared.packet.toList
    else {side with states := prepared.states}
  | .receive now isn ep index =>
    match peer.sent[index]? with
    | none => side
    | some (_, packet) =>
      let handled := handleFakeTCPPacket side.states now isn ep packet
      let cleaned := side.cleanup now
      cleaned.advance handled.states (some packet)
        (findFakeTCPFlowLocked cleaned.states ep).1 handled.response.toList
  | .sendData ep bufs =>
    match sendFakeTCPData side.states ep bufs with
    | .error _ => side
    | .ok (states, packets) =>
      side.advance states none (findFakeTCPFlowLocked side.states ep).1 packets
  | .delete key => {side with states := {side.states with flows := side.states.flows.erase key}}

end Side

/-- Whether a packet uses a sequence number: a SYN uses one, data one for each byte. -/
def FakeTCPPacket.Uses (packet : FakeTCPPacket) (n : UInt32) : Prop :=
  (n - packet.seq).toNat <
    if packet.flags &&& tcpFlagSYN ≠ 0 then 1 else packet.payload.length

/-- The sequence numbers of different flows do not overlap. -/
def Side.RangesApart (side : Side) : Prop :=
  ∀ m ∈ side.sent, ∀ m' ∈ side.sent, ∀ n, m.2.Uses n → m'.2.Uses n → m.1 = m'.1

inductive Party where
  | left
  | right
  deriving DecidableEq, Repr

structure Pair where
  left : Side
  right : Side

namespace Pair

def start (staleLeft staleRight : Time) : Pair := ⟨.start staleLeft, .start staleRight⟩

def side (pair : Pair) : Party → Side
  | .left => pair.left
  | .right => pair.right

def peer (pair : Pair) : Party → Side
  | .left => pair.right
  | .right => pair.left

def step (pair : Pair) : Party × FlowEvent → Pair
  | (.left, event) => {pair with left := pair.left.step pair.right event}
  | (.right, event) => {pair with right := pair.right.step pair.left event}

abbrev run (pair : Pair) (events : List (Party × FlowEvent)) : Pair :=
  Transitions.run step pair events

end Pair

section Packets

@[simp] theorem onWire_flags (packet : FakeTCPPacket) : packet.onWire.flags = packet.flags := by
  unfold FakeTCPPacket.onWire
  split <;> rfl

@[simp] theorem onWire_seq (packet : FakeTCPPacket) : packet.onWire.seq = packet.seq := by
  unfold FakeTCPPacket.onWire
  split <;> rfl

@[simp] theorem onWire_ack (packet : FakeTCPPacket) : packet.onWire.ack = packet.ack := by
  unfold FakeTCPPacket.onWire
  split <;> rfl

theorem FakeTCPPacket.uses_seq {packet : FakeTCPPacket}
    (h : packet.flags &&& tcpFlagSYN ≠ 0) : packet.Uses packet.seq := by
  rw [FakeTCPPacket.Uses, if_pos h, UInt32.sub_self]
  exact Nat.zero_lt_one

/-- The last number that data uses is the one before its end. -/
theorem FakeTCPPacket.EndsAt.uses {packet : FakeTCPPacket} {n : UInt32}
    (h : packet.EndsAt (n + 1)) : packet.Uses n := by
  obtain ⟨hsyn, hpayload, hend⟩ := h
  have hpos := List.length_pos_iff.mpr hpayload
  have hlast : n - packet.seq = .ofNat packet.payload.length - 1 := by grind
  rw [FakeTCPPacket.Uses, if_neg (not_not.mpr hsyn), hlast, UInt32.toNat_sub, UInt32.toNat_ofNat']
  have hone : (1 : UInt32).toNat = 1 := rfl
  rw [hone]
  omega

end Packets

section Labels

variable {label : FlowLabel} {fresh : Nat} {syn : Option UInt32} {old flow : FakeTCPFlow}

/-- The label of a flow that is dropped or left as it is. -/
theorem FlowLabel.next_kept {before after : Option FakeTCPFlow}
    (h : after = none ∨ after = before) : label.next fresh syn before after = label := by
  rcases h with rfl | rfl
  · cases before <;> rfl
  · cases after with
    | none => rfl
    | some flow => exact if_pos (Or.inl rfl)

theorem FlowLabel.next_established (h : old.state = .established) :
    label.next fresh syn (some old) (some flow) = label :=
  if_pos (Or.inr h)

theorem FlowLabel.next_reopened (hold : old.state = .synReceived)
    (hflow : flow.state = .synReceived) (hne : flow.recvNext ≠ old.recvNext) :
    label.next fresh syn (some old) (some flow) = ⟨fresh, flow.sendNext - 1, syn⟩ := by
  have hchanged : ¬ (flow = old ∨ old.state = .established) := by
    rintro (rfl | hestablished)
    · exact hne rfl
    · rw [hold] at hestablished
      cases hestablished
  dsimp only [FlowLabel.next]
  rw [if_neg hchanged, if_pos ⟨hold, hflow, hne⟩]

/-- A flow that is not opened again keeps its identity and its own number. -/
theorem FlowLabel.next_continued (hold : old.state ≠ .established)
    (hsame : old.state = .synReceived → flow.state = .synReceived → flow.recvNext = old.recvNext)
    (hpeer : flow = old → (syn.orElse fun _ => label.peer) = label.peer) :
    label.next fresh syn (some old) (some flow) =
      {label with peer := syn.orElse fun _ => label.peer} := by
  dsimp only [FlowLabel.next]
  split
  · next hkept =>
    rw [hpeer (hkept.resolve_right hold)]
  · rw [if_neg fun hreopened => hreopened.2.2 (hsame hreopened.1 hreopened.2.1)]

theorem FlowLabel.next_completed (hold : old.state ≠ .established)
    (hflow : flow.state = .established) :
    label.next fresh syn (some old) (some flow) =
      {label with peer := syn.orElse fun _ => label.peer} := by
  refine FlowLabel.next_continued hold (fun _ hreceived => ?_) fun heq => ?_
  · rw [hflow] at hreceived
    cases hreceived
  · rw [heq] at hflow
    exact absurd hflow hold

end Labels

end Nylon.Polyamide
