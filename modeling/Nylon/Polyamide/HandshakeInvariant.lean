import Nylon.Polyamide.Handshake

/-!
What the two sides of the fake-TCP transport know of each other. A flow has received the
initial number in its label from a SYN of the peer; once it is established, the peer has had a
flow with that number which has received the number of this one. Every packet that is sent
carries such knowledge, so that it can be relied upon whenever the packet arrives.
-/

namespace Nylon.Polyamide

open Lib State

namespace Side

def HasHad (side : Side) (own peer : UInt32) : Prop :=
  ∃ label ∈ side.had, label.own = own ∧ label.peer = some peer

/-- What a flow may expect next that has received the initial number of this side: the number
behind it, or one behind data. -/
def Expected (side : Side) (first next : UInt32) : Prop :=
  next = first + 1 ∨ ∃ m ∈ side.sent, m.2.EndsAt next

/-- The other side has everything that this one has had and sent. -/
structure Grows (side side' : Side) : Prop where
  had : ∀ label ∈ side.had, label ∈ side'.had
  sent : ∀ m ∈ side.sent, m ∈ side'.sent

theorem Grows.refl (side : Side) : side.Grows side := ⟨fun _ h => h, fun _ h => h⟩

theorem Grows.trans {side side' side'' : Side} (h : side.Grows side')
    (h' : side'.Grows side'') : side.Grows side'' :=
  ⟨fun label hlabel => h'.had label (h.had label hlabel), fun m hm => h'.sent m (h.sent m hm)⟩

end Side

/-- The flow has received the initial number of a flow that has received its own. -/
def FlowLabel.Agrees (label : FlowLabel) (peer : Side) (next : UInt32) : Prop :=
  ∃ first, label.peer = some first ∧ peer.HasHad first label.own ∧ peer.Expected first next

/-- The label describes the flow. -/
def FlowLabel.Fits (label : FlowLabel) (peer : Side) (flow : FakeTCPFlow) : Prop :=
  match flow.state with
  | .synSent => flow.sendNext = label.own + 1 ∧ label.peer = none
  | .synReceived => flow.sendNext = label.own + 1 ∧ label.peer = some (flow.recvNext - 1)
  | .established => label.Agrees peer flow.recvNext

/-- What a packet tells: an acknowledgement, that its flow is established; a SYN with
acknowledgement, that its flow has received the number. -/
structure Side.Vouches (side peer : Side) (packet : FakeTCPPacket) : Prop where
  ack : packet.flags &&& tcpFlagSYN = 0 → ∃ label ∈ side.had, label.Agrees peer packet.ack
  synAck : packet.flags &&& tcpFlagSYN ≠ 0 → packet.flags &&& tcpFlagACK ≠ 0 →
    side.HasHad packet.seq (packet.ack - 1)

/-- The invariant of a side, with respect to its peer. -/
structure Coherent (side peer : Side) : Prop where
  fits : ∀ key flow, side.flow key = some flow → (side.labels key).Fits peer flow
  recorded : ∀ key flow, side.flow key = some flow → side.labels key ∈ side.had
  distinct : ∀ key flow key' flow', side.flow key = some flow → side.flow key' = some flow' →
    (side.labels key).id = (side.labels key').id → key = key'
  hadBefore : ∀ label ∈ side.had, label.id < side.steps
  sentBefore : ∀ m ∈ side.sent, m.1 < side.steps
  /-- Until it is established, a flow has received one number at most. -/
  single : ∀ key flow, side.flow key = some flow → ∀ label ∈ side.had,
    label.id = (side.labels key).id →
    flow.state = .established ∨ label.peer = none ∨ label.peer = (side.labels key).peer
  announced : ∀ label ∈ side.had, ∃ m ∈ side.sent,
    m.1 = label.id ∧ m.2.flags &&& tcpFlagSYN ≠ 0 ∧ m.2.seq = label.own
  vouched : ∀ m ∈ side.sent, side.Vouches peer m.2
  acked : ∀ m ∈ side.sent, m.2.flags &&& tcpFlagSYN = 0 → ∀ key flow,
    side.flow key = some flow → (side.labels key).id = m.1 → flow.state = .established

section Growth

variable {side side' peer peer' : Side} {label : FlowLabel} {flow : FakeTCPFlow}

theorem Side.HasHad.mono {own number : UInt32} (h : side.HasHad own number)
    (hgrows : side.Grows side') : side'.HasHad own number := by
  obtain ⟨label, hlabel, hnumbers⟩ := h
  exact ⟨label, hgrows.had label hlabel, hnumbers⟩

theorem Side.Expected.mono {first next : UInt32} (h : side.Expected first next)
    (hgrows : side.Grows side') : side'.Expected first next := by
  rcases h with h | ⟨m, hm, hend⟩
  · exact Or.inl h
  · exact Or.inr ⟨m, hgrows.sent m hm, hend⟩

theorem FlowLabel.Agrees.mono {next : UInt32} (h : label.Agrees peer next)
    (hgrows : peer.Grows peer') : label.Agrees peer' next := by
  obtain ⟨first, hpeer, hhad, hexpected⟩ := h
  exact ⟨first, hpeer, hhad.mono hgrows, hexpected.mono hgrows⟩

theorem FlowLabel.Fits.mono (h : label.Fits peer flow) (hgrows : peer.Grows peer') :
    label.Fits peer' flow := by
  unfold FlowLabel.Fits at h ⊢
  cases hstate : flow.state with
  | synSent => simpa only [hstate] using h
  | synReceived => simpa only [hstate] using h
  | established =>
    rw [hstate] at h
    exact h.mono hgrows

theorem Side.Vouches.mono {packet : FakeTCPPacket} (h : side.Vouches peer packet)
    (hside : side.Grows side') (hpeer : peer.Grows peer') : side'.Vouches peer' packet := by
  refine ⟨fun hsyn => ?_, fun hsyn hack => (h.synAck hsyn hack).mono hside⟩
  obtain ⟨label, hlabel, hagrees⟩ := h.ack hsyn
  exact ⟨label, hside.had label hlabel, hagrees.mono hpeer⟩

/-- The invariant of a side stays when its peer goes on. -/
theorem Coherent.peer_grows (h : Coherent side peer) (hgrows : peer.Grows peer') :
    Coherent side peer' :=
  { h with
    fits := fun key flow hflow => (h.fits key flow hflow).mono hgrows
    vouched := fun m hm => (h.vouched m hm).mono (.refl side) hgrows }

/-- The invariant of a side stays when it drops flows. -/
theorem Coherent.drop (h : Coherent side peer) {states : FakeTCPStates}
    (hkept : states.KeptFrom side.states) : Coherent {side with states := states} peer := by
  have hflow : ∀ key flow, states.flows.lookup key = some flow → side.flow key = some flow := by
    intro key flow hlookup
    rcases hkept key with hnone | hsame
    · rw [hnone] at hlookup
      cases hlookup
    · exact hsame.symm.trans hlookup
  exact
    { fits := fun key flow hlookup => h.fits key flow (hflow key flow hlookup)
      recorded := fun key flow hlookup => h.recorded key flow (hflow key flow hlookup)
      distinct := fun key flow key' flow' hlookup hlookup' =>
        h.distinct key flow key' flow' (hflow key flow hlookup) (hflow key' flow' hlookup')
      hadBefore := h.hadBefore
      sentBefore := h.sentBefore
      single := fun key flow hlookup => h.single key flow (hflow key flow hlookup)
      announced := h.announced
      vouched := fun m hm =>
        (h.vouched m hm).mono ⟨fun _ hlabel => hlabel, fun _ hm => hm⟩ (.refl peer)
      acked := fun m hm hsyn key flow hlookup =>
        h.acked m hm hsyn key flow (hflow key flow hlookup) }

theorem coherent_start (staleAfter : Time) (peer : Side) : Coherent (.start staleAfter) peer := by
  have hnone : ∀ key flow, (Side.start staleAfter).flow key = some flow → False := by
    intro key flow h
    cases h
  exact
    { fits := fun key flow h => (hnone key flow h).elim
      recorded := fun key flow h => (hnone key flow h).elim
      distinct := fun key flow _ _ h => (hnone key flow h).elim
      hadBefore := fun _ h => absurd h List.not_mem_nil
      sentBefore := fun _ h => absurd h List.not_mem_nil
      single := fun key flow h => (hnone key flow h).elim
      announced := fun _ h => absurd h List.not_mem_nil
      vouched := fun _ h => absurd h List.not_mem_nil
      acked := fun _ h => absurd h List.not_mem_nil }

end Growth

section Advancing

variable {side peer : Side} {after : FakeTCPStates} {incoming : Option FakeTCPPacket}
  {key : FakeTCPFlowKey} {packets : List FakeTCPPacket}

/-- The flow goes on from one that the side had. -/
structure Side.Continues (side : Side) (key : FakeTCPFlowKey) (flow : FakeTCPFlow)
    (label : FlowLabel) : Prop where
  id : label.id = (side.labels key).id
  own : label.own = (side.labels key).own
  old : ∃ old, side.flow key = some old ∧
    (old.state = .established → flow.state = .established)
  peer : flow.state = .established ∨ (side.labels key).peer = none ∨
    label.peer = (side.labels key).peer

/-- The flow is new, and a SYN with its number is among the packets. -/
structure Side.Begins (side : Side) (packets : List FakeTCPPacket) (label : FlowLabel) : Prop where
  id : label.id = side.steps
  announced : ∃ packet ∈ packets, packet.flags &&& tcpFlagSYN ≠ 0 ∧ packet.seq = label.own

/-- What the packet says is true of the flow. -/
structure FlowLabel.Sends (label : FlowLabel) (flow : FakeTCPFlow) (packet : FakeTCPPacket) :
    Prop where
  ack : packet.flags &&& tcpFlagSYN = 0 → flow.state = .established ∧ packet.ack = flow.recvNext
  synAck : packet.flags &&& tcpFlagSYN ≠ 0 → packet.flags &&& tcpFlagACK ≠ 0 →
    packet.seq = label.own ∧ label.peer = some (packet.ack - 1)

/-- A change of the flow table in which every flow goes on or begins, with packets of one of
them. -/
structure Progress (side peer : Side) (after : FakeTCPStates)
    (incoming : Option FakeTCPPacket) (key : FakeTCPFlowKey) (packets : List FakeTCPPacket) :
    Prop where
  fits : ∀ k flow, after.flows.lookup k = some flow →
    (side.nextLabels after incoming k).Fits peer flow
  origin : ∀ k flow, after.flows.lookup k = some flow →
    side.Continues k flow (side.nextLabels after incoming k) ∨
      k = key ∧ side.Begins packets (side.nextLabels after incoming k)
  sends : ∀ packet ∈ packets, ∃ flow, after.flows.lookup key = some flow ∧
    (side.nextLabels after incoming key).Sends flow packet

theorem Side.mem_had_advance {label : FlowLabel} :
    label ∈ (side.advance after incoming key packets).had ↔
      label ∈ side.had ∨ ∃ k flow, after.flows.lookup k = some flow ∧
        side.nextLabels after incoming k = label := by
  simp only [Side.advance, List.mem_append, List.mem_map]
  refine or_congr_right ⟨?_, ?_⟩
  · rintro ⟨⟨k, flow⟩, hentry, rfl⟩
    exact ⟨k, flow, (Table.mem_entries_iff after.flows k flow).mp hentry, rfl⟩
  · rintro ⟨k, flow, hflow, rfl⟩
    exact ⟨⟨k, flow⟩, (Table.mem_entries_iff after.flows k flow).mpr hflow, rfl⟩

theorem Side.mem_sent_advance {m : Nat × FakeTCPPacket} :
    m ∈ (side.advance after incoming key packets).sent ↔ m ∈ side.sent ∨ ∃ packet ∈ packets,
        ((side.nextLabels after incoming key).id, packet.onWire) = m := by
  simp only [Side.advance, List.mem_append, List.mem_map]

theorem Side.grows_advance : side.Grows (side.advance after incoming key packets) :=
  ⟨fun _ h => Side.mem_had_advance.mpr (Or.inl h), fun _ h => Side.mem_sent_advance.mpr (Or.inl h)⟩

namespace Progress

variable (h : Coherent side peer) (hp : Progress side peer after incoming key packets)
include h hp

/-- A label of the flow table afterwards is one from before, up to the number received, or has
a new identity. -/
theorem id_cases {k : FakeTCPFlowKey} {flow : FakeTCPFlow}
    (hflow : after.flows.lookup k = some flow) :
    side.Continues k flow (side.nextLabels after incoming k) ∧
        (side.nextLabels after incoming k).id < side.steps ∨
      k = key ∧ side.Begins packets (side.nextLabels after incoming k) := by
  rcases hp.origin k flow hflow with hcontinues | hbegins
  · obtain ⟨old, hold, _⟩ := hcontinues.old
    refine Or.inl ⟨hcontinues, ?_⟩
    rw [hcontinues.id]
    exact h.hadBefore _ (h.recorded k old hold)
  · exact Or.inr hbegins

theorem id_lt {k : FakeTCPFlowKey} {flow : FakeTCPFlow} (hflow : after.flows.lookup k = some flow) :
    (side.nextLabels after incoming k).id < side.steps + 1 := by
  rcases hp.id_cases h hflow with ⟨_, hlt⟩ | ⟨_, hbegins⟩
  · exact Nat.lt_succ_of_lt hlt
  · rw [hbegins.id]
    exact Nat.lt_succ_self _

theorem distinct {k k' : FakeTCPFlowKey} {flow flow' : FakeTCPFlow}
    (hflow : after.flows.lookup k = some flow) (hflow' : after.flows.lookup k' = some flow')
    (hid : (side.nextLabels after incoming k).id = (side.nextLabels after incoming k').id) :
    k = k' := by
  rcases hp.id_cases h hflow with ⟨hcontinues, hlt⟩ | ⟨rfl, hbegins⟩
  · rcases hp.id_cases h hflow' with ⟨hcontinues', _⟩ | ⟨_, hbegins'⟩
    · obtain ⟨old, hold, _⟩ := hcontinues.old
      obtain ⟨old', hold', _⟩ := hcontinues'.old
      rw [hcontinues.id, hcontinues'.id] at hid
      exact h.distinct k old k' old' hold hold' hid
    · rw [hid, hbegins'.id] at hlt
      exact absurd hlt (Nat.lt_irrefl _)
  · rcases hp.id_cases h hflow' with ⟨_, hlt'⟩ | ⟨rfl, _⟩
    · rw [← hid, hbegins.id] at hlt'
      exact absurd hlt' (Nat.lt_irrefl _)
    · rfl

theorem single {k : FakeTCPFlowKey} {flow : FakeTCPFlow}
    (hflow : after.flows.lookup k = some flow) {label : FlowLabel} (hlabel : label ∈ side.had)
    (hid : label.id = (side.nextLabels after incoming k).id) :
    flow.state = .established ∨ label.peer = none ∨
      label.peer = (side.nextLabels after incoming k).peer := by
  rcases hp.id_cases h hflow with ⟨hcontinues, _⟩ | ⟨_, hbegins⟩
  · obtain ⟨old, hold, hstays⟩ := hcontinues.old
    rcases h.single k old hold label hlabel (hid.trans hcontinues.id) with hest | hnone | hsame
    · exact Or.inl (hstays hest)
    · exact Or.inr (Or.inl hnone)
    · rcases hcontinues.peer with hest | hnone | hpeer
      · exact Or.inl hest
      · exact Or.inr (Or.inl (hsame.trans hnone))
      · exact Or.inr (Or.inr (hsame.trans hpeer.symm))
  · have hlt := h.hadBefore label hlabel
    rw [hid, hbegins.id] at hlt
    exact absurd hlt (Nat.lt_irrefl _)

theorem announced {k : FakeTCPFlowKey} {flow : FakeTCPFlow}
    (hflow : after.flows.lookup k = some flow) :
    ∃ m ∈ (side.advance after incoming key packets).sent,
      m.1 = (side.nextLabels after incoming k).id ∧ m.2.flags &&& tcpFlagSYN ≠ 0 ∧
        m.2.seq = (side.nextLabels after incoming k).own := by
  rcases hp.id_cases h hflow with ⟨hcontinues, _⟩ | ⟨rfl, hbegins⟩
  · obtain ⟨old, hold, _⟩ := hcontinues.old
    obtain ⟨m, hm, hid, hsyn, hseq⟩ := h.announced _ (h.recorded k old hold)
    exact ⟨m, Side.grows_advance.sent m hm, hid.trans hcontinues.id.symm, hsyn,
      hseq.trans hcontinues.own.symm⟩
  · obtain ⟨packet, hpacket, hsyn, hseq⟩ := hbegins.announced
    refine ⟨(_, packet.onWire), Side.mem_sent_advance.mpr (Or.inr ⟨packet, hpacket, rfl⟩),
      rfl, ?_, ?_⟩
    · rw [onWire_flags]
      exact hsyn
    · rw [onWire_seq]
      exact hseq

theorem acked {m : Nat × FakeTCPPacket} (hm : m ∈ side.sent)
    (hsyn : m.2.flags &&& tcpFlagSYN = 0) {k : FakeTCPFlowKey} {flow : FakeTCPFlow}
    (hflow : after.flows.lookup k = some flow)
    (hid : (side.nextLabels after incoming k).id = m.1) : flow.state = .established := by
  rcases hp.id_cases h hflow with ⟨hcontinues, _⟩ | ⟨_, hbegins⟩
  · obtain ⟨old, hold, hstays⟩ := hcontinues.old
    exact hstays (h.acked m hm hsyn k old hold (hcontinues.id.symm.trans hid))
  · have hlt := h.sentBefore m hm
    rw [← hid, hbegins.id] at hlt
    exact absurd hlt (Nat.lt_irrefl _)

omit h in
theorem vouches {packet : FakeTCPPacket} (hpacket : packet ∈ packets) :
    (side.advance after incoming key packets).Vouches peer packet.onWire := by
  obtain ⟨flow, hflow, hsends⟩ := hp.sends packet hpacket
  have hlabel : side.nextLabels after incoming key ∈
      (side.advance after incoming key packets).had :=
    Side.mem_had_advance.mpr (Or.inr ⟨key, flow, hflow, rfl⟩)
  refine ⟨fun hsyn => ?_, fun hsyn hack => ?_⟩
  · rw [onWire_flags] at hsyn
    obtain ⟨hstate, hnumber⟩ := hsends.ack hsyn
    have hfits := hp.fits key flow hflow
    unfold FlowLabel.Fits at hfits
    rw [hstate] at hfits
    refine ⟨_, hlabel, ?_⟩
    rw [onWire_ack, hnumber]
    exact hfits
  · rw [onWire_flags] at hsyn hack
    obtain ⟨hown, hpeer⟩ := hsends.synAck hsyn hack
    refine ⟨_, hlabel, ?_, ?_⟩
    · rw [onWire_seq, hown]
    · rw [onWire_ack, hpeer]

theorem coherent : Coherent (side.advance after incoming key packets) peer where
  fits := hp.fits
  recorded k flow hflow := Side.mem_had_advance.mpr (Or.inr ⟨k, flow, hflow, rfl⟩)
  distinct k flow k' flow' hflow hflow' hid := hp.distinct h hflow hflow' hid
  hadBefore label hlabel := by
    rcases Side.mem_had_advance.mp hlabel with hlabel | ⟨k, flow, hflow, rfl⟩
    · exact Nat.lt_succ_of_lt (h.hadBefore label hlabel)
    · exact hp.id_lt h hflow
  sentBefore m hm := by
    rcases Side.mem_sent_advance.mp hm with hm | ⟨packet, hpacket, rfl⟩
    · exact Nat.lt_succ_of_lt (h.sentBefore m hm)
    · obtain ⟨flow, hflow, _⟩ := hp.sends packet hpacket
      exact hp.id_lt h hflow
  single k flow hflow label hlabel hid := by
    rcases Side.mem_had_advance.mp hlabel with hlabel | ⟨k', flow', hflow', rfl⟩
    · exact hp.single h hflow hlabel hid
    · obtain rfl := hp.distinct h hflow' hflow hid
      exact Or.inr (Or.inr rfl)
  announced label hlabel := by
    rcases Side.mem_had_advance.mp hlabel with hlabel | ⟨k, flow, hflow, rfl⟩
    · obtain ⟨m, hm, hannounces⟩ := h.announced label hlabel
      exact ⟨m, Side.grows_advance.sent m hm, hannounces⟩
    · exact hp.announced h hflow
  vouched m hm := by
    rcases Side.mem_sent_advance.mp hm with hm | ⟨packet, hpacket, rfl⟩
    · exact (h.vouched m hm).mono Side.grows_advance (.refl peer)
    · exact hp.vouches hpacket
  acked m hm hsyn k flow hflow hid := by
    rcases Side.mem_sent_advance.mp hm with hm | ⟨packet, hpacket, rfl⟩
    · exact hp.acked h hm hsyn hflow hid
    · obtain ⟨sender, hsender, hsends⟩ := hp.sends packet hpacket
      obtain rfl := hp.distinct h hflow hsender hid
      obtain rfl := Option.some.inj (hflow.symm.trans hsender)
      rw [onWire_flags] at hsyn
      exact (hsends.ack hsyn).1

end Progress

end Advancing

end Nylon.Polyamide
