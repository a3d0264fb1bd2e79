import Nylon.Polyamide.CarrierSpec
import Nylon.Polyamide.FakeTCPSend

/-!
The states of a fake-TCP flow. Opening a flow, receiving a packet and sending data each drop
stale flows and then take at most one flow from one state to the next; `FlowStep` lists these
transitions with the packets that are sent in them.
-/

namespace Nylon.Polyamide

open Lib Netip State

def FakeTCPFlow.synAck (flow : FakeTCPFlow) : FakeTCPPacket :=
  ⟨tcpFlagSYN ||| tcpFlagACK, flow.sendNext - 1, flow.recvNext, []⟩

theorem ack_and_syn : tcpFlagACK &&& tcpFlagSYN = 0 := by decide

/-- The packet acknowledges what the flow has received, and is no SYN. -/
def FakeTCPFlow.AckedBy (flow : FakeTCPFlow) (packet : FakeTCPPacket) : Prop :=
  packet.flags &&& tcpFlagSYN = 0 ∧ packet.ack = flow.recvNext

/-- The number behind the data of a packet. -/
def FakeTCPPacket.EndsAt (packet : FakeTCPPacket) (n : UInt32) : Prop :=
  packet.flags &&& tcpFlagSYN = 0 ∧ packet.payload ≠ [] ∧
    n = packet.seq + .ofNat packet.payload.length

/-- What a flow expects next only moves to the end of data that is received. -/
def MovesTo (incoming : Option FakeTCPPacket) (old flow : FakeTCPFlow) : Prop :=
  flow.recvNext = old.recvNext ∨ ∃ packet ∈ incoming, packet.EndsAt flow.recvNext

/-- One transition: the packet that is received, if any, the flow before, if there is one, the
flow after, and the packets that are sent. -/
inductive FlowStep : Option FakeTCPPacket → Option FakeTCPFlow → FakeTCPFlow →
    List FakeTCPPacket → Prop
  /-- A flow is opened. -/
  | opened {flow : FakeTCPFlow} (hstate : flow.state = .synSent) :
      FlowStep none none flow [openingPacket flow]
  /-- The opening packet is sent again. -/
  | retried {old flow : FakeTCPFlow} (hopen : old.state ≠ .established)
      (hstate : flow.state = old.state) (hsend : flow.sendNext = old.sendNext)
      (hrecv : flow.recvNext = old.recvNext) :
      FlowStep none (some old) flow [openingPacket flow]
  /-- The peer opens a flow that this side does not know. -/
  | listened {packet : FakeTCPPacket} {flow : FakeTCPFlow}
      (hsyn : packet.flags &&& tcpFlagSYN ≠ 0) (hstate : flow.state = .synReceived)
      (hrecv : flow.recvNext = packet.seq + 1) :
      FlowStep (some packet) none flow [flow.synAck]
  /-- The peer opens the flow that this side has opened too, or opens it again. -/
  | received {packet : FakeTCPPacket} {old flow : FakeTCPFlow}
      (hsyn : packet.flags &&& tcpFlagSYN ≠ 0)
      (hopen : old.state = .synSent ∨ old.state = .synReceived ∧ old.recvNext = packet.seq + 1)
      (hstate : flow.state = .synReceived) (hsend : flow.sendNext = old.sendNext)
      (hrecv : flow.recvNext = packet.seq + 1) :
      FlowStep (some packet) (some old) flow [flow.synAck]
  /-- The peer opens another flow before this one is established. -/
  | reopened {packet : FakeTCPPacket} {old flow : FakeTCPFlow}
      (hsyn : packet.flags &&& tcpFlagSYN ≠ 0) (hopen : old.state = .synReceived)
      (hother : old.recvNext ≠ packet.seq + 1) (hstate : flow.state = .synReceived)
      (hrecv : flow.recvNext = packet.seq + 1) :
      FlowStep (some packet) (some old) flow [flow.synAck]
  /-- The peer accepts the flow. -/
  | accepted {packet reply : FakeTCPPacket} {old flow : FakeTCPFlow}
      (hsyn : packet.flags &&& tcpFlagSYN ≠ 0) (hack : packet.flags &&& tcpFlagACK ≠ 0)
      (hopen : old.state ≠ .established) (hnumber : packet.ack = old.sendNext)
      (hstate : flow.state = .established) (hrecv : flow.recvNext = packet.seq + 1)
      (hreply : flow.AckedBy reply) :
      FlowStep (some packet) (some old) flow [reply]
  /-- The peer acknowledges that its flow is accepted. -/
  | completed {packet : FakeTCPPacket} {old flow : FakeTCPFlow} {replies : List FakeTCPPacket}
      (hsyn : packet.flags &&& tcpFlagSYN = 0) (hopen : old.state = .synReceived)
      (hnumber : packet.ack = old.sendNext) (hstate : flow.state = .established)
      (hrecv : MovesTo (some packet) old flow)
      (hreplies : ∀ reply ∈ replies, flow.AckedBy reply) :
      FlowStep (some packet) (some old) flow replies
  /-- An established flow stays so. -/
  | kept {incoming : Option FakeTCPPacket} {old flow : FakeTCPFlow}
      {replies : List FakeTCPPacket} (hopen : old.state = .established)
      (hstate : flow.state = .established) (hrecv : MovesTo incoming old flow)
      (hreplies : ∀ reply ∈ replies, flow.AckedBy reply) :
      FlowStep incoming (some old) flow replies

/-- Some flows are dropped, the others are left as they are. -/
def FakeTCPStates.KeptFrom (after before : FakeTCPStates) : Prop :=
  ∀ key, after.flows.lookup key = none ∨ after.flows.lookup key = before.flows.lookup key

/-- At most one flow makes a transition. -/
def Changes (incoming : Option FakeTCPPacket) (before after : FakeTCPStates)
    (key : FakeTCPFlowKey) (packets : List FakeTCPPacket) : Prop :=
  after.KeptFrom before ∧ packets = [] ∨
    ∃ (kept : FakeTCPStates) (flow : FakeTCPFlow), kept.KeptFrom before ∧ after = kept.setFlow key flow ∧
      FlowStep incoming (before.flows.lookup key) flow packets

section Tables

variable {s : FakeTCPStates} {now : Time} {ep : StdNetEndpoint}

theorem FakeTCPStates.KeptFrom.refl (s : FakeTCPStates) : s.KeptFrom s := fun _ => Or.inr rfl

theorem cleanup_keptFrom (s : FakeTCPStates) (now : Time) (force : Bool) :
    (cleanupFakeTCPStatesLocked s now force).KeptFrom s := by
  intro key
  unfold cleanupFakeTCPStatesLocked
  split
  · exact Or.inr rfl
  · split
    · exact Or.inr rfl
    · refine Table.range_invariant s.flows _ s.flows
        (fun flows => flows.lookup key = none ∨ flows.lookup key = s.flows.lookup key)
        (Or.inr rfl) ?_
      intro flows stale flow _ hkept
      split
      · rw [Table.lookup_erase_eq]
        split
        · exact Or.inl rfl
        · exact hkept
      · exact hkept

theorem erase_keptFrom (s : FakeTCPStates) (key : FakeTCPFlowKey) :
    FakeTCPStates.KeptFrom {s with flows := s.flows.erase key} s := by
  intro other
  rw [Table.lookup_erase_eq]
  split
  · exact Or.inl rfl
  · exact Or.inr rfl

theorem find_eq_lookup (s : FakeTCPStates) (ep : StdNetEndpoint) :
    (findFakeTCPFlowLocked s ep).2 = s.flows.lookup (findFakeTCPFlowLocked s ep).1 := by
  unfold findFakeTCPFlowLocked
  dsimp only
  cases hflow : s.flows.lookup (fakeTCPKey ep) with
  | some flow => exact hflow.symm
  | none =>
    cases (fakeTCPKey ep).localAddr with
    | none => exact hflow.symm
    | some addr =>
      dsimp only
      split
      · next hwildcard => exact hwildcard.symm
      · exact hflow.symm

theorem passiveFlow_lookup {key found : FakeTCPFlowKey} {flow : FakeTCPFlow}
    (h : passiveFlow s key = some (found, flow)) : s.flows.lookup found = some flow := by
  suffices hall : ∀ entry ∈ passiveFlow s key, s.flows.lookup entry.1 = some entry.2 from
    hall (found, flow) h
  refine Table.range_invariant s.flows _ none
    (fun best : Option (FakeTCPFlowKey × FakeTCPFlow) =>
      ∀ entry ∈ best, s.flows.lookup entry.1 = some entry.2)
    (fun entry hentry => absurd hentry (Option.not_mem_none entry)) ?_
  intro best candidateKey candidate hlookup hbest
  split
  · exact hbest
  · split
    · intro entry hentry
      obtain rfl := Option.mem_some_iff.mp hentry
      exact hlookup
    · exact hbest

theorem preparedFlow_eq_lookup (s : FakeTCPStates) (ep : StdNetEndpoint) :
    (preparedFlow s ep).2 = s.flows.lookup (preparedFlow s ep).1 := by
  unfold preparedFlow
  dsimp only
  cases hflow : s.flows.lookup (fakeTCPKey ep) with
  | some flow => exact hflow.symm
  | none =>
    dsimp only
    cases (fakeTCPKey ep).localAddr.any isUnspecified with
    | false => exact hflow.symm
    | true =>
      cases hpassive : passiveFlow s (fakeTCPKey ep) with
      | none => exact hflow.symm
      | some found => exact (passiveFlow_lookup hpassive).symm

/-- The table in which a new flow is put: it may have been cleaned to make room. -/
theorem makeRoom_keptFrom (s : FakeTCPStates) (now : Time) :
    (if fakeTCPStateLimit ≤ s.flows.entries.length then
      cleanupFakeTCPStatesLocked s now true else s).KeptFrom s := by
  split
  · exact cleanup_keptFrom s now true
  · exact .refl s

end Tables

section Receiving

variable {s : FakeTCPStates} {now : Time} {isn : UInt32} {key : FakeTCPFlowKey}
  {flow : FakeTCPFlow} {packet : FakeTCPPacket}

theorem handleSYN_changes (hsyn : packet.flags &&& tcpFlagSYN ≠ 0) :
    let handled := handleSYN s now isn key (s.flows.lookup key) packet
    Changes (some packet) s handled.states key handled.response.toList := by
  intro handled
  subst handled
  cases hflow : s.flows.lookup key with
  | none =>
    simp only [handleSYN]
    have hkept := makeRoom_keptFrom s now
    generalize (if fakeTCPStateLimit ≤ s.flows.entries.length then
      cleanupFakeTCPStatesLocked s now true else s) = cleaned at hkept ⊢
    split
    · exact Or.inl ⟨hkept, rfl⟩
    · refine Or.inr ⟨cleaned, _, hkept, rfl, ?_⟩
      rw [hflow]
      exact .listened hsyn rfl rfl
  | some old =>
    simp only [handleSYN]
    split
    · exact Or.inl ⟨.refl s, rfl⟩
    · next hopen =>
      split
      · next hother =>
        refine Or.inr ⟨s, _, .refl s, rfl, ?_⟩
        rw [hflow]
        exact .reopened hsyn hother.1 hother.2 rfl rfl
      · next hsame =>
        refine Or.inr ⟨s, _, .refl s, rfl, ?_⟩
        rw [hflow]
        refine .received hsyn ?_ rfl rfl rfl
        cases hstate : old.state with
        | synSent => exact Or.inl rfl
        | synReceived =>
          refine Or.inr ⟨rfl, ?_⟩
          by_contra hne
          exact hsame ⟨hstate, hne⟩
        | established => exact absurd hstate hopen

theorem handleSYNACK_changes (hsyn : packet.flags &&& tcpFlagSYN ≠ 0)
    (hack : packet.flags &&& tcpFlagACK ≠ 0) :
    let handled := handleSYNACK s now key (s.flows.lookup key) packet
    Changes (some packet) s handled.states key handled.response.toList := by
  intro handled
  subst handled
  cases hflow : s.flows.lookup key with
  | none => exact Or.inl ⟨.refl s, rfl⟩
  | some old =>
    simp only [handleSYNACK]
    split
    · next hstate =>
      split
      · refine Or.inr ⟨s, _, .refl s, rfl, ?_⟩
        rw [hflow]
        refine .kept hstate hstate (Or.inl rfl) fun reply hreply => ?_
        obtain rfl := List.mem_singleton.mp hreply
        exact ⟨ack_and_syn, rfl⟩
      · exact Or.inl ⟨.refl s, rfl⟩
    · next hopen =>
      split
      · exact Or.inl ⟨.refl s, rfl⟩
      · next hnumber =>
        refine Or.inr ⟨s, _, .refl s, rfl, ?_⟩
        rw [hflow]
        exact .accepted hsyn hack hopen (not_not.mp hnumber) rfl rfl ⟨ack_and_syn, rfl⟩

/-- Data of an established flow moves what it expects next, or nothing. -/
theorem handleData_eq (s : FakeTCPStates) (now : Time) (key : FakeTCPFlowKey)
    (flow : FakeTCPFlow) (hsyn : packet.flags &&& tcpFlagSYN = 0) (hstate : flow.state = .established) :
    ∃ flow', (handleData s now key flow packet).states = s.setFlow key flow' ∧
      flow'.state = .established ∧ MovesTo (some packet) flow flow' ∧
      ∀ reply ∈ (handleData s now key flow packet).response.toList, flow'.AckedBy reply := by
  unfold handleData
  dsimp only
  split
  · exact ⟨_, rfl, hstate, Or.inl rfl, fun reply hreply => absurd hreply List.not_mem_nil⟩
  · next hpayload =>
    split
    · have hadvance : ∀ n, n = packet.seq + UInt32.ofNat packet.payload.length →
          packet.EndsAt n := fun n hn => ⟨hsyn, hpayload, hn⟩
      split
      · refine ⟨_, rfl, hstate, Or.inr ⟨packet, rfl, hadvance _ rfl⟩, fun reply hreply => ?_⟩
        obtain rfl := List.mem_singleton.mp hreply
        exact ⟨ack_and_syn, rfl⟩
      · exact ⟨_, rfl, hstate, Or.inr ⟨packet, rfl, hadvance _ rfl⟩,
          fun reply hreply => absurd hreply List.not_mem_nil⟩
    · split
      · refine ⟨_, rfl, hstate, Or.inl rfl, fun reply hreply => ?_⟩
        obtain rfl := List.mem_singleton.mp hreply
        exact ⟨ack_and_syn, rfl⟩
      · exact ⟨_, rfl, hstate, Or.inl rfl, fun reply hreply => absurd hreply List.not_mem_nil⟩

theorem handleData_established (s : FakeTCPStates) (now : Time) (key : FakeTCPFlowKey)
    (flow : FakeTCPFlow) (hsyn : packet.flags &&& tcpFlagSYN = 0)
    (hstate : flow.state = .established) :
    ∃ flow', (handleData s now key flow packet).states.flows.lookup key = some flow' ∧
      flow'.state = .established := by
  obtain ⟨flow', hstates, hstate', _⟩ := handleData_eq s now key flow hsyn hstate
  rw [hstates]
  exact ⟨flow', AList.lookup_insert _, hstate'⟩

theorem handleACK_changes (hsyn : packet.flags &&& tcpFlagSYN = 0)
    (hflow : s.flows.lookup key = some flow) :
    let handled := handleACK s now key flow packet
    Changes (some packet) s handled.states key handled.response.toList := by
  intro handled
  subst handled
  unfold handleACK
  split
  · next hcompletes =>
    split
    · exact Or.inl ⟨.refl s, rfl⟩
    · obtain ⟨flow', hstates, hstate, hrecv, hreplies⟩ :=
        handleData_eq s now key {flow with state := .established} hsyn rfl
      refine Or.inr ⟨s, flow', .refl s, hstates, ?_⟩
      rw [hflow]
      exact .completed hsyn hcompletes.1 hcompletes.2.2 hstate hrecv hreplies
  · split
    · exact Or.inl ⟨.refl s, rfl⟩
    · next hopen =>
      obtain ⟨flow', hstates, hstate, hrecv, hreplies⟩ :=
        handleData_eq s now key flow hsyn (not_not.mp hopen)
      refine Or.inr ⟨s, flow', .refl s, hstates, ?_⟩
      rw [hflow]
      exact .kept (not_not.mp hopen) hstate hrecv hreplies

end Receiving

/-- What a received packet does to the flow table. -/
theorem handleFakeTCPPacket_changes (s : FakeTCPStates) (now : Time) (isn : UInt32)
    (ep : StdNetEndpoint) (packet : FakeTCPPacket) :
    let before := cleanupFakeTCPStatesLocked s now false
    let handled := handleFakeTCPPacket s now isn ep packet
    Changes (some packet) before handled.states (findFakeTCPFlowLocked before ep).1
      handled.response.toList := by
  intro before handled
  subst handled
  have hfound := find_eq_lookup before ep
  unfold handleFakeTCPPacket
  dsimp only
  split
  · exact Or.inl ⟨erase_keptFrom before _, rfl⟩
  · split
    · next hsyn =>
      split
      · rw [hfound]
        exact handleSYN_changes hsyn
      · next hack =>
        rw [hfound]
        exact handleSYNACK_changes hsyn hack
    · next hsyn =>
      split
      · exact Or.inl ⟨.refl before, rfl⟩
      · next flow hflow => exact handleACK_changes (not_not.mp hsyn) (hfound.symm.trans hflow)

/-- Opening a flow, or trying to again. -/
theorem prepareFakeTCP_changes (s : FakeTCPStates) (now : Time) (isn : UInt32)
    (ep : StdNetEndpoint) :
    let before := cleanupFakeTCPStatesLocked s now false
    let prepared := prepareFakeTCP true true s now isn ep
    Changes none before prepared.states (preparedFlow before ep).1 prepared.packet.toList := by
  dsimp only
  unfold prepareFakeTCP
  generalize cleanupFakeTCPStatesLocked s now false = before
  have hfound := preparedFlow_eq_lookup before ep
  simp only [Bool.not_true, Bool.false_eq_true, if_false]
  split
  · next flow hflow =>
    rw [hfound] at hflow
    split
    · exact Or.inl ⟨.refl before, rfl⟩
    · next hopen =>
      refine Or.inr ⟨before, _, .refl before, rfl, ?_⟩
      rw [hflow]
      exact .retried hopen rfl rfl rfl
  · next hflow =>
    rw [hfound] at hflow
    have hkept := makeRoom_keptFrom before now
    generalize (if fakeTCPStateLimit ≤ before.flows.entries.length then
      cleanupFakeTCPStatesLocked before now true else before) = cleaned at hkept ⊢
    split
    · exact Or.inl ⟨hkept, rfl⟩
    · refine Or.inr ⟨cleaned, _, hkept, rfl, ?_⟩
      rw [hflow]
      exact .opened rfl

theorem dataPackets_flow (flow : FakeTCPFlow) (bufs : List Bytes) :
    (dataPackets flow bufs).1.state = flow.state ∧
      (dataPackets flow bufs).1.recvNext = flow.recvNext ∧
      ∀ packet ∈ (dataPackets flow bufs).2, flow.AckedBy packet := by
  induction bufs generalizing flow with
  | nil => exact ⟨rfl, rfl, fun packet hpacket => absurd hpacket List.not_mem_nil⟩
  | cons buf bufs ih =>
    obtain ⟨hstate, hrecv, hpackets⟩ :=
      ih {flow with sendNext := flow.sendNext + .ofNat (frameHeaderSize + buf.length)}
    exact ⟨hstate, hrecv, List.forall_mem_cons.mpr ⟨⟨ack_and_syn, rfl⟩, hpackets⟩⟩

/-- Only an established flow sends data. -/
theorem sendFakeTCPData_changes {s after : FakeTCPStates} {ep : StdNetEndpoint}
    {bufs : List Bytes} {packets : List FakeTCPPacket}
    (h : sendFakeTCPData s ep bufs = .ok (after, packets)) :
    Changes none s after (findFakeTCPFlowLocked s ep).1 packets := by
  have hfound := find_eq_lookup s ep
  unfold sendFakeTCPData at h
  dsimp only at h
  split at h
  · cases h
  · next flow hflow =>
    split at h
    · cases h
    · next hopen =>
      rw [hfound] at hflow
      cases h
      obtain ⟨hstate, hrecv, hpackets⟩ := dataPackets_flow flow bufs
      refine Or.inr ⟨s, _, .refl s, rfl, ?_⟩
      rw [hflow]
      refine .kept (not_not.mp hopen) (hstate.trans (not_not.mp hopen)) (Or.inl hrecv) ?_
      intro packet hpacket
      exact ⟨(hpackets packet hpacket).1, (hpackets packet hpacket).2.trans hrecv.symm⟩

/-- A packet with a payload is no SYN. -/
theorem FlowStep.syn_payload {incoming : Option FakeTCPPacket} {old : Option FakeTCPFlow}
    {flow : FakeTCPFlow} {packets : List FakeTCPPacket}
    (h : FlowStep incoming old flow packets) :
    ∀ packet ∈ packets, packet.flags &&& tcpFlagSYN ≠ 0 → packet.payload = [] := by
  have hopening : ∀ flow : FakeTCPFlow, (openingPacket flow).payload = [] := by
    intro flow
    unfold openingPacket
    split <;> rfl
  intro packet hpacket hsyn
  cases h with
  | opened | retried =>
    obtain rfl := List.mem_singleton.mp hpacket
    exact hopening flow
  | listened | received | reopened =>
    obtain rfl := List.mem_singleton.mp hpacket
    rfl
  | accepted _ _ _ _ _ _ hreply =>
    obtain rfl := List.mem_singleton.mp hpacket
    exact absurd hreply.1 hsyn
  | completed _ _ _ _ _ hreplies => exact absurd (hreplies packet hpacket).1 hsyn
  | kept _ _ _ hreplies => exact absurd (hreplies packet hpacket).1 hsyn

theorem Changes.syn_payload {incoming : Option FakeTCPPacket} {before after : FakeTCPStates}
    {key : FakeTCPFlowKey} {packets : List FakeTCPPacket}
    (h : Changes incoming before after key packets) :
    ∀ packet ∈ packets, packet.flags &&& tcpFlagSYN ≠ 0 → packet.payload = [] := by
  rcases h with ⟨_, rfl⟩ | ⟨_, _, _, _, hstep⟩
  · exact fun packet hpacket => absurd hpacket List.not_mem_nil
  · exact hstep.syn_payload

/-- A payload is handed up for a flow that is established then. -/
theorem established_of_deliver {s : FakeTCPStates} {now : Time} {isn : UInt32}
    {ep : StdNetEndpoint} {packet : FakeTCPPacket}
    (h : (handleFakeTCPPacket s now isn ep packet).deliver = true) :
    let key := (findFakeTCPFlowLocked (cleanupFakeTCPStatesLocked s now false) ep).1
    ∃ flow, (handleFakeTCPPacket s now isn ep packet).states.flows.lookup key = some flow ∧
      flow.state = .established := by
  obtain ⟨hsyn, hfin, hrst, hpayload, old, hold, hopen⟩ := handleFakeTCPPacket_deliver.mp h
  have hreset : ¬ (packet.flags &&& tcpFlagRST ≠ 0 ∨ packet.flags &&& tcpFlagFIN ≠ 0) :=
    not_or.mpr ⟨not_not.mpr hrst, not_not.mpr hfin⟩
  have hfound : (findFakeTCPFlowLocked (cleanupFakeTCPStatesLocked s now false) ep).2 =
      some old := hold
  simp only [handleFakeTCPPacket, hreset, hsyn, hfound, if_false, ne_eq, not_true_eq_false]
  unfold handleACK
  rcases hopen with hopen | ⟨hopen, hack, hnumber, hseq⟩
  · have hno : ¬ (old.state = .synReceived ∧ packet.flags &&& tcpFlagACK ≠ 0 ∧
        packet.ack = old.sendNext) := by
      rintro ⟨hstate, _⟩
      rw [hopen] at hstate
      cases hstate
    rw [if_neg hno, if_neg (not_not.mpr hopen)]
    exact handleData_established _ now _ old hsyn hopen
  · rw [if_pos ⟨hopen, hack, hnumber⟩, if_neg fun hno => hno.2 hseq]
    exact handleData_established _ now _ {old with state := .established} hsyn rfl

end Nylon.Polyamide
