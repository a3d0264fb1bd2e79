import Nylon.Polyamide.HandshakeInvariant

/-!
Every transition of a fake-TCP flow keeps what the two sides know of each other. The critical
one is completed by an acknowledgement, which may be an old packet: that it is not from the
time of another flow can only be told by the sequence numbers.
-/

namespace Nylon.Polyamide

open Lib State

section Transitions

variable {side peer : Side} {key : FakeTCPFlowKey} {old flow : FakeTCPFlow}
  {label : FlowLabel} {packet : FakeTCPPacket}

theorem fits_synSent (h : flow.state = .synSent) :
    label.Fits peer flow ↔ flow.sendNext = label.own + 1 ∧ label.peer = none := by
  rw [FlowLabel.Fits, h]

theorem fits_synReceived (h : flow.state = .synReceived) : label.Fits peer flow ↔
      flow.sendNext = label.own + 1 ∧ label.peer = some (flow.recvNext - 1) := by
  rw [FlowLabel.Fits, h]

theorem fits_established (h : flow.state = .established) :
    label.Fits peer flow ↔ label.Agrees peer flow.recvNext := by
  rw [FlowLabel.Fits, h]

/-- A flow that is not established has sent nothing behind its initial number. -/
theorem FlowLabel.Fits.sendNext (h : label.Fits peer flow) (hopen : flow.state ≠ .established) :
    flow.sendNext = label.own + 1 := by
  cases hstate : flow.state with
  | synSent => exact ((fits_synSent hstate).mp h).1
  | synReceived => exact ((fits_synReceived hstate).mp h).1
  | established => exact absurd hstate hopen

theorem FlowLabel.Fits.congr (h : label.Fits peer old) (hstate : flow.state = old.state)
    (hsend : flow.sendNext = old.sendNext) (hrecv : flow.recvNext = old.recvNext) :
    label.Fits peer flow := by
  unfold FlowLabel.Fits
  rw [hstate, hsend, hrecv]
  exact h

theorem syn_and_syn : tcpFlagSYN &&& tcpFlagSYN ≠ 0 := by decide

theorem syn_and_ack : tcpFlagSYN &&& tcpFlagACK = 0 := by decide

theorem synAck_flags (flow : FakeTCPFlow) : flow.synAck.flags &&& tcpFlagSYN ≠ 0 := by
  change (tcpFlagSYN ||| tcpFlagACK) &&& tcpFlagSYN ≠ 0
  decide

theorem openingPacket_eq (flow : FakeTCPFlow) : (openingPacket flow).flags &&& tcpFlagSYN ≠ 0 ∧
      (openingPacket flow).seq = flow.sendNext - 1 := by
  unfold openingPacket
  split
  · exact ⟨synAck_flags flow, rfl⟩
  · exact ⟨syn_and_syn, rfl⟩

theorem FlowLabel.Fits.sends_synAck (h : label.Fits peer flow)
    (hstate : flow.state = .synReceived) : label.Sends flow flow.synAck := by
  obtain ⟨hsend, hpeer⟩ := (fits_synReceived hstate).mp h
  refine ⟨fun hsyn => absurd hsyn (synAck_flags flow), fun _ _ => ⟨?_, hpeer⟩⟩
  change flow.sendNext - 1 = label.own
  rw [hsend, UInt32.add_sub_cancel]

theorem FlowLabel.Fits.sends_opening (h : label.Fits peer flow) :
    label.Sends flow (openingPacket flow) := by
  by_cases hstate : flow.state = .synReceived
  · have hpacket : openingPacket flow = flow.synAck := if_pos hstate
    rw [hpacket]
    exact h.sends_synAck hstate
  · have hpacket : openingPacket flow = ⟨tcpFlagSYN, flow.sendNext - 1, 0, []⟩ := if_neg hstate
    rw [hpacket]
    exact ⟨fun hsyn => absurd hsyn syn_and_syn, fun _ hack => absurd syn_and_ack hack⟩

theorem FakeTCPFlow.AckedBy.sends (h : flow.AckedBy packet) (hstate : flow.state = .established) :
    label.Sends flow packet :=
  ⟨fun _ => ⟨hstate, h.2⟩, fun hsyn => absurd h.1 hsyn⟩

/-- What a transition makes of the flow of a key. -/
structure Evolves (side peer : Side) (key : FakeTCPFlowKey) (flow : FakeTCPFlow)
    (label : FlowLabel) (packets : List FakeTCPPacket) : Prop where
  fits : label.Fits peer flow
  origin : side.Continues key flow label ∨ side.Begins packets label
  sends : ∀ packet ∈ packets, label.Sends flow packet

/-- A flow that begins by sending one packet with its number. -/
theorem evolves_begins (hfits : label.Fits peer flow) (hid : label.id = side.steps)
    (hown : label.own = flow.sendNext - 1) (hsends : label.Sends flow packet)
    (hsyn : packet.flags &&& tcpFlagSYN ≠ 0) (hseq : packet.seq = flow.sendNext - 1) :
    Evolves side peer key flow label [packet] where
  fits := hfits
  origin := Or.inr ⟨hid, packet, List.mem_singleton_self packet, hsyn, hseq.trans hown.symm⟩
  sends _ h := List.mem_singleton.mp h ▸ hsends

/-- The initial number of a flow that is not established belongs to this flow alone: a flow
that has had the same number has received the same. -/
theorem Coherent.had_unique (h : Coherent side peer) (hapart : side.RangesApart)
    (hold : side.flow key = some old) (hopen : old.state ≠ .established)
    {number : UInt32} (hhad : side.HasHad (side.labels key).own number) :
    (side.labels key).peer = some number := by
  obtain ⟨other, hother, hown, hpeer⟩ := hhad
  obtain ⟨m, hm, hid, hsyn, hseq⟩ := h.announced _ (h.recorded key old hold)
  obtain ⟨m', hm', hid', hsyn', hseq'⟩ := h.announced other hother
  have hsame : other.id = (side.labels key).id := by
    rw [← hid, ← hid']
    refine hapart m' hm' m hm (side.labels key).own ?_ ?_
    · rw [← hown, ← hseq']
      exact FakeTCPPacket.uses_seq hsyn'
    · rw [← hseq]
      exact FakeTCPPacket.uses_seq hsyn
  rcases h.single key old hold other hother hsame with hest | hnone | hequal
  · exact absurd hest hopen
  · rw [hnone] at hpeer
    cases hpeer
  · exact hequal.symm.trans hpeer

/-- The number behind the initial one of a flow that is not established is not behind data. -/
theorem Coherent.not_behind_data (h : Coherent side peer) (hapart : side.RangesApart)
    (hold : side.flow key = some old) (hopen : old.state ≠ .established)
    {m : Nat × FakeTCPPacket} (hm : m ∈ side.sent) :
    ¬ m.2.EndsAt ((side.labels key).own + 1) := by
  intro hend
  obtain ⟨m', hm', hid', hsyn', hseq'⟩ := h.announced _ (h.recorded key old hold)
  have hsame : m.1 = m'.1 := by
    refine hapart m hm m' hm' (side.labels key).own hend.uses ?_
    rw [← hseq']
    exact FakeTCPPacket.uses_seq hsyn'
  exact hopen (h.acked m hm hend.1 key old hold (hid'.symm.trans hsame.symm))

/-- An acknowledgement of the initial number comes from the flow whose number was received. -/
theorem Coherent.agrees_of_ack (h : Coherent side peer) (hpeer : Coherent peer side)
    (hapart : side.RangesApart) (hold : side.flow key = some old)
    (hstate : old.state = .synReceived) {m : Nat × FakeTCPPacket} (hm : m ∈ peer.sent)
    (hsyn : m.2.flags &&& tcpFlagSYN = 0) (hnumber : m.2.ack = old.sendNext) :
    (side.labels key).Agrees peer old.recvNext := by
  have hopen : old.state ≠ .established := by
    rw [hstate]
    decide
  obtain ⟨hsend, hreceived⟩ := (fits_synReceived hstate).mp (h.fits key old hold)
  obtain ⟨sender, hsender, first, hfirst, hhad, hexpected⟩ := (hpeer.vouched m hm).ack hsyn
  rw [hnumber, hsend] at hexpected
  rcases hexpected with hnext | ⟨data, hdata, hend⟩
  · obtain rfl : (side.labels key).own = first := by
      rw [← UInt32.add_sub_cancel (side.labels key).own 1, hnext, UInt32.add_sub_cancel]
    have hsame := h.had_unique hapart hold hopen hhad
    refine ⟨sender.own, hsame, ⟨sender, hsender, rfl, hfirst⟩, Or.inl ?_⟩
    rw [← Option.some.inj (hreceived.symm.trans hsame), UInt32.sub_add_cancel]
  · exact absurd hend (h.not_behind_data hapart hold hopen hdata)

/-- What is expected next moves to the end of data of the peer. -/
theorem FlowLabel.Agrees.movesTo {incoming : Option FakeTCPPacket}
    (h : label.Agrees peer old.recvNext) (hrecv : MovesTo incoming old flow)
    (hincoming : ∀ packet ∈ incoming, ∃ m ∈ peer.sent, m.2 = packet) :
    label.Agrees peer flow.recvNext := by
  rcases hrecv with hsame | ⟨packet, hpacket, hend⟩
  · rw [hsame]
    exact h
  · obtain ⟨first, hfirst, hhad, _⟩ := h
    obtain ⟨m, hm, rfl⟩ := hincoming packet hpacket
    exact ⟨first, hfirst, hhad, Or.inr ⟨m, hm, hend⟩⟩

/-- A flow that the peer opens has received its number. -/
theorem fits_of_syn {id : Nat} {own : UInt32} (hstate : flow.state = .synReceived)
    (hsend : flow.sendNext = own + 1) (hrecv : flow.recvNext = packet.seq + 1) :
    FlowLabel.Fits ⟨id, own, some packet.seq⟩ peer flow := by
  refine (fits_synReceived hstate).mpr ⟨hsend, ?_⟩
  rw [hrecv, UInt32.add_sub_cancel]

theorem evolves_opened (hstate : flow.state = .synSent) :
    Evolves side peer key flow ⟨side.steps, flow.sendNext - 1, none⟩ [openingPacket flow] := by
  have hfits : FlowLabel.Fits ⟨side.steps, flow.sendNext - 1, none⟩ peer flow :=
    (fits_synSent hstate).mpr ⟨(UInt32.sub_add_cancel _ _).symm, rfl⟩
  exact evolves_begins hfits rfl rfl hfits.sends_opening (openingPacket_eq flow).1
    (openingPacket_eq flow).2

theorem evolves_listened (hstate : flow.state = .synReceived)
    (hrecv : flow.recvNext = packet.seq + 1) :
    Evolves side peer key flow ⟨side.steps, flow.sendNext - 1, some packet.seq⟩ [flow.synAck] := by
  have hfits : FlowLabel.Fits ⟨side.steps, flow.sendNext - 1, some packet.seq⟩ peer flow :=
    fits_of_syn hstate (UInt32.sub_add_cancel _ _).symm hrecv
  exact evolves_begins hfits rfl rfl (hfits.sends_synAck hstate) (synAck_flags flow) rfl

section Continued

variable (h : Coherent side peer) (hold : side.flow key = some old)
include h hold

theorem evolves_retried (hopen : old.state ≠ .established) (hstate : flow.state = old.state)
    (hsend : flow.sendNext = old.sendNext) (hrecv : flow.recvNext = old.recvNext) :
    Evolves side peer key flow (side.labels key) [openingPacket flow] := by
  have hfits : (side.labels key).Fits peer flow :=
    (h.fits key old hold).congr hstate hsend hrecv
  refine ⟨hfits, Or.inl ⟨rfl, rfl, ⟨old, hold, fun hest => absurd hest hopen⟩,
    Or.inr (Or.inr rfl)⟩, fun packet hpacket => ?_⟩
  obtain rfl := List.mem_singleton.mp hpacket
  exact hfits.sends_opening

/-- A flow that the peer has opened has received its number. -/
theorem peer_of_received (hopen : old.state = .synReceived)
    (hsame : old.recvNext = packet.seq + 1) : some packet.seq = (side.labels key).peer := by
  rw [((fits_synReceived hopen).mp (h.fits key old hold)).2, hsame, UInt32.add_sub_cancel]

theorem next_received {fresh : Nat}
    (hopen : old.state = .synSent ∨ old.state = .synReceived ∧ old.recvNext = packet.seq + 1)
    (hstate : flow.state = .synReceived) (hrecv : flow.recvNext = packet.seq + 1) :
    (side.labels key).next fresh (some packet.seq) (some old) (some flow) =
      {side.labels key with peer := some packet.seq} := by
  rcases hopen with hopen | ⟨hopen, hsame⟩
  · have hchanged : flow ≠ old := by
      rintro rfl
      rw [hopen] at hstate
      cases hstate
    exact FlowLabel.next_continued (by rw [hopen]; decide)
      (fun hreceived => by rw [hopen] at hreceived; cases hreceived)
      fun heq => absurd heq hchanged
  · exact FlowLabel.next_continued (by rw [hopen]; decide)
      (fun _ _ => hrecv.trans hsame.symm) fun _ => peer_of_received h hold hopen hsame

theorem evolves_received
    (hopen : old.state = .synSent ∨ old.state = .synReceived ∧ old.recvNext = packet.seq + 1)
    (hstate : flow.state = .synReceived) (hsend : flow.sendNext = old.sendNext)
    (hrecv : flow.recvNext = packet.seq + 1) :
    Evolves side peer key flow {side.labels key with peer := some packet.seq} [flow.synAck] := by
  have hest : old.state ≠ .established := by
    rcases hopen with hopen | ⟨hopen, _⟩ <;> rw [hopen] <;> decide
  have hoffered : (side.labels key).peer = none ∨ some packet.seq = (side.labels key).peer := by
    rcases hopen with hopen | ⟨hopen, hsame⟩
    · exact Or.inl ((fits_synSent hopen).mp (h.fits key old hold)).2
    · exact Or.inr (peer_of_received h hold hopen hsame)
  have hfits : FlowLabel.Fits {side.labels key with peer := some packet.seq} peer flow :=
    fits_of_syn hstate (hsend.trans ((h.fits key old hold).sendNext hest)) hrecv
  refine ⟨hfits, Or.inl ⟨rfl, rfl, ⟨old, hold, fun hest' => absurd hest' hest⟩,
    Or.inr hoffered⟩, fun reply hreply => ?_⟩
  obtain rfl := List.mem_singleton.mp hreply
  exact hfits.sends_synAck hstate

/-- A SYN with acknowledgement says that the peer has received the number. -/
theorem evolves_accepted (hpeer : Coherent peer side) {m : Nat × FakeTCPPacket}
    {reply : FakeTCPPacket} (hm : m ∈ peer.sent) (hsyn : m.2.flags &&& tcpFlagSYN ≠ 0)
    (hack : m.2.flags &&& tcpFlagACK ≠ 0) (hopen : old.state ≠ .established)
    (hnumber : m.2.ack = old.sendNext) (hstate : flow.state = .established)
    (hrecv : flow.recvNext = m.2.seq + 1) (hreply : flow.AckedBy reply) :
    Evolves side peer key flow {side.labels key with peer := some m.2.seq} [reply] := by
  have hhad : peer.HasHad m.2.seq (side.labels key).own := by
    have hhad := (hpeer.vouched m hm).synAck hsyn hack
    rwa [hnumber, (h.fits key old hold).sendNext hopen, UInt32.add_sub_cancel] at hhad
  refine ⟨(fits_established hstate).mpr ⟨m.2.seq, rfl, hhad, Or.inl hrecv⟩,
    Or.inl ⟨rfl, rfl, ⟨old, hold, fun _ => hstate⟩, Or.inl hstate⟩, fun packet hpacket => ?_⟩
  obtain rfl := List.mem_singleton.mp hpacket
  exact hreply.sends hstate

omit h in
/-- A flow that is or becomes established with the number it has received. -/
theorem evolves_established {incoming : Option FakeTCPPacket} {replies : List FakeTCPPacket}
    (hagrees : (side.labels key).Agrees peer old.recvNext) (hrecv : MovesTo incoming old flow)
    (hincoming : ∀ packet ∈ incoming, ∃ m ∈ peer.sent, m.2 = packet)
    (hstate : flow.state = .established) (hreplies : ∀ reply ∈ replies, flow.AckedBy reply) :
    Evolves side peer key flow (side.labels key) replies where
  fits := (fits_established hstate).mpr (hagrees.movesTo hrecv hincoming)
  origin := Or.inl ⟨rfl, rfl, ⟨old, hold, fun _ => hstate⟩, Or.inl hstate⟩
  sends reply hreply := (hreplies reply hreply).sends hstate

end Continued

theorem FlowStep.evolves {incoming : Option FakeTCPPacket} {packets : List FakeTCPPacket}
    (h : Coherent side peer) (hpeer : Coherent peer side) (hapart : side.RangesApart)
    (hincoming : ∀ packet ∈ incoming, ∃ m ∈ peer.sent, m.2 = packet)
    (hstep : FlowStep incoming (side.flow key) flow packets) :
    Evolves side peer key flow
      ((side.labels key).next side.steps (incoming.bind FakeTCPPacket.synNumber)
        (side.flow key) (some flow)) packets := by
  have hsynNumber : ∀ packet : FakeTCPPacket, packet.flags &&& tcpFlagSYN ≠ 0 →
      (some packet).bind FakeTCPPacket.synNumber = some packet.seq :=
    fun packet hsyn => if_pos hsyn
  generalize hold : side.flow key = before at hstep ⊢
  cases hstep with
  | opened hstate => exact evolves_opened hstate
  | @listened packet _ hsyn hstate hrecv =>
    rw [hsynNumber packet hsyn]
    exact evolves_listened hstate hrecv
  | @reopened packet old _ hsyn hopen hother hstate hrecv =>
    rw [hsynNumber packet hsyn,
      FlowLabel.next_reopened hopen hstate (by rw [hrecv]; exact hother.symm)]
    exact evolves_listened hstate hrecv
  | retried hopen hstate hsend hrecv =>
    rw [FlowLabel.next_continued hopen (fun _ _ => hrecv) fun _ => rfl]
    exact evolves_retried h hold hopen hstate hsend hrecv
  | @received packet _ _ hsyn hopen hstate hsend hrecv =>
    rw [hsynNumber packet hsyn, next_received h hold hopen hstate hrecv]
    exact evolves_received h hold hopen hstate hsend hrecv
  | @accepted packet _ old _ hsyn hack hopen hnumber hstate hrecv hreply =>
    obtain ⟨m, hm, rfl⟩ := hincoming packet rfl
    rw [hsynNumber m.2 hsyn, FlowLabel.next_completed hopen hstate]
    exact evolves_accepted h hold hpeer hm hsyn hack hopen hnumber hstate hrecv hreply
  | @completed packet old _ _ hsyn hopen hnumber hstate hrecv hreplies =>
    obtain ⟨m, hm, rfl⟩ := hincoming packet rfl
    have hnone : (some m.2).bind FakeTCPPacket.synNumber = none := if_neg (not_not.mpr hsyn)
    rw [hnone, FlowLabel.next_completed (by rw [hopen]; decide) hstate]
    exact evolves_established hold (h.agrees_of_ack hpeer hapart hold hopen hm hsyn hnumber)
      hrecv hincoming hstate hreplies
  | @kept _ old _ _ hopen hstate hrecv hreplies =>
    rw [FlowLabel.next_established hopen]
    exact evolves_established hold ((fits_established hopen).mp (h.fits key old hold)) hrecv
      hincoming hstate hreplies

theorem Coherent.kept_flow (h : Coherent side peer) {after : FakeTCPStates}
    {incoming : Option FakeTCPPacket} (hold : side.flow key = some flow)
    (hafter : after.flows.lookup key = some flow) :
    (side.nextLabels after incoming key).Fits peer flow ∧
      side.Continues key flow (side.nextLabels after incoming key) := by
  have hlabel : side.nextLabels after incoming key = side.labels key :=
    FlowLabel.next_kept (Or.inr (hafter.trans hold.symm))
  rw [hlabel]
  exact ⟨h.fits key flow hold, rfl, rfl, ⟨flow, hold, id⟩, Or.inr (Or.inr rfl)⟩

theorem Changes.progress {incoming : Option FakeTCPPacket} {after : FakeTCPStates}
    {packets : List FakeTCPPacket} (h : Coherent side peer) (hpeer : Coherent peer side)
    (hapart : side.RangesApart)
    (hincoming : ∀ packet ∈ incoming, ∃ m ∈ peer.sent, m.2 = packet)
    (hchanges : Changes incoming side.states after key packets) :
    Progress side peer after incoming key packets := by
  rcases hchanges with ⟨hkept, rfl⟩ | ⟨kept, flow, hkept, rfl, hstep⟩
  · have hflows : ∀ k flow, after.flows.lookup k = some flow → side.flow k = some flow :=
      fun k flow hflow => ((hkept k).resolve_left (by simp [hflow])).symm.trans hflow
    exact
      { fits := fun k flow hflow => (h.kept_flow (hflows k flow hflow) hflow).1
        origin := fun k flow hflow => Or.inl (h.kept_flow (hflows k flow hflow) hflow).2
        sends := fun _ hpacket => absurd hpacket List.not_mem_nil }
  · have hat : (kept.setFlow key flow).flows.lookup key = some flow := AList.lookup_insert _
    have hevolves : Evolves side peer key flow
        (side.nextLabels (kept.setFlow key flow) incoming key) packets := by
      unfold Side.nextLabels
      rw [hat]
      exact hstep.evolves h hpeer hapart hincoming
    have hother : ∀ k flow', k ≠ key → (kept.setFlow key flow).flows.lookup k = some flow' →
        side.flow k = some flow' := by
      intro k flow' hne hflow'
      have hsame : (kept.setFlow key flow).flows.lookup k = kept.flows.lookup k :=
        AList.lookup_insert_ne hne
      rw [hsame] at hflow'
      exact ((hkept k).resolve_left (by simp [hflow'])).symm.trans hflow'
    refine ⟨fun k flow' hflow' => ?_, fun k flow' hflow' => ?_,
      fun packet hpacket => ⟨flow, hat, hevolves.sends packet hpacket⟩⟩
    · by_cases hk : k = key
      · subst hk
        obtain rfl := Option.some.inj (hat.symm.trans hflow')
        exact hevolves.fits
      · exact (h.kept_flow (hother k flow' hk hflow') hflow').1
    · by_cases hk : k = key
      · subst hk
        obtain rfl := Option.some.inj (hat.symm.trans hflow')
        exact hevolves.origin.imp id fun hbegins => ⟨rfl, hbegins⟩
      · exact Or.inl (h.kept_flow (hother k flow' hk hflow') hflow').2

end Transitions

end Nylon.Polyamide
