import Nylon.Polyamide.FlowSteps
import Nylon.Polyamide.MarshalFakeTCP

/-!
The framing of data carriers is exact. What is received is handed up if and only if its flow
accepts it and the bytes behind the header tile into frames, and the frames that are read back
are those that were put in; a payload that does not tile has no effect at all. What is sent is
one frame, wherever the datagram is built.
-/

namespace Nylon.Polyamide

open Lib State

/-- The payload is these frames, one behind the other. -/
def Tiles (payload : Bytes) (frames : List Bytes) : Prop :=
  payload = encodeFrames frames ∧ ∀ frame ∈ frames, FrameLength frame

def Carried.Delivers (carried : Carried) : Prop := carried.payload ≠ [] ∨ carried.frames ≠ 0

theorem Carried.not_delivers (states : FakeTCPStates) (ep : StdNetEndpoint)
    (response : Option FakeTCPPacket) (carrier : Bool) :
    ¬ Carried.Delivers ⟨states, ep, response, [], 0, carrier⟩ := by
  rintro (hne | hne)
  · exact hne rfl
  · exact hne rfl

/-- A data or control carrier with a complete header, which is no SYN. -/
structure PlainCarrier (data : Bytes) : Prop where
  magic : IsCarrier data
  header : carrierHeaderSize ≤ data.length
  noSYN : carrierFlags data &&& tcpFlagSYN = 0

section Receiving

variable {data : Bytes} (s : FakeTCPStates) (now : Time) (isn : UInt32) (ep : StdNetEndpoint)

theorem receiveFakeTCP_plain (h : PlainCarrier data) : receiveFakeTCP s now isn data ep =
    match decodeFrames (data.drop carrierHeaderSize).length (data.drop carrierHeaderSize) with
    | none => ⟨s, ep, none, [], 0, true⟩
    | some frames => receiveCarrier s now isn data ep (data.drop carrierHeaderSize)
        frames.length := by
  have hmagic : ¬ (data.length < 2 ∨ be16 (data.take 2) ≠ carrierMagic) :=
    not_or.mpr ⟨Nat.not_lt.mpr h.magic.1, not_not.mpr h.magic.2⟩
  rw [receiveFakeTCP, if_neg hmagic, if_neg (Nat.not_lt.mpr h.header), if_neg (not_not.mpr h.noSYN)]
  dsimp only
  rw [countFrames_eq]
  cases decodeFrames (data.drop carrierHeaderSize).length (data.drop carrierHeaderSize) <;> rfl

/-- A payload that does not tile is as if it had not been received. -/
theorem receiveFakeTCP_untiled (h : PlainCarrier data)
    (huntiled : ∀ frames, ¬ Tiles (data.drop carrierHeaderSize) frames) :
    receiveFakeTCP s now isn data ep = ⟨s, ep, none, [], 0, true⟩ := by
  rw [receiveFakeTCP_plain s now isn ep h]
  cases hframes : decodeFrames (data.drop carrierHeaderSize).length
    (data.drop carrierHeaderSize) with
  | none => rfl
  | some frames => exact absurd ((decodeFrames_eq_some (le_refl _)).mp hframes) (huntiled frames)

theorem receiveFakeTCP_tiled (h : PlainCarrier data) {frames : List Bytes}
    (htiles : Tiles (data.drop carrierHeaderSize) frames) :
    receiveFakeTCP s now isn data ep =
      receiveCarrier s now isn data ep (data.drop carrierHeaderSize) frames.length := by
  rw [receiveFakeTCP_plain s now isn ep h, (decodeFrames_eq_some (le_refl _)).mpr htiles]

/-- The flow of the carrier takes its payload. -/
def Accepts (s : FakeTCPStates) (now : Time) (ep : StdNetEndpoint) (data : Bytes) : Prop :=
  carrierFlags data &&& tcpFlagFIN = 0 ∧ carrierFlags data &&& tcpFlagRST = 0 ∧
    data.drop carrierHeaderSize ≠ [] ∧
    Established s now {ep with transport := .fakeTCP} (carrierPacket data)

theorem receiveCarrier_delivers (h : PlainCarrier data) (frames : List Bytes) :
    let carried := receiveCarrier s now isn data ep (data.drop carrierHeaderSize) frames.length
    (carried.Delivers ↔ Accepts s now ep data) ∧
      (carried.Delivers → carried.payload = data.drop carrierHeaderSize ∧
        carried.frames = frames.length) := by
  have hdeliver : (handleFakeTCPPacket s now isn {ep with transport := .fakeTCP}
      (carrierPacket data)).deliver = true ↔ Accepts s now ep data := by
    rw [handleFakeTCPPacket_deliver]
    exact and_iff_right h.noSYN
  intro carried
  subst carried
  unfold receiveCarrier
  dsimp only
  split
  · next htaken =>
    have haccepts := hdeliver.mp htaken
    have hdelivers : data.drop carrierHeaderSize ≠ [] ∨ frames.length ≠ 0 :=
      Or.inl haccepts.2.2.1
    exact ⟨iff_of_true hdelivers haccepts, fun _ => ⟨rfl, rfl⟩⟩
  · next hrefused =>
    exact ⟨iff_of_false (Carried.not_delivers _ _ _ _)
        fun haccepts => hrefused (hdeliver.mpr haccepts),
      fun hdelivers => absurd hdelivers (Carried.not_delivers _ _ _ _)⟩

end Receiving

section Sending

/-- The packets that a bind sends, with the bind's reasons to send them. -/
inductive SentByBind : FakeTCPPacket → Prop
  | opening (enabled isOpen : Bool) (s : FakeTCPStates) (now : Time) (isn : UInt32)
      (ep : StdNetEndpoint) {packet : FakeTCPPacket}
      (h : (prepareFakeTCP enabled isOpen s now isn ep).packet = some packet) :
      SentByBind packet
  | response (s : FakeTCPStates) (now : Time) (isn : UInt32) (ep : StdNetEndpoint)
      (received : FakeTCPPacket) {packet : FakeTCPPacket}
      (h : (handleFakeTCPPacket s now isn ep received).response = some packet) :
      SentByBind packet
  | data (s : FakeTCPStates) (ep : StdNetEndpoint) (bufs : List Bytes) {after : FakeTCPStates}
      {packets : List FakeTCPPacket} {packet : FakeTCPPacket}
      (h : sendFakeTCPData s ep bufs = .ok (after, packets)) (hpacket : packet ∈ packets) :
      SentByBind packet

theorem SentByBind.noSYN {packet : FakeTCPPacket} (h : SentByBind packet)
    (hpayload : packet.payload ≠ []) : packet.flags &&& tcpFlagSYN = 0 := by
  by_contra hsyn
  apply hpayload
  cases h with
  | opening enabled isOpen s now isn ep h =>
    obtain ⟨rfl, rfl⟩ : enabled = true ∧ isOpen = true := by
      cases enabled with
      | false => cases h
      | true =>
        cases isOpen with
        | false => cases h
        | true => exact ⟨rfl, rfl⟩
    have hchanges := prepareFakeTCP_changes s now isn ep
    exact hchanges.syn_payload packet (by simp [h]) hsyn
  | response s now isn ep received h =>
    have hchanges := handleFakeTCPPacket_changes s now isn ep received
    exact hchanges.syn_payload packet (by simp [h]) hsyn
  | data s ep bufs h hpacket =>
    exact (sendFakeTCPData_changes h).syn_payload packet hpacket hsyn

/-- The frame of a data packet does not depend on where the datagram is built. -/
theorem marshal_frame {packet : FakeTCPPacket} (hflags : packet.flags &&& tcpFlagSYN = 0)
    (hlength : FrameLength packet.payload) (spare : Bytes) :
    marshalFakeTCPPacket packet spare = marshalFakeTCPPacket packet [] ∧
      nextFakeTCPFrame ((marshalFakeTCPPacket packet spare).drop carrierHeaderSize) =
        (packet.payload, [], true) := by
  refine ⟨?_, ?_⟩
  · rw [marshal_data hflags hlength.ne_nil, marshal_data hflags hlength.ne_nil]
  · have hframe : (marshalFakeTCPPacket packet spare).drop carrierHeaderSize =
        encodeFrame packet.payload ++ [] := by
      rw [marshal_data hflags hlength.ne_nil, List.append_nil]
      rfl
    rw [hframe, nextFakeTCPFrame_encode hlength]

end Sending

/-- Data is handed up if and only if its flow accepts it and it tiles; the frames that are read
back from it are those it is made of. A payload that does not tile changes nothing and is not
answered. A payload that is sent is the one frame of its datagram, whatever capacity is behind
it; no SYN has one. -/
theorem carrier_framing_exact : (∀ data, PlainCarrier data → ∀ s now isn ep,
      let carried := receiveFakeTCP s now isn data ep
      (carried.Delivers ↔ Accepts s now ep data ∧
        ∃ frames, Tiles (data.drop carrierHeaderSize) frames) ∧
      (carried.Delivers → ∀ frames, Tiles (data.drop carrierHeaderSize) frames →
        carried.payload = data.drop carrierHeaderSize ∧ carried.frames = frames.length ∧
        decodeFrames carried.payload.length carried.payload = some frames) ∧
      ((∀ frames, ¬ Tiles (data.drop carrierHeaderSize) frames) →
        carried = ⟨s, ep, none, [], 0, true⟩)) ∧
    (∀ packet spare, packet.flags &&& tcpFlagSYN = 0 → FrameLength packet.payload →
      marshalFakeTCPPacket packet spare = marshalFakeTCPPacket packet [] ∧
        nextFakeTCPFrame ((marshalFakeTCPPacket packet spare).drop carrierHeaderSize) =
          (packet.payload, [], true)) ∧
    (∀ packet, SentByBind packet → packet.payload ≠ [] → packet.flags &&& tcpFlagSYN = 0) := by
  refine ⟨?_, ?_, fun packet hsent => hsent.noSYN⟩
  · intro data hplain s now isn ep
    refine ⟨?_, ?_, receiveFakeTCP_untiled s now isn ep hplain⟩
    · by_cases htiled : ∃ frames, Tiles (data.drop carrierHeaderSize) frames
      · obtain ⟨frames, htiles⟩ := htiled
        rw [receiveFakeTCP_tiled s now isn ep hplain htiles]
        exact (receiveCarrier_delivers s now isn ep hplain frames).1.trans
          (and_iff_left ⟨frames, htiles⟩).symm
      · rw [receiveFakeTCP_untiled s now isn ep hplain (not_exists.mp htiled)]
        exact iff_of_false (Carried.not_delivers _ _ _ _) fun h => htiled h.2
    · intro hdelivers frames htiles
      rw [receiveFakeTCP_tiled s now isn ep hplain htiles] at hdelivers ⊢
      obtain ⟨hpayload, hframes⟩ :=
        (receiveCarrier_delivers s now isn ep hplain frames).2 hdelivers
      refine ⟨hpayload, hframes, ?_⟩
      rw [hpayload]
      exact (decodeFrames_eq_some (le_refl _)).mpr htiles
  · intro packet spare hflags hlength
    exact marshal_frame hflags hlength spare

/-- One established flow. -/
def framedStates : FakeTCPStates :=
  { flows := (∅ : Table FakeTCPFlowKey FakeTCPFlow).insert ⟨⟨.v4 0xC0000201, 51820⟩, none, 0⟩
      ⟨.established, 10, 20, 0, 0, false⟩
    staleAfter := 0
    lastClean := none }

def framedEndpoint : StdNetEndpoint := ⟨⟨.v4 0xC0000201, 51820⟩, none, .udp⟩

def framedFrames : List Bytes := [.replicate 32 1, .replicate 35 2]

def framedCarrier : Bytes := carrierHeader tcpFlagACK.toUInt16 20 10 ++ encodeFrames framedFrames

theorem framedCarrier_plain : PlainCarrier framedCarrier :=
  ⟨by decide, by decide, by decide⟩

theorem framedCarrier_tiles : Tiles (framedCarrier.drop carrierHeaderSize) framedFrames :=
  ⟨rfl, by decide⟩

theorem framedCarrier_accepted : Accepts framedStates 0 framedEndpoint framedCarrier :=
  ⟨by decide, by decide, by decide, by decide +kernel⟩

/-- Two frames that are received, and one that is sent. -/
theorem carrier_framing_exact_two_frames :
    let carried := receiveFakeTCP framedStates 0 0 framedCarrier framedEndpoint
    carried.payload = encodeFrames framedFrames ∧ carried.frames = 2 ∧
      decodeFrames carried.payload.length carried.payload = some framedFrames ∧
      nextFakeTCPFrame ((marshalFakeTCPPacket ⟨tcpFlagACK, 10, 20, .replicate 32 1⟩
        (.replicate 40 7)).drop carrierHeaderSize) = (.replicate 32 1, [], true) := by
  intro carried
  obtain ⟨hreceive, hsend, _⟩ := carrier_framing_exact
  obtain ⟨hdelivers, hframes, _⟩ :=
    hreceive framedCarrier framedCarrier_plain framedStates 0 0 framedEndpoint
  obtain ⟨hpayload, hcount, hdecoded⟩ := hframes
    (hdelivers.mpr ⟨framedCarrier_accepted, framedFrames, framedCarrier_tiles⟩)
    framedFrames framedCarrier_tiles
  exact ⟨hpayload.trans framedCarrier_tiles.1, hcount, hdecoded,
    (hsend ⟨tcpFlagACK, 10, 20, .replicate 32 1⟩ (.replicate 40 7) (by decide) (by decide)).2⟩

end Nylon.Polyamide
