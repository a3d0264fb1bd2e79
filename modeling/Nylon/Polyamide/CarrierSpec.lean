import Nylon.Polyamide.FakeTCP
import Nylon.Polyamide.PacketSpec

/-!
Carriers of fake TCP. The payload of a data carrier is the concatenation of its
encoded frames; the decoding loops of the code invert this encoding. A packet is
delivered if it is for data and its flow is established.
-/

namespace Nylon.Polyamide

open Lib State

/-- A frame on the wire: its length and its bytes. -/
def encodeFrame (frame : Bytes) : Bytes := put16 (.ofNat frame.length) ++ frame

/-- The payload that tiles into the given frames. -/
def encodeFrames (frames : List Bytes) : Bytes := frames.flatMap encodeFrame

/-- The lengths that a frame header can announce. -/
def FrameLength (frame : Bytes) : Prop :=
  minFramePayloadSize ≤ frame.length ∧ frame.length < 2 ^ 16

instance (frame : Bytes) : Decidable (FrameLength frame) :=
  inferInstanceAs (Decidable (_ ∧ _))

/-- The frames that a payload tiles into. -/
def decodeFrames : Nat → Bytes → Option (List Bytes)
  | 0, remaining => if remaining = [] then some [] else none
  | fuel + 1, remaining =>
    if remaining = [] then some []
    else if (nextFakeTCPFrame remaining).2.2 then
      (decodeFrames fuel (nextFakeTCPFrame remaining).2.1).map
        ((nextFakeTCPFrame remaining).1 :: ·)
    else none

def IsCarrier (data : Bytes) : Prop :=
  2 ≤ data.length ∧ be16 (data.take 2) = carrierMagic

instance (data : Bytes) : Decidable (IsCarrier data) :=
  inferInstanceAs (Decidable (_ ∧ _))

def carrierPacket (data : Bytes) : FakeTCPPacket :=
  ⟨carrierFlags data, be32 ((data.take 8).drop 4), be32 ((data.take 12).drop 8),
    data.drop carrierHeaderSize⟩

/-- The flow of the endpoint, after stale flows are dropped, is established, or the
packet completes its handshake. -/
def Established (s : FakeTCPStates) (now : Time) (ep : StdNetEndpoint)
    (packet : FakeTCPPacket) : Prop :=
  ∃ flow ∈ (findFakeTCPFlowLocked (cleanupFakeTCPStatesLocked s now false) ep).2,
    flow.state = .established ∨ flow.state = .synReceived ∧ packet.flags &&& tcpFlagACK ≠ 0 ∧
        packet.ack = flow.sendNext ∧ packet.seq = flow.recvNext

instance (s : FakeTCPStates) (now : Time) (ep : StdNetEndpoint) (packet : FakeTCPPacket) :
    Decidable (Established s now ep packet) :=
  inferInstanceAs (Decidable (∃ flow ∈ _, _))

section Frames

theorem put16_be16 (a b : UInt8) : put16 (be16 [a, b]) = [a, b] := by
  have ha := a.toNat_lt
  have hb := b.toNat_lt
  unfold put16
  rw [toNat_be16]
  congr 1
  · apply UInt8.toNat_inj.mp
    simp only [UInt8.toNat_ofNat']
    omega
  · congr 1
    apply UInt8.toNat_inj.mp
    simp only [UInt8.toNat_ofNat']
    omega

@[simp] theorem length_encodeFrame (frame : Bytes) :
    (encodeFrame frame).length = frameHeaderSize + frame.length := by
  simp only [encodeFrame, put16, List.length_append, List.length_cons, List.length_nil,
    frameHeaderSize]

theorem encodeFrames_cons (frame : Bytes) (frames : List Bytes) :
    encodeFrames (frame :: frames) = encodeFrame frame ++ encodeFrames frames := rfl

theorem encodeFrames_ne_nil {frames : List Bytes} (h : frames ≠ []) : encodeFrames frames ≠ [] := by
  cases frames with
  | nil => exact absurd rfl h
  | cons frame rest => simp [encodeFrames_cons, encodeFrame, put16]

theorem FrameLength.ne_nil {frame : Bytes} (h : FrameLength frame) : frame ≠ [] := by
  rintro rfl
  exact absurd h.1 (by decide)

/-- The first frame of an encoding is read back. -/
theorem nextFakeTCPFrame_encode {frame : Bytes} (h : FrameLength frame) (rest : Bytes) :
    nextFakeTCPFrame (encodeFrame frame ++ rest) = (frame, rest, true) := by
  have hlength : (UInt16.ofNat frame.length).toNat = frame.length :=
    UInt16.toNat_ofNat_of_lt' h.2
  have hheader : (encodeFrame frame ++ rest).take frameHeaderSize =
      put16 (.ofNat frame.length) := rfl
  have hlen : (encodeFrame frame ++ rest).length =
      frameHeaderSize + frame.length + rest.length := by
    rw [List.length_append, length_encodeFrame]
  have hlong : ¬ (encodeFrame frame ++ rest).length < frameHeaderSize := by omega
  have hvalid : ¬ (frame.length < minFramePayloadSize ∨
      (encodeFrame frame ++ rest).length - frameHeaderSize < frame.length) := by
    have := h.1
    omega
  simp only [nextFakeTCPFrame, hheader, be16_put16, hlength, hlong, hvalid, if_false,
    ← length_encodeFrame, List.take_left, List.drop_left]
  rfl

/-- A frame that is read was encoded there. -/
theorem encode_of_nextFakeTCPFrame {data : Bytes} (h : (nextFakeTCPFrame data).2.2 = true) :
    data = encodeFrame (nextFakeTCPFrame data).1 ++ (nextFakeTCPFrame data).2.1 ∧
      FrameLength (nextFakeTCPFrame data).1 := by
  unfold nextFakeTCPFrame at h ⊢
  split at h
  · cases h
  · next hshort =>
    dsimp only at h
    split at h
    · cases h
    · next hlength =>
      rw [if_neg hshort, if_neg hlength]
      obtain ⟨a, b, tail, rfl⟩ : ∃ a b tail, data = a :: b :: tail := by
        cases data with
        | nil => simp [frameHeaderSize] at hshort
        | cons a tail =>
          cases tail with
          | nil => simp [frameHeaderSize] at hshort
          | cons b tail => exact ⟨a, b, tail, rfl⟩
      simp only [frameHeaderSize, List.take_succ_cons, List.take_zero, List.length_cons,
        not_or, not_lt] at hlength ⊢
      have hbound := (be16 [a, b]).toNat_lt
      have hframe : (((a :: b :: tail).take (2 + (be16 [a, b]).toNat)).drop 2) =
          tail.take (be16 [a, b]).toNat := by
        rw [Nat.add_comm]
        rfl
      have hrest : (a :: b :: tail).drop (2 + (be16 [a, b]).toNat) =
          tail.drop (be16 [a, b]).toNat := by
        rw [Nat.add_comm]
        rfl
      have hlen : (tail.take (be16 [a, b]).toNat).length = (be16 [a, b]).toNat := by
        rw [List.length_take]
        omega
      rw [hframe, hrest]
      refine ⟨?_, ?_⟩
      · rw [encodeFrame, hlen, UInt16.ofNat_toNat, put16_be16]
        simp
      · rw [FrameLength, hlen]
        exact ⟨hlength.1, hbound⟩

/-- Decoding inverts encoding. -/
theorem decodeFrames_eq_some {fuel : Nat} {data : Bytes} {frames : List Bytes}
    (hfuel : data.length ≤ fuel) : decodeFrames fuel data = some frames ↔
      data = encodeFrames frames ∧ ∀ frame ∈ frames, FrameLength frame := by
  induction fuel generalizing data frames with
  | zero =>
    obtain rfl : data = [] := List.length_eq_zero_iff.mp (Nat.le_zero.mp hfuel)
    simp only [decodeFrames, if_true, Option.some.injEq]
    constructor
    · rintro rfl
      exact ⟨rfl, by simp⟩
    · rintro ⟨hdata, _⟩
      by_contra hne
      exact encodeFrames_ne_nil (fun h => hne h.symm) hdata.symm
  | succ fuel ih =>
    unfold decodeFrames
    by_cases hnil : data = []
    · subst hnil
      simp only [if_true, Option.some.injEq]
      constructor
      · rintro rfl
        exact ⟨rfl, by simp⟩
      · rintro ⟨hdata, _⟩
        by_contra hne
        exact encodeFrames_ne_nil (fun h => hne h.symm) hdata.symm
    · rw [if_neg hnil]
      constructor
      · intro h
        split at h
        · next hok =>
          obtain ⟨hdata, hlength⟩ := encode_of_nextFakeTCPFrame hok
          obtain ⟨tail, htail, rfl⟩ := Option.map_eq_some_iff.mp h
          have hshorter := congrArg List.length hdata
          simp only [List.length_append, length_encodeFrame, frameHeaderSize] at hshorter
          obtain ⟨hrest, hall⟩ := (ih (by omega)).mp htail
          rw [encodeFrames_cons, ← hrest]
          exact ⟨hdata, List.forall_mem_cons.mpr ⟨hlength, hall⟩⟩
        · cases h
      · rintro ⟨rfl, hall⟩
        cases frames with
        | nil => exact absurd rfl hnil
        | cons frame rest =>
          obtain ⟨hlength, hrest⟩ := List.forall_mem_cons.mp hall
          simp only [encodeFrames_cons, List.length_append, length_encodeFrame,
            frameHeaderSize] at hfuel
          have hdecode : decodeFrames fuel (encodeFrames rest) = some rest :=
            (ih (by omega)).mpr ⟨rfl, hrest⟩
          rw [encodeFrames_cons, nextFakeTCPFrame_encode hlength]
          simp [hdecode]

theorem countFrames_eq (fuel : Nat) (data : Bytes) :
    countFrames fuel data = (decodeFrames fuel data).map List.length := by
  induction fuel generalizing data with
  | zero =>
    unfold countFrames decodeFrames
    split <;> rfl
  | succ fuel ih =>
    unfold countFrames decodeFrames
    rw [ih]
    split
    · rfl
    · split
      · cases decodeFrames fuel (nextFakeTCPFrame data).2.1 <;> rfl
      · rfl

end Frames

section Carriers

variable {s : FakeTCPStates} {now : Time} {isn : UInt32} {ep : StdNetEndpoint}
  {data : Bytes} {packet : FakeTCPPacket}

theorem handleData_deliver (s : FakeTCPStates) (now : Time) (key : FakeTCPFlowKey)
    (flow : FakeTCPFlow) (packet : FakeTCPPacket) :
    (handleData s now key flow packet).deliver = decide (packet.payload ≠ []) := by
  by_cases hpayload : packet.payload = []
  · simp [handleData, hpayload]
  · simp only [handleData, hpayload, if_false, ne_eq, not_false_eq_true, decide_true]
    split
    · split <;> rfl
    · split <;> rfl

theorem handleSYN_deliver (s : FakeTCPStates) (now : Time) (isn : UInt32)
    (key : FakeTCPFlowKey) (flow : Option FakeTCPFlow) (packet : FakeTCPPacket) :
    (handleSYN s now isn key flow packet).deliver = false := by
  cases flow with
  | none =>
    simp only [handleSYN]
    generalize (if fakeTCPStateLimit ≤ s.flows.entries.length then
      cleanupFakeTCPStatesLocked s now true else s) = cleaned
    split <;> rfl
  | some flow =>
    simp only [handleSYN]
    split
    · rfl
    · split <;> rfl

theorem handleSYNACK_deliver (s : FakeTCPStates) (now : Time) (key : FakeTCPFlowKey)
    (flow : Option FakeTCPFlow) (packet : FakeTCPPacket) :
    (handleSYNACK s now key flow packet).deliver = false := by
  cases flow with
  | none => rfl
  | some flow =>
    simp only [handleSYNACK]
    split
    · split <;> rfl
    · split <;> rfl

/-- Only a packet without SYN, FIN and RST and with a payload is delivered, and it
is if its flow is established. -/
theorem handleFakeTCPPacket_deliver : (handleFakeTCPPacket s now isn ep packet).deliver = true ↔
      packet.flags &&& tcpFlagSYN = 0 ∧ packet.flags &&& tcpFlagFIN = 0 ∧
        packet.flags &&& tcpFlagRST = 0 ∧ packet.payload ≠ [] ∧
        Established s now ep packet := by
  unfold handleFakeTCPPacket Established
  dsimp only
  split
  · next hreset =>
    refine iff_of_false (by simp) ?_
    rintro ⟨_, hfin, hrst, _⟩
    exact hreset.elim (fun h => h hrst) (fun h => h hfin)
  · next hreset =>
    push Not at hreset
    split
    · next hsyn =>
      refine iff_of_false ?_ fun h => hsyn h.1
      split
      · simp [handleSYN_deliver]
      · simp [handleSYNACK_deliver]
    · next hsyn =>
      push Not at hsyn
      simp only [hsyn, hreset, true_and]
      cases (findFakeTCPFlowLocked (cleanupFakeTCPStatesLocked s now false) ep).2 with
      | none => simp
      | some flow =>
        simp only [Option.mem_def, Option.some.injEq, exists_eq_left', handleACK]
        cases hstate : flow.state with
        | synSent => simp
        | established => simp [handleData_deliver]
        | synReceived =>
          by_cases hack : packet.flags &&& tcpFlagACK ≠ 0 ∧ packet.ack = flow.sendNext
          · by_cases hseq : packet.seq = flow.recvNext
            · simp [hack, hseq, handleData_deliver]
            · by_cases hpayload : packet.payload = []
              · simp [hack, hseq, hpayload, handleData_deliver]
              · simp [hack, hseq, hpayload]
          · have hnot : ¬ (packet.flags &&& tcpFlagACK ≠ 0 ∧
                packet.ack = flow.sendNext ∧ packet.seq = flow.recvNext) :=
              fun h => hack ⟨h.1, h.2.1⟩
            simp only [hack, hnot, true_and, if_false]
            simp

end Carriers

end Nylon.Polyamide
