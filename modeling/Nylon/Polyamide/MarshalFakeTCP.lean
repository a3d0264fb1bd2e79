import Nylon.Polyamide.CarrierSpec
import Nylon.Polyamide.PayloadChecksum

/-!
`marshalFakeTCPPacket` (`polyamide/conn/fake_tcp.go`), the datagram for a fake-TCP
packet. A payload with enough capacity behind it is moved within its own buffer; the
datagram is the same as without.
-/

namespace Nylon.Polyamide

open Lib Slice

variable {packet : FakeTCPPacket}

/-- The datagram for a packet, where `spare` is the capacity behind its payload. The
source of the copy may overlap its destination, which `copy` allows. -/
def marshalFakeTCPPacket (packet : FakeTCPPacket) (spare : Bytes) : Bytes :=
  let length := carrierHeaderSize + packet.payload.length +
    if packet.flags &&& tcpFlagSYN ≠ 0 then synOptionSize
    else if packet.payload ≠ [] then frameHeaderSize
    else 0
  let carrier := if packet.payload ≠ [] ∧ length ≤ (packet.payload ++ spare).length then
      (packet.payload ++ spare).take length
    else List.replicate length 0
  let payloadAt := carrierHeaderSize + frameHeaderSize
  let carrier := if packet.payload ≠ [] then
      carrier.take payloadAt ++ copyTo (carrier.drop payloadAt) packet.payload
    else carrier
  let carrier := overwrite carrier 0 (put16 carrierMagic)
  let carrier := if packet.payload ≠ [] then
      let carrier := overwrite carrier carrierHeaderSize (put16 (.ofNat packet.payload.length))
      overwrite carrier 2 (put16 (FoldPayloadChecksum (carrier.drop carrierHeaderSize)))
    else overwrite carrier 3 [packet.flags]
  let carrier := overwrite carrier 4 (put32 packet.seq)
  let carrier := overwrite carrier 8 (put32 packet.ack)
  if packet.flags &&& tcpFlagSYN ≠ 0 then overwrite carrier 12 [1, 3, 3, 14] else carrier

def carrierHeader (value : UInt16) (seq ack : UInt32) : Bytes :=
  put16 carrierMagic ++ (put16 value ++ (put32 seq ++ put32 ack))

theorem put16_toUInt16 (b : UInt8) : put16 b.toUInt16 = [0, b] := by
  have h := b.toNat_lt
  have hdiv : b.toNat / 256 = 0 := by omega
  rw [put16, UInt8.toNat_toUInt16, hdiv, UInt8.ofNat_toNat]
  rfl

theorem marshal_syn (hflags : packet.flags &&& tcpFlagSYN ≠ 0)
    (hpayload : packet.payload = []) (spare : Bytes) :
    marshalFakeTCPPacket packet spare =
      carrierHeader packet.flags.toUInt16 packet.seq packet.ack ++ [1, 3, 3, 14] := by
  rw [carrierHeader, put16_toUInt16]
  simp only [marshalFakeTCPPacket, hpayload, ne_eq, not_true_eq_false, false_and, if_false,
    if_pos hflags]
  rfl

theorem marshal_control (hflags : packet.flags &&& tcpFlagSYN = 0)
    (hpayload : packet.payload = []) (spare : Bytes) :
    marshalFakeTCPPacket packet spare =
      carrierHeader packet.flags.toUInt16 packet.seq packet.ack := by
  rw [carrierHeader, put16_toUInt16]
  simp only [marshalFakeTCPPacket, hpayload, hflags, ne_eq, not_true_eq_false, false_and, if_false]
  rfl

/-- The header of a data carrier covers whatever the buffer held before. -/
theorem overwrite_header {front : Bytes} (hlen : front.length = 14) (value : UInt16)
    (payload : Bytes) (checksum : Bytes → UInt16) (seq ack : UInt32) :
    (let carrier := overwrite (front ++ payload) 0 (put16 carrierMagic)
     let carrier := overwrite carrier carrierHeaderSize (put16 value)
     let carrier := overwrite carrier 2 (put16 (checksum (carrier.drop carrierHeaderSize)))
     overwrite (overwrite carrier 4 (put32 seq)) 8 (put32 ack)) =
      carrierHeader (checksum (put16 value ++ payload)) seq ack ++ (put16 value ++ payload) := by
  match front, hlen with
  | [_, _, _, _, _, _, _, _, _, _, _, _, _, _], _ => rfl

theorem marshal_data (hflags : packet.flags &&& tcpFlagSYN = 0)
    (hpayload : packet.payload ≠ []) (spare : Bytes) :
    marshalFakeTCPPacket packet spare =
      carrierHeader (FoldPayloadChecksum (encodeFrame packet.payload)) packet.seq packet.ack ++
        encodeFrame packet.payload := by
  simp only [marshalFakeTCPPacket, hflags, hpayload, ne_eq, not_true_eq_false,
    not_false_eq_true, true_and, if_true, if_false]
  generalize hbuffer : (if carrierHeaderSize + packet.payload.length + frameHeaderSize ≤
      (packet.payload ++ spare).length then
      (packet.payload ++ spare).take (carrierHeaderSize + packet.payload.length + frameHeaderSize)
    else List.replicate (carrierHeaderSize + packet.payload.length + frameHeaderSize) 0) = buffer
  have hlen : buffer.length = 14 + packet.payload.length := by
    rw [← hbuffer, carrierHeaderSize, frameHeaderSize]
    split
    · rw [List.length_take]
      omega
    · rw [List.length_replicate]
      omega
  have hcopy : copyTo (buffer.drop (carrierHeaderSize + frameHeaderSize)) packet.payload =
      packet.payload := by
    have hdrop : (buffer.drop (carrierHeaderSize + frameHeaderSize)).length =
        packet.payload.length := by
      rw [List.length_drop, hlen, carrierHeaderSize, frameHeaderSize]
      omega
    rw [copyTo, List.take_of_length_le hdrop.ge, List.drop_of_length_le hdrop.le, List.append_nil]
  rw [hcopy]
  refine overwrite_header ?_ _ packet.payload FoldPayloadChecksum packet.seq packet.ack
  rw [List.length_take, hlen, carrierHeaderSize, frameHeaderSize]
  omega

end Nylon.Polyamide
