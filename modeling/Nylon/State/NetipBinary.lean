import Nylon.Lib.BigEndian
import Nylon.State.Netip

/-!
The binary form of prefixes (`MarshalBinary` and `UnmarshalBinary` of `net/netip`):
the bytes of the address, then one byte for the length. An address of more than
16 bytes carries a zone, which a prefix does not keep. Bytes that stand for no
valid prefix need not be an error: a length that is too large, or no address at
all, gives the invalid prefix, which is `none`.
-/

namespace Nylon.Netip

open Lib

def Addr.marshalBinary : Addr → List UInt8
  | .v4 bits => BigEndian.bytes 4 bits.toNat
  | .v6 bits => BigEndian.bytes 16 bits.toNat

/-- The address without its zone; `none` is the zero `Addr`. -/
def Addr.unmarshalBinary (b : List UInt8) : Except String (Option Addr) :=
  if b.length = 0 then .ok none
  else if b.length = 4 then .ok (some (.v4 (.ofNat 32 (BigEndian.value b))))
  else if 16 ≤ b.length then
    .ok (some (.v6 (.ofNat 128 (BigEndian.value (b.take 16)))))
  else .error "unexpected slice size"

/-- `PrefixFrom`. -/
def prefixFrom (addr : Option Addr) (bits : Nat) : Option Prefix :=
  addr.bind fun addr => if h : bits ≤ addr.bitLen then some ⟨addr, bits, h⟩ else none

namespace Prefix

def marshalBinary (p : Prefix) : List UInt8 :=
  p.addr.marshalBinary ++ [.ofNat p.bits]

def unmarshalBinary (b : List UInt8) : Except String (Option Prefix) :=
  match b.getLast? with
  | none => .error "unexpected slice size"
  | some bits => do
    let addr ← Addr.unmarshalBinary b.dropLast
    return prefixFrom addr bits.toNat

theorem bits_le (p : Prefix) : p.bits ≤ 128 := by
  have hvalid := p.valid
  cases haddr : p.addr <;> simp only [haddr, Addr.bitLen] at hvalid <;> omega

theorem unmarshal_marshal_addr (addr : Addr) :
    Addr.unmarshalBinary addr.marshalBinary = .ok (some addr) := by
  cases addr with
  | v4 bits =>
    have hlt := bits.isLt
    simp only [Addr.marshalBinary, Addr.unmarshalBinary, BigEndian.length_bytes,
      BigEndian.value_bytes]
    norm_num
    apply BitVec.eq_of_toNat_eq
    rw [BitVec.toNat_ofNat]
    omega
  | v6 bits =>
    have hlt := bits.isLt
    have htake : (BigEndian.bytes 16 bits.toNat).take 16 = BigEndian.bytes 16 bits.toNat :=
      List.take_of_length_le (by simp)
    simp only [Addr.marshalBinary, Addr.unmarshalBinary, BigEndian.length_bytes, htake,
      BigEndian.value_bytes]
    norm_num
    apply BitVec.eq_of_toNat_eq
    rw [BitVec.toNat_ofNat]
    omega

theorem unmarshal_marshal (p : Prefix) : unmarshalBinary p.marshalBinary = .ok (some p) := by
  have hbits : (UInt8.ofNat p.bits).toNat = p.bits := by
    have := p.bits_le
    rw [UInt8.toNat_ofNat']
    omega
  simp only [unmarshalBinary, marshalBinary, List.getLast?_concat, List.dropLast_concat,
    unmarshal_marshal_addr, hbits, prefixFrom]
  change Except.ok (dite _ _ _) = _
  rw [dif_pos p.valid]

/-- Without a zone there is one way to write an address. -/
theorem marshal_of_unmarshal_addr {b : List UInt8} {addr : Addr}
    (h : Addr.unmarshalBinary b = .ok (some addr)) (hlength : b.length ≤ 16) :
    addr.marshalBinary = b := by
  have hvalue := BigEndian.value_lt b
  have hback := BigEndian.bytes_value b
  unfold Addr.unmarshalBinary at h
  split at h
  · cases h
  · split at h
    · next h4 =>
      cases h
      rw [h4] at hvalue hback
      rw [Addr.marshalBinary, BitVec.toNat_ofNat, Nat.mod_eq_of_lt (by omega), hback]
    · split at h
      · next h16 =>
        have hlen : b.length = 16 := by omega
        cases h
        rw [hlen] at hvalue hback
        rw [Addr.marshalBinary, List.take_of_length_le (by omega), BitVec.toNat_ofNat,
          Nat.mod_eq_of_lt (by omega), hback]
      · cases h

theorem marshal_of_unmarshal {b : List UInt8} {p : Prefix}
    (h : unmarshalBinary b = .ok (some p)) (hlength : b.length ≤ 17) :
    p.marshalBinary = b := by
  unfold unmarshalBinary at h
  split at h
  · cases h
  · next bits hlast =>
    cases haddr : Addr.unmarshalBinary b.dropLast with
    | error err =>
      rw [haddr] at h
      cases h
    | ok addr =>
      rw [haddr] at h
      have hfrom : prefixFrom addr bits.toNat = some p := Except.ok.inj h
      obtain ⟨addr, rfl, hvalid⟩ := Option.bind_eq_some_iff.mp hfrom
      split at hvalid
      · cases hvalid
        have hbytes := marshal_of_unmarshal_addr haddr (by simp; omega)
        rw [marshalBinary, hbytes, UInt8.ofNat_toNat]
        exact List.dropLast_append_getLast? bits hlast
      · cases hvalid

theorem length_marshalBinary_le (p : Prefix) : p.marshalBinary.length ≤ 17 := by
  rw [marshalBinary, List.length_append, List.length_singleton]
  cases p.addr <;> simp [Addr.marshalBinary]

end Prefix

end Nylon.Netip
