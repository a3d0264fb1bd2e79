import Mathlib.Data.BitVec
import Mathlib.Tactic

/-!
The parts of Go's `net/netip` the routing code relies on: addresses of the two
families, prefixes, `Masked` and `Contains`. Zones are left out: no address in
the routing tables or in a packet header carries one.
-/

namespace Nylon.Netip

inductive Addr where
  | v4 (bits : BitVec 32)
  | v6 (bits : BitVec 128)
  deriving DecidableEq, Repr

namespace Addr

def bitLen : Addr → Nat
  | .v4 _ => 32
  | .v6 _ => 128

/-- `netip.IPv4Unspecified()`, the address `0.0.0.0`. -/
def ipv4Unspecified : Addr := .v4 0

/-- `netip.IPv6Unspecified()`, the address `::`. -/
def ipv6Unspecified : Addr := .v6 0

/-- The address with everything after its first `n` bits cleared. -/
def truncate (n : Nat) : Addr → Addr
  | .v4 bits => .v4 ((bits >>> (32 - n)) <<< (32 - n))
  | .v6 bits => .v6 ((bits >>> (128 - n)) <<< (128 - n))

@[simp] theorem truncate_bitLen (n : Nat) (a : Addr) : (a.truncate n).bitLen = a.bitLen := by
  cases a <;> rfl

private theorem shift_shift {w : Nat} (x : BitVec w) (i j : Nat) (h : i ≤ j) :
    (((x >>> i) <<< i) >>> j) <<< j = (x >>> j) <<< j := by
  apply BitVec.eq_of_getLsbD_eq
  intro k hk
  simp only [BitVec.getLsbD_shiftLeft, BitVec.getLsbD_ushiftRight]
  by_cases hlt : k < j
  · simp [hlt]
  · have hsum : j + (k - j) = k := by omega
    have hi : ¬ k < i := by omega
    have hback : i + (k - i) = k := by omega
    simp [hsum, hlt, hi, hback, hk]

/-- Clearing more bits absorbs an earlier clearing of fewer bits. -/
theorem truncate_truncate (m n : Nat) (h : m ≤ n) (a : Addr) :
    (a.truncate n).truncate m = a.truncate m := by
  cases a with
  | v4 bits =>
    simp only [truncate, Addr.v4.injEq]
    exact shift_shift bits (32 - n) (32 - m) (by omega)
  | v6 bits =>
    simp only [truncate, Addr.v6.injEq]
    exact shift_shift bits (128 - n) (128 - m) (by omega)

end Addr

/-- `netip.Prefix`. Only valid prefixes are values of this type: the length is
within the address family. -/
structure Prefix where
  addr : Addr
  bits : Nat
  valid : bits ≤ addr.bitLen
  deriving DecidableEq, Repr

namespace Prefix

/-- A length of 24 bits is within an IPv4 address. -/
theorem bits24_le : 24 ≤ 32 := by decide

/-- `Prefix.Masked`: the same network with all host bits cleared. -/
def masked (p : Prefix) : Prefix :=
  ⟨p.addr.truncate p.bits, p.bits, by simpa using p.valid⟩

/-- `Prefix.Contains`: an address of the same family that agrees with the
prefix on its first `bits` bits. -/
def contains (p : Prefix) (a : Addr) : Bool :=
  a.bitLen == p.addr.bitLen && a.truncate p.bits == p.addr.truncate p.bits

def Masked (p : Prefix) : Prop := p.masked = p

instance (p : Prefix) : Decidable p.Masked :=
  inferInstanceAs (Decidable (p.masked = p))

theorem masked_masked (p : Prefix) : p.masked.masked = p.masked := by
  simp [masked, Addr.truncate_truncate]

theorem contains_masked (p : Prefix) (a : Addr) : p.masked.contains a = p.contains a := by
  simp [contains, masked, Addr.truncate_truncate]

/-- Two masked prefixes of one length that share an address are equal, so the
longest match in a table of masked prefixes is unique. -/
theorem eq_of_contains {p q : Prefix} {a : Addr} (hp : p.Masked) (hq : q.Masked)
    (hbits : p.bits = q.bits) (hpa : p.contains a = true)
    (hqa : q.contains a = true) : p = q := by
  simp only [contains, Bool.and_eq_true, beq_iff_eq] at hpa hqa
  have hpaddr : p.addr.truncate p.bits = p.addr := congrArg Prefix.addr hp
  have hqaddr : q.addr.truncate q.bits = q.addr := congrArg Prefix.addr hq
  have haddr : p.addr = q.addr := by
    calc p.addr = p.addr.truncate p.bits := hpaddr.symm
      _ = a.truncate p.bits := hpa.2.symm
      _ = a.truncate q.bits := by rw [hbits]
      _ = q.addr.truncate q.bits := hqa.2
      _ = q.addr := hqaddr
  cases p
  cases q
  simp_all

end Prefix

end Nylon.Netip
