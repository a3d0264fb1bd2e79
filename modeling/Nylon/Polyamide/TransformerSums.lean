import Nylon.Lib.OnesComplement
import Nylon.Polyamide.PacketSpec
import Nylon.Polyamide.Transformer

/-!
The checksum arithmetic of the transformer. Its 32-bit sums never overflow, since each
term is a 16-bit word and there are few of them; so a sum is the sum of the words it was
given, where subtracting a word adds its complement. A finished checksum makes such a
sum a multiple of 65535.
-/

namespace Nylon.Polyamide.Transformer

open Lib OnesComplement

/-- The sum of at most `k` words is `n`. -/
structure Sums (sum : UInt32) (n k : Nat) : Prop where
  value : sum.toNat = n
  bound : n ≤ k * 65535

section Words

theorem toNat_low (v : UInt32) : (v &&& (0xffff : UInt32)).toNat = v.toNat % 65536 :=
  (UInt32.toNat_and v 0xffff).trans (Nat.and_two_pow_sub_one_eq_mod v.toNat 16)

theorem toNat_high (v : UInt32) : (v >>> 16).toNat = v.toNat / 65536 := by
  rw [UInt32.toNat_shiftRight]
  exact Nat.shiftRight_eq_div_pow v.toNat 16

theorem toNat_complement (v : UInt32) :
    (~~~v &&& (0xffff : UInt32)).toNat = 65535 - v.toNat % 65536 := by
  have h := v.toNat_lt
  have hsize : UInt32.size = 2 ^ 32 := rfl
  rw [toNat_low, UInt32.toNat_not, hsize]
  omega

theorem toNat_bytePair (high low : UInt8) :
    (bytePair high low).toNat = high.toNat * 256 + low.toNat := by
  have hhigh := high.toNat_lt
  have hlow := low.toNat_lt
  have height : (8 : UInt32).toNat % 32 = 8 := rfl
  rw [bytePair, UInt32.toNat_add, UInt32.toNat_shiftLeft, UInt8.toNat_toUInt32,
    UInt8.toNat_toUInt32, height, Nat.shiftLeft_eq]
  omega

end Words

namespace Sums

variable {sum : UInt32} {n k : Nat}

/-- Adds one word. -/
theorem add (h : Sums sum n k) (hk : k < 65536) {v : UInt32} {w : Nat} (hv : v.toNat = w)
    (hw : w ≤ 65535) : Sums (sum + v) (n + w) (k + 1) := by
  have hbound := h.bound
  refine ⟨?_, by omega⟩
  rw [UInt32.toNat_add, h.value, hv]
  omega

theorem addBe16 (h : Sums sum n k) (hk : k < 65536) (v : UInt16) :
    Sums (Transformer.addBe16 sum v) (n + v.toNat) (k + 1) :=
  h.add hk (UInt16.toNat_toUInt32 v) (Nat.le_of_lt_succ v.toNat_lt)

theorem addBe32 (h : Sums sum n k) (hk : k < 65535) (v : UInt32) :
    Sums (Transformer.addBe32 sum v) (n + v.toNat / 65536 + v.toNat % 65536) (k + 2) := by
  have hv := v.toNat_lt
  exact (h.add (by omega) (toNat_high v) (by omega)).add (by omega) (toNat_low v) (by omega)

theorem addPair (h : Sums sum n k) (hk : k < 65536) (high low : UInt8) :
    Sums (sum + bytePair high low) (n + (high.toNat * 256 + low.toNat)) (k + 1) := by
  have hhigh := high.toNat_lt
  have hlow := low.toNat_lt
  exact h.add hk (toNat_bytePair high low) (by omega)

theorem subtract (h : Sums sum n k) (hk : k < 65536) {v : UInt32} {w : Nat}
    (hv : v.toNat % 65536 = w) :
    Sums (sum + (~~~v &&& (0xffff : UInt32))) (n + (65535 - w)) (k + 1) :=
  h.add hk (by rw [toNat_complement, hv]) (Nat.sub_le _ _)

theorem subtractBe16 (h : Sums sum n k) (hk : k < 65536) (v : UInt16) :
    Sums (Transformer.subtractBe16 sum v) (n + (65535 - v.toNat)) (k + 1) :=
  h.subtract hk (by rw [UInt16.toNat_toUInt32, Nat.mod_eq_of_lt v.toNat_lt])

theorem subtractBe32 (h : Sums sum n k) (hk : k < 65535) (v : UInt32) :
    Sums (Transformer.subtractBe32 sum v)
      (n + (65535 - v.toNat / 65536) + (65535 - v.toNat % 65536)) (k + 2) := by
  have hv := v.toNat_lt
  exact (h.subtract (by omega) (by rw [toNat_high]; omega)).subtract (by omega) rfl

theorem pair (high low : UInt8) : Sums (bytePair high low) (high.toNat * 256 + low.toNat) 1 := by
  have hhigh := high.toNat_lt
  have hlow := low.toNat_lt
  exact ⟨toNat_bytePair high low, by omega⟩

end Sums

/-- A finished checksum completes its sum to a multiple of 65535, and is never zero. -/
theorem finishChecksum_spec {sum : UInt32} {n k : Nat} (h : Sums sum n k) :
    ((finishChecksum sum).toNat + n) % 65535 = 0 ∧ 0 < (finishChecksum sum).toNat := by
  have hsum := sum.toNat_lt
  have hfold : ∀ s : UInt32, ((s &&& (0xffff : UInt32)) + (s >>> 16)).toNat = fold s.toNat := by
    intro s
    have hs := s.toNat_lt
    rw [UInt32.toNat_add, toNat_low, toNat_high, fold]
    omega
  have hvalue := h.value
  have hresidue := residue_spec n
  unfold finishChecksum
  dsimp only
  generalize hs : ((sum &&& (0xffff : UInt32)) + (sum >>> 16) &&& (0xffff : UInt32)) +
    (((sum &&& (0xffff : UInt32)) + (sum >>> 16)) >>> 16) = s
  have hnat : s.toNat = residue n := by
    rw [← hs, hfold, hfold, fold_fold hsum, hvalue]
  have hsize : UInt32.size = 2 ^ 32 := rfl
  have hnot : (~~~s).toUInt16.toNat = 65535 - residue n := by
    rw [UInt32.toNat_toUInt16, UInt32.toNat_not, hsize, hnat]
    omega
  split
  · next hzero =>
    have hmax : ((0xffff : UInt16)).toNat = 65535 := rfl
    have hcheck : (~~~s).toUInt16.toNat = 0 := by rw [hzero]; rfl
    rw [hmax]
    omega
  · next hne =>
    have hcheck : (~~~s).toUInt16.toNat ≠ 0 := fun hzero =>
      hne (UInt16.toNat_inj.mp hzero)
    omega

section Totals

variable {sum : UInt32} {n k : Nat}

theorem total_put16 (v : UInt16) (rest : Bytes) : total (put16 v ++ rest) = v.toNat + total rest := by
  have hv := v.toNat_lt
  show total (_ :: _ :: rest) = _
  rw [total_pair, UInt8.toNat_ofNat', UInt8.toNat_ofNat']
  omega

theorem total_put32 (v : UInt32) (rest : Bytes) :
    total (put32 v ++ rest) = v.toNat / 65536 + v.toNat % 65536 + total rest := by
  have hv := v.toNat_lt
  have hhigh : (v >>> 16).toUInt16.toNat = v.toNat / 65536 := by
    rw [UInt32.toNat_toUInt16, toNat_high]
    omega
  rw [put32, List.append_assoc, total_put16, total_put16, hhigh, UInt32.toNat_toUInt16]
  omega

/-- The words of a 32-bit number. -/
def words32 (v : UInt32) : Nat := v.toNat / 65536 + v.toNat % 65536

/-- The words of a TCP header without its checksum. -/
def tcpWords (t : TcpHeader) : Nat :=
  t.source.toNat + t.destination.toNat + words32 t.sequence + words32 t.acknowledgement +
    (t.dataOffset.toNat * 256 + t.flags.toNat) + t.window.toNat + t.urgent.toNat

/-- The words of a carrier header without its checksum. -/
def carrierWords (c : UdpCarrier) : Nat :=
  c.source.toNat + c.destination.toNat + c.length.toNat + c.magic.toNat +
    c.metaField.toNat + words32 c.sequence + words32 c.acknowledgement

theorem total_tcpHeader (t : TcpHeader) (rest : Bytes) :
    total (t.bytes ++ rest) = tcpWords t + t.checksum.toNat + total rest := by
  simp only [TcpHeader.bytes, List.append_assoc, total_put16, total_put32, List.cons_append,
    List.nil_append, total_pair, tcpWords, words32]
  omega

theorem total_udpCarrier (c : UdpCarrier) (rest : Bytes) :
    total (c.bytes ++ rest) = carrierWords c + c.checksum.toNat + total rest := by
  simp only [UdpCarrier.bytes, List.append_assoc, total_put16, total_put32, carrierWords, words32]
  omega

theorem Sums.tcpHeader (h : Sums sum n k) (hk : k < 65000)
    (t : TcpHeader) : Sums (tcpHeaderSum t sum) (n + tcpWords t) (k + 9) := by
  have hsum := ((((((h.addBe16 (by omega) t.source).addBe16 (by omega) t.destination).addBe32
    (by omega) t.sequence).addBe32 (by omega) t.acknowledgement).addPair (by omega)
      t.dataOffset t.flags).addBe16 (by omega) t.window).addBe16 (by omega) t.urgent
  refine ⟨hsum.value.trans ?_, le_trans (le_of_eq ?_) hsum.bound⟩ <;>
    simp only [tcpWords, words32] <;> omega

theorem Sums.carrierHeader (h : Sums sum n k) (hk : k < 65000)
    (c : UdpCarrier) : Sums (carrierHeaderSum c sum) (n + carrierWords c) (k + 9) := by
  have hsum := ((((((h.addBe16 (by omega) c.source).addBe16 (by omega) c.destination).addBe16
    (by omega) c.length).addBe16 (by omega) c.magic).addBe16 (by omega) c.metaField).addBe32
      (by omega) c.sequence).addBe32 (by omega) c.acknowledgement
  refine ⟨hsum.value.trans ?_, le_trans (le_of_eq ?_) hsum.bound⟩ <;>
    simp only [carrierWords, words32] <;> omega

theorem tcpWords_le (t : TcpHeader) : tcpWords t ≤ 9 * 65535 := by
  have hsource := t.source.toNat_lt
  have hdestination := t.destination.toNat_lt
  have hsequence := t.sequence.toNat_lt
  have hack := t.acknowledgement.toNat_lt
  have hoffset := t.dataOffset.toNat_lt
  have hflags := t.flags.toNat_lt
  have hwindow := t.window.toNat_lt
  have hurgent := t.urgent.toNat_lt
  simp only [tcpWords, words32]
  omega

theorem Sums.subtractTcp (h : Sums sum n k) (hk : k < 65000) (t : TcpHeader) :
    Sums (subtractTcpHeader t sum) (n + (9 * 65535 - tcpWords t)) (k + 9) := by
  have hoffset := t.dataOffset.toNat_lt
  have hflags := t.flags.toNat_lt
  have hsequence := t.sequence.toNat_lt
  have hack := t.acknowledgement.toNat_lt
  have hsource := t.source.toNat_lt
  have hdestination := t.destination.toNat_lt
  have hwindow := t.window.toNat_lt
  have hurgent := t.urgent.toNat_lt
  have hpair : (bytePair t.dataOffset t.flags).toNat % 65536 =
      t.dataOffset.toNat * 256 + t.flags.toNat := by
    rw [toNat_bytePair]
    omega
  have hsum := ((((((h.subtractBe16 (by omega) t.source).subtractBe16 (by omega)
    t.destination).subtractBe32 (by omega) t.sequence).subtractBe32 (by omega)
      t.acknowledgement).subtract (by omega) hpair).subtractBe16 (by omega)
        t.window).subtractBe16 (by omega) t.urgent
  refine ⟨hsum.value.trans ?_, le_trans (le_of_eq ?_) hsum.bound⟩ <;>
    simp only [tcpWords, words32] <;> omega

/-- A header with the checksum of the transformer is valid. -/
theorem ipv4Checksum_valid (h : Ipv4Header) : Valid {h with checksum := ipv4Checksum h}.bytes := by
  have hsum := ((((((Sums.pair h.versionIhl h.tos).addBe16 (by omega) h.totalLength).addBe16
    (by omega) h.id).addBe16 (by omega) h.fragmentOffset).addPair (by omega) h.ttl
      h.protocol).addBe32 (by omega) h.source).addBe32 (by omega) h.destination
  have hchecksum := finishChecksum_spec hsum
  change ((ipv4Checksum h).toNat + _) % 65535 = 0 ∧ 0 < (ipv4Checksum h).toNat at hchecksum
  have htotal : total {h with checksum := ipv4Checksum h}.bytes =
      (ipv4Checksum h).toNat + (h.versionIhl.toNat * 256 + h.tos.toNat + h.totalLength.toNat +
        h.id.toNat + h.fragmentOffset.toNat + (h.ttl.toNat * 256 + h.protocol.toNat) +
        h.source.toNat / 65536 + h.source.toNat % 65536 +
        h.destination.toNat / 65536 + h.destination.toNat % 65536) := by
    rw [← List.append_nil (Ipv4Header.bytes _)]
    simp only [Ipv4Header.bytes, List.append_assoc, total_put16, total_put32,
      List.cons_append, List.nil_append, total_pair, total_nil]
    omega
  rw [valid_iff, htotal]
  omega

end Totals

end Nylon.Polyamide.Transformer
