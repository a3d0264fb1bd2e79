import Nylon.Polyamide.TransformerFrames

/-!
The TCP checksum that the transformer computes over a frame. The addresses of either
version are added word by word; with the sum of what follows the header the result is
valid for the segment and its pseudo-header.
-/

namespace Nylon.Polyamide.Transformer

open Lib OnesComplement

variable {sum : UInt32} {n k : Nat}

/-- The words of the two addresses of a header. -/
def IpHeader.addressWords : IpHeader → Nat
  | .ipv4 h => words32 h.source + words32 h.destination
  | .ipv6 h => total h.source + total h.destination

theorem IpHeader.total_pseudoHeader (ip : IpHeader) {length : Nat} (hlen : length ≤ 65535)
    (rest : Bytes) : total (ip.pseudoHeader length ++ rest) =
      ip.addressWords + ip.protocol.toNat + length + total rest := by
  have hshort : (UInt16.ofNat length).toNat = length :=
    UInt16.toNat_ofNat_of_lt' (Nat.lt_succ_of_le hlen)
  have hlong : (UInt32.ofNat length).toNat = length :=
    UInt32.toNat_ofNat_of_lt' (hlen.trans_lt (by decide))
  have hzero : (0 : UInt8).toNat = 0 := rfl
  cases ip with
  | ipv4 h =>
    simp only [pseudoHeader, List.append_assoc, total_put16, total_put32, List.cons_append,
      List.nil_append, total_pair, addressWords, words32, protocol, hshort, hzero]
    omega
  | ipv6 h =>
    simp only [pseudoHeader, List.append_assoc, List.cons_append, List.nil_append,
      addressWords, protocol]
    rw [total_append (by rw [h.source_length]), total_append (by rw [h.destination_length]),
      total_put32, total_pair, total_pair, hlong, hzero]
    omega

theorem total_eq_pairs (n : Nat) (bs : Bytes) (h : bs.length = 2 * n) :
    total bs = ((List.range n).map fun i =>
      (byteAt bs (2 * i)).toNat * 256 + (byteAt bs (2 * i + 1)).toNat).sum := by
  induction n generalizing bs with
  | zero => rw [List.length_eq_zero_iff.mp h]; rfl
  | succ n ih =>
    obtain _ | ⟨a, _ | ⟨b, rest⟩⟩ := bs
    · simp at h
    · simp only [List.length_cons, List.length_nil] at h
      omega
    · have hrest : rest.length = 2 * n := by
        simp only [List.length_cons] at h
        omega
      rw [total_pair, ih rest hrest, List.range_succ_eq_map, List.map_cons, List.sum_cons,
        List.map_map]
      rfl

theorem Sums.foldl (h : Sums sum n k) (a b c d : Nat → UInt8)
    (is : List Nat) (hk : k + 2 * is.length ≤ 65536) :
    Sums (is.foldl (fun sum i => sum + bytePair (a i) (b i) + bytePair (c i) (d i)) sum)
      (n + (is.map fun i => ((a i).toNat * 256 + (b i).toNat) +
        ((c i).toNat * 256 + (d i).toNat)).sum) (k + 2 * is.length) := by
  induction is generalizing sum n k with
  | nil => exact h
  | cons i is ih =>
    rw [List.length_cons] at hk
    have hrest := ih ((h.addPair (by omega) (a i) (b i)).addPair (by omega) (c i) (d i))
      (by omega)
    rw [List.foldl_cons, List.map_cons, List.sum_cons, List.length_cons]
    refine ⟨hrest.value.trans ?_, le_trans (le_of_eq ?_) (hrest.bound.trans (le_of_eq ?_))⟩
      <;> omega

theorem Ipv6Header.byteAt_source (ip : Ipv6Header) (link rest : Bytes) {i : Nat} (hi : i < 16) :
    byteAt (link ++ (ip.bytes ++ rest)) (link.length + 8 + i) = byteAt ip.source i := by
  have hsplit : ip.bytes ++ rest = (put32 ip.versionFlow ++ put16 ip.payloadLength ++
      [ip.nextHeader, ip.hopLimit]) ++ (ip.source ++ (ip.destination ++ rest)) := by
    simp [Ipv6Header.bytes]
  rw [Nat.add_assoc, byteAt_append, hsplit]
  exact (byteAt_append _ _ i).trans (byteAt_append_left (ip.source_length ▸ hi) _)

theorem Ipv6Header.byteAt_destination (ip : Ipv6Header) (link rest : Bytes) {i : Nat}
    (hi : i < 16) :
    byteAt (link ++ (ip.bytes ++ rest)) (link.length + 24 + i) = byteAt ip.destination i := by
  have hsplit : ip.bytes ++ rest = (put32 ip.versionFlow ++ put16 ip.payloadLength ++
      [ip.nextHeader, ip.hopLimit] ++ ip.source) ++ (ip.destination ++ rest) := by
    simp [Ipv6Header.bytes]
  have hlen : (put32 ip.versionFlow ++ put16 ip.payloadLength ++
      [ip.nextHeader, ip.hopLimit] ++ ip.source).length = 24 := by
    simp [ip.source_length]
  rw [Nat.add_assoc, byteAt_append, hsplit]
  rw [← hlen, byteAt_append, byteAt_append_left (ip.destination_length ▸ hi)]

theorem Sums.ipv6Addresses (h : Sums sum n k) (hk : k < 65000)
    (link : Bytes) (ip : Ipv6Header) (rest : Bytes) :
    Sums (addIpv6Addresses (link ++ (ip.bytes ++ rest)) link.length sum)
      (n + (total ip.source + total ip.destination)) (k + 16) := by
  have hfold := h.foldl (fun i => byteAt (link ++ (ip.bytes ++ rest)) (link.length + 8 + i))
    (fun i => byteAt (link ++ (ip.bytes ++ rest)) (link.length + 8 + i + 1))
    (fun i => byteAt (link ++ (ip.bytes ++ rest)) (link.length + 24 + i))
    (fun i => byteAt (link ++ (ip.bytes ++ rest)) (link.length + 24 + i + 1))
    [0, 2, 4, 6, 8, 10, 12, 14] (by simp only [List.length_cons, List.length_nil]; omega)
  have hsource := total_eq_pairs 8 ip.source ip.source_length
  have hdestination := total_eq_pairs 8 ip.destination ip.destination_length
  have hbytes : ∀ i ∈ [0, 2, 4, 6, 8, 10, 12, 14],
      ((byteAt (link ++ (ip.bytes ++ rest)) (link.length + 8 + i)).toNat * 256 +
        (byteAt (link ++ (ip.bytes ++ rest)) (link.length + 8 + i + 1)).toNat) +
      ((byteAt (link ++ (ip.bytes ++ rest)) (link.length + 24 + i)).toNat * 256 +
        (byteAt (link ++ (ip.bytes ++ rest)) (link.length + 24 + i + 1)).toNat) =
      ((byteAt ip.source i).toNat * 256 + (byteAt ip.source (i + 1)).toNat) +
      ((byteAt ip.destination i).toNat * 256 + (byteAt ip.destination (i + 1)).toNat) := by
    intro i hi
    have hlt : i + 1 < 16 := by
      revert i
      decide
    rw [Nat.add_assoc _ i 1, Nat.add_assoc _ i 1, ip.byteAt_source link rest (by omega),
      ip.byteAt_source link rest hlt, ip.byteAt_destination link rest (by omega),
      ip.byteAt_destination link rest hlt]
  have hwords : ([0, 2, 4, 6, 8, 10, 12, 14].map fun i =>
      ((byteAt ip.source i).toNat * 256 + (byteAt ip.source (i + 1)).toNat) +
      ((byteAt ip.destination i).toNat * 256 + (byteAt ip.destination (i + 1)).toNat)).sum =
      total ip.source + total ip.destination := by
    rw [hsource, hdestination]
    simp only [List.range_succ, List.range_zero, List.nil_append, List.cons_append,
      List.map_cons, List.map_nil, List.sum_cons, List.sum_nil, Nat.reduceMul, Nat.reduceAdd]
    omega
  rw [List.map_congr_left hbytes, hwords] at hfold
  exact hfold

theorem Sums.addresses (h : Sums sum n k) (hk : k < 65000) (f : Frame) :
    Sums (addAddresses f.bytes f.info sum) (n + f.ip.addressWords) (k + 16) := by
  cases hip : f.ip with
  | ipv4 ip =>
    have hread : Ipv4Header.read f.bytes f.link.length = ip := by
      rw [Frame.bytes, hip]
      exact Ipv4Header.read_append _ _ _
    have hsum := (h.addBe32 (by omega) ip.source).addBe32 (by omega) ip.destination
    have hvalue := hsum.value
    have hbound := hsum.bound
    simp only [addAddresses, Frame.info, hip, IpHeader.version, hread, IpHeader.addressWords,
      words32]
    exact ⟨hvalue.trans (by omega), by omega⟩
  | ipv6 ip =>
    have hsum := h.ipv6Addresses hk f.link ip (f.body ++ f.trailer)
    simp only [addAddresses, Frame.info, hip, IpHeader.version, IpHeader.addressWords]
    rw [Frame.bytes, hip]
    exact hsum

/-- The checksum that the transformer computes for a segment is right if it is given
the sum of what follows the header. -/
theorem tcpChecksum_valid (f : Frame) (tcp : TcpHeader) {rest : Bytes} {payloadSum : UInt32}
    {one two : UInt16} (hlen : f.body.length = 20 + rest.length)
    (hpayload : payloadSum.toNat ≤ 65535)
    (hrest : (payloadSum.toNat + one.toNat + two.toNat) % 65535 = total rest % 65535) :
    (f.ip.withProtocol ipprotoTcp).TransportValid
      ({tcp with checksum := tcpChecksum f.bytes f.info tcp payloadSum one two}.bytes ++ rest) := by
  have hmax := f.ip.length_le_of_plain f.plain
  have hlength : (UInt32.ofNat f.body.length).toNat = f.body.length :=
    UInt32.toNat_ofNat_of_lt' (hmax.trans_lt (by decide))
  have hproto : ipprotoTcp.toUInt32.toNat = 6 := rfl
  have hstart : Sums payloadSum payloadSum.toNat 1 := ⟨rfl, by omega⟩
  have hsum := ((((((hstart.add (by decide) hproto (by decide)).add (by decide) hlength
    hmax).addresses (by decide) f).tcpHeader (by decide) tcp).addBe16 (by decide) one).addBe16
      (by decide) two)
  have hchecksum := finishChecksum_spec hsum
  change ((tcpChecksum f.bytes f.info tcp payloadSum one two).toNat + _) % 65535 = 0 ∧
    0 < (tcpChecksum f.bytes f.info tcp payloadSum one two).toNat at hchecksum
  have haddresses : (f.ip.withProtocol ipprotoTcp).addressWords = f.ip.addressWords := by
    cases f.ip <;> rfl
  generalize tcpChecksum f.bytes f.info tcp payloadSum one two = checksum at hchecksum ⊢
  have hbody : ({tcp with checksum := checksum}.bytes ++ rest).length = f.body.length := by
    rw [List.length_append, TcpHeader.length_bytes, hlen]
  have hwords : tcpWords {tcp with checksum := checksum} = tcpWords tcp := rfl
  have hsix : ipprotoTcp.toNat = 6 := rfl
  rw [IpHeader.TransportValid, valid_iff, hbody, IpHeader.total_pseudoHeader _ hmax,
    total_tcpHeader, haddresses, IpHeader.protocol_withProtocol, hwords, hsix]
  dsimp only
  omega

end Nylon.Polyamide.Transformer
