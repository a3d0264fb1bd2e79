import Nylon.Lib.OnesComplement
import Nylon.Polyamide.PacketSpec

/-!
`DecrementTTL` adapts the checksum of an IPv4 header instead of computing it again.
Taking one from the TTL takes `0x100` from the sum of the header, and the checksum
gets it back, with the carry. A valid header, with or without options, stays valid
over any number of hops.
-/

namespace Nylon.Polyamide.Packet

open Lib Lib.OnesComplement

/-- The length of an IPv4 header with its options. -/
def ipv4HeaderSize (p : Packet) : Nat := (p.all.headD 0).toNat % 16 * 4

def ipv4Header (p : Packet) : List UInt8 := p.data.take (ipv4HeaderSize p)

/-- A packet with a complete IPv4 header and the right checksum. -/
structure ValidHeader (p : Packet) : Prop where
  version : version p = 4
  minimal : ipv4HeaderLen ≤ ipv4HeaderSize p
  complete : ipv4HeaderSize p ≤ p.len
  checksum : Valid (ipv4Header p)

instance (p : Packet) : Decidable (ValidHeader p) :=
  decidable_of_iff (version p = 4 ∧ ipv4HeaderLen ≤ ipv4HeaderSize p ∧
    ipv4HeaderSize p ≤ p.len ∧ Valid (ipv4Header p))
    ⟨fun h => ⟨h.1, h.2.1, h.2.2.1, h.2.2.2⟩, fun h => ⟨h.1, h.2, h.3, h.4⟩⟩

/-- The checksum that `DecrementTTL` writes for the one it reads. -/
def nextChecksum (checksum : UInt16) : UInt16 :=
  let csum : UInt32 := checksum.toUInt32 + 0x100
  (csum + (csum >>> 16)).toUInt16

theorem toNat_nextChecksum (checksum : UInt16) :
    (nextChecksum checksum).toNat = fold (checksum.toNat + 256) := by
  have hlt := checksum.toNat_lt
  have hsum : (checksum.toUInt32 + 0x100).toNat = checksum.toNat + 256 := by
    rw [UInt32.toNat_add, UInt16.toNat_toUInt32]
    exact Nat.mod_eq_of_lt (by omega : checksum.toNat + 256 < 2 ^ 32)
  have hcarry : ((checksum.toUInt32 + 0x100) >>> 16).toNat = (checksum.toNat + 256) / 65536 := by
    rw [UInt32.toNat_shiftRight, hsum, Nat.shiftRight_eq_div_pow]
    rfl
  unfold nextChecksum fold
  rw [UInt32.toNat_toUInt16, UInt32.toNat_add, hsum, hcarry]
  omega

section Decrement

variable {p : Packet} {front rest : List UInt8} {t proto a b : UInt8}

/-- The bytes of a header around its TTL and its checksum. -/
theorem split_header (bytes : List UInt8) (h : 12 ≤ bytes.length) :
    ∃ front t proto a b rest, front.length = 8 ∧ bytes = front ++ t :: proto :: a :: b :: rest := by
  have htail : 4 ≤ (bytes.drop 8).length := by
    rw [List.length_drop]
    omega
  have happend := List.take_append_drop 8 bytes
  rcases hdrop : bytes.drop 8 with _ | ⟨t, _ | ⟨proto, _ | ⟨a, _ | ⟨b, rest⟩⟩⟩⟩
  all_goals rw [hdrop] at htail happend
  iterate 4 simp at htail
  refine ⟨bytes.take 8, t, proto, a, b, rest, ?_, happend.symm⟩
  rw [List.length_take]
  omega

theorem overwrite_ttl (hfront : front.length = 8) (v : UInt8) (tail : List UInt8) :
    Slice.overwrite (front ++ t :: tail) 8 [v] = front ++ v :: tail := by
  have h := Slice.overwrite_shift front (t :: tail) 0 [v]
  rw [hfront] at h
  exact h

theorem overwrite_checksum (hfront : front.length = 8) (n : UInt16) :
    Slice.overwrite (front ++ t :: proto :: a :: b :: rest) 10 (put16 n) =
      front ++ t :: proto :: (put16 n ++ rest) := by
  have h := Slice.overwrite_shift front (t :: proto :: a :: b :: rest) 2 (put16 n)
  rw [hfront] at h
  exact h

theorem ttl_split (hdata : p.data = front ++ t :: rest) (hfront : front.length = 8)
    (hver : version p = 4) : ttl p = t := by
  have hsome : p.all[8]? = some t := by
    rw [Slice.all, hdata, List.append_assoc, List.getElem?_append_right hfront.le, hfront]
    rfl
  rw [ttl, ttlIndex, if_pos hver, List.getD_eq_getElem?_getD, hsome, Option.getD_some]

/-- A write within the packet, in terms of its data and of what routing looks at. -/
theorem patch_inside {i : Nat} (vs : List UInt8) (hpos : 0 < i) (hbefore : i + vs.length ≤ 16)
    (hlen : i + vs.length ≤ p.len) :
    ∃ q, p.patch i vs = .ok q ∧ q.data = Slice.overwrite p.data i vs ∧ SameRouting p q := by
  obtain ⟨q, hq, hsame⟩ := patch_sameRouting vs hpos hbefore hlen
  obtain ⟨q', hq', hdata⟩ := Slice.patch_data i vs hlen
  obtain rfl : q' = q := Except.ok.inj (hq'.symm.trans hq)
  exact ⟨q', hq, hdata, hsame⟩

/-- What `DecrementTTL` makes of an IPv4 packet. -/
theorem decrementTTL_ipv4 (hdata : p.data = front ++ t :: proto :: a :: b :: rest)
    (hfront : front.length = 8) (hheader : HasHeader p) (hver : version p = 4) :
    ∃ q, decrementTTL p = .ok q ∧ SameRouting p q ∧
      q.data = front ++ (t - 1) :: proto :: (put16 (nextChecksum (be16 [a, b])) ++ rest) := by
  have hlen := hheader.ipv4_le hver
  obtain ⟨q, hq, hqdata, hsame⟩ := patch_inside (p := p) (i := 8) [t - 1] (by decide)
    (by simp) (by simp; omega)
  rw [hdata, overwrite_ttl hfront] at hqdata
  have hqlen : 20 ≤ q.len := hsame.len ▸ hlen
  obtain ⟨r, hr, hrdata, hsame'⟩ := patch_inside (p := q) (i := 10)
    (put16 (nextChecksum (be16 [a, b]))) (by decide) (by simp [put16])
    (show 10 + 2 ≤ q.len by omega)
  rw [hqdata, overwrite_checksum hfront] at hrdata
  have hfield : q.sub 10 12 = .ok [a, b] := by
    rw [sub_of_le_len 10 (by decide) (by omega), Slice.all, hqdata, List.append_assoc,
      List.take_append, List.drop_append, hfront]
    simp [hfront]
  refine ⟨r, ?_, hsame.trans hsame', hrdata⟩
  rw [decrementTTL, hheader.ttlOffset (.inl hver), Go.ok_bind, hheader.getTTL (.inl hver),
    Go.ok_bind, ttl_split hdata hfront hver, ttlIndex, if_pos hver, hq, Go.ok_bind,
    (hsame.hasHeader hheader).getIPVersion, Go.ok_bind, if_pos (hsame.version.trans hver),
    hfield, Go.ok_bind]
  exact hr

end Decrement

section Sum

variable {front rest : List UInt8} {t proto a b : UInt8}

theorem total_header (hfront : front.length = 8) : total (front ++ t :: proto :: a :: b :: rest) =
      total front + (t.toNat * 256 + proto.toNat) + (a.toNat * 256 + b.toNat) + total rest := by
  rw [total_append (by omega), total_pair, total_pair]
  omega

/-- The checksum gains what the TTL loses. -/
theorem valid_decremented (hfront : front.length = 8) (hpos : 0 < t.toNat)
    (hvalid : Valid (front ++ t :: proto :: a :: b :: rest)) :
    Valid (front ++ (t - 1) :: proto ::
      (put16 (nextChecksum (be16 [a, b])) ++ rest)) := by
  have hsum := toNat_nextChecksum (be16 [a, b])
  rw [toNat_be16] at hsum
  have hlt := (nextChecksum (be16 [a, b])).toNat_lt
  have hone := toNat_sub_one hpos
  have hput : total (put16 (nextChecksum (be16 [a, b])) ++ rest) =
      (nextChecksum (be16 [a, b])).toNat + total rest := by
    simp only [put16, List.cons_append, List.nil_append, total_pair, UInt8.toNat_ofNat']
    omega
  rw [valid_iff, total_header hfront] at hvalid
  rw [valid_iff, total_append (by omega), total_pair, hput, hone, hsum]
  unfold fold
  omega

end Sum

/-- The packet after `n` hops that decrement its TTL. -/
def decrementTTLs : Nat → Packet → Go Packet
  | 0, p => return p
  | n + 1, p => do
    let p ← decrementTTL p
    decrementTTLs n p

/-- The header is valid `n` hops later, and only the TTL and the checksum differ. -/
structure HopsLater (n : Nat) (p q : Packet) : Prop where
  valid : ValidHeader q
  ttl : (ttl q).toNat + n = (ttl p).toNat
  same : ∀ i, i ≠ 8 → i ≠ 10 → i ≠ 11 → q.data[i]? = p.data[i]?

theorem HopsLater.trans {m n : Nat} {p q r : Packet} (h : HopsLater m p q)
    (h' : HopsLater n q r) : HopsLater (m + n) p r where
  valid := h'.valid
  ttl := by
    have := h.ttl
    have := h'.ttl
    omega
  same i h8 h10 h11 := (h'.same i h8 h10 h11).trans (h.same i h8 h10 h11)

section Hops

variable {p : Packet}

theorem ValidHeader.hasHeader (h : ValidHeader p) : HasHeader p := by
  rw [HasHeader, headerLen, if_pos h.version]
  exact h.minimal.trans h.complete

theorem ipv4HeaderSize_append {front tail : List UInt8} (hdata : p.data = front ++ tail)
    (hne : front ≠ []) : ipv4HeaderSize p = (front.headD 0).toNat % 16 * 4 := by
  obtain ⟨v, rest, rfl⟩ := List.exists_cons_of_ne_nil hne
  rw [ipv4HeaderSize, Slice.all, hdata]
  rfl

/-- The header of a packet whose first twelve bytes are written out. -/
theorem ipv4Header_split {front rest : List UInt8} {t proto a b : UInt8}
    (hdata : p.data = front ++ t :: proto :: a :: b :: rest) (hfront : front.length = 8)
    (hsize : 12 ≤ ipv4HeaderSize p) :
    ipv4Header p = front ++ t :: proto :: a :: b :: rest.take (ipv4HeaderSize p - 12) := by
  obtain ⟨k, hk⟩ : ∃ k, ipv4HeaderSize p = front.length + (k + 1 + 1 + 1 + 1) :=
    ⟨ipv4HeaderSize p - 12, by omega⟩
  rw [ipv4Header, hdata, hk, List.take_length_add_append]
  simp only [List.take_succ_cons]
  rw [show front.length + (k + 1 + 1 + 1 + 1) - 12 = k by omega]

/-- One hop: the TTL is one lower and the header is valid again. -/
theorem ValidHeader.decrementTTL (h : ValidHeader p) (hpos : 0 < (Packet.ttl p).toNat) :
    ∃ q, decrementTTL p = .ok q ∧ HopsLater 1 p q := by
  have hheader := h.hasHeader
  have hlen := hheader.ipv4_le h.version
  have hsize : 20 ≤ ipv4HeaderSize p := h.minimal
  obtain ⟨front, t, proto, a, b, rest, hfront, hdata⟩ :=
    split_header p.data (show 12 ≤ p.len by omega)
  have hne : front ≠ [] := List.ne_nil_of_length_pos (by omega)
  obtain ⟨q, hq, hsame, hqdata⟩ := decrementTTL_ipv4 hdata hfront hheader h.version
  have hqver : Packet.version q = 4 := hsame.version.trans h.version
  have hqsize : ipv4HeaderSize q = ipv4HeaderSize p :=
    (ipv4HeaderSize_append hqdata hne).trans (ipv4HeaderSize_append hdata hne).symm
  have httl : Packet.ttl p = t := ttl_split hdata hfront h.version
  have hqttl : Packet.ttl q = t - 1 := ttl_split hqdata hfront hqver
  rw [httl] at hpos
  have hvalid := h.checksum
  rw [ipv4Header_split hdata hfront (by omega)] at hvalid
  refine ⟨q, hq, ⟨hqver, hqsize ▸ h.minimal, ?_, ?_⟩, ?_, ?_⟩
  · exact hsame.len ▸ hqsize ▸ h.complete
  · rw [ipv4Header_split hqdata hfront (by omega), hqsize]
    exact valid_decremented hfront hpos hvalid
  · rw [httl, hqttl, toNat_sub_one hpos]
    exact Nat.sub_add_cancel hpos
  · intro i h8 h10 h11
    rw [hqdata, hdata]
    rcases Nat.lt_or_ge i 8 with hi | hi
    · rw [List.getElem?_append_left (by omega), List.getElem?_append_left (by omega)]
    · obtain ⟨k, rfl⟩ : ∃ k, i = front.length + k := ⟨i - 8, by omega⟩
      rw [List.getElem?_append_right (by omega), List.getElem?_append_right (by omega),
        Nat.add_sub_cancel_left]
      -- beside the TTL and the checksum there is the protocol, then what follows
      rcases k with _ | _ | _ | _ | k
      · omega
      · rfl
      · omega
      · omega
      · rfl

end Hops

/-- Over any number of hops that the TTL allows, each header is valid, the TTL drops
by one per hop, and no other byte changes. -/
theorem decrementTTL_keeps_checksum (p : Packet) (h : ValidHeader p) :
    (1 ≤ (ttl p).toNat → ∃ q, decrementTTL p = .ok q ∧ HopsLater 1 p q) ∧
      ∀ n ≤ (ttl p).toNat, ∃ q, decrementTTLs n p = .ok q ∧ HopsLater n p q := by
  refine ⟨fun hpos => h.decrementTTL hpos, fun n => ?_⟩
  induction n generalizing p with
  | zero => exact fun _ => ⟨p, rfl, h, rfl, fun _ _ _ _ => rfl⟩
  | succ n ih =>
    intro hn
    obtain ⟨q, hq, hhop⟩ := h.decrementTTL (by omega)
    have hqttl := hhop.ttl
    obtain ⟨r, hr, hhops⟩ := ih q hhop.valid (by omega)
    refine ⟨r, ?_, Nat.add_comm 1 n ▸ hhop.trans hhops⟩
    rw [decrementTTLs, hq, Go.ok_bind, hr]

/-- A packet with an option and a checksum that carries when its TTL drops. -/
theorem decrementTTL_keeps_checksum_option :
    ∃ q, decrementTTLs 2 ⟨[0x46, 0, 0, 26, 0x12, 0x34, 0x40, 0, 2, 17, 0xff, 0x0e, 10, 0, 0, 1,
      0x5a, 0x8e, 0, 1, 1, 1, 1, 0, 0xaa, 0xbb], []⟩ = .ok q ∧
      ValidHeader q ∧ ttl q = 0 := by
  have h : ValidHeader ⟨[0x46, 0, 0, 26, 0x12, 0x34, 0x40, 0, 2, 17, 0xff, 0x0e, 10, 0, 0, 1,
      0x5a, 0x8e, 0, 1, 1, 1, 1, 0, 0xaa, 0xbb], []⟩ := by decide +kernel
  obtain ⟨q, hq, hhops⟩ := (decrementTTL_keeps_checksum _ h).2 2 (by decide +kernel)
  exact ⟨q, hq, hhops.valid, UInt8.toNat_inj.mp (Nat.add_right_cancel hhops.ttl)⟩

end Nylon.Polyamide.Packet
