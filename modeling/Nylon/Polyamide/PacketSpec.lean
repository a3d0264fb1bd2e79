import Nylon.Polyamide.TrafficManip

/-!
What the accessors of a packet return. Parsing and validation never panic; on a
packet with a complete header neither does any accessor for its version, and
the result is read off the bytes by a pure function. Decrementing the TTL keeps
everything that routing looks at.
-/

namespace Nylon.Polyamide

open Lib Netip

theorem beNat_put16 (n : UInt16) : beNat (put16 n) = n.toNat := by
  have hlt := n.toNat_lt
  simp only [beNat, put16, List.foldl_cons, List.foldl_nil, UInt8.toNat_ofNat']
  omega

theorem be16_put16 (n : UInt16) : be16 (put16 n) = n := by
  rw [be16, beNat_put16, UInt16.ofNat_toNat]

theorem toNat_be16 (a b : UInt8) : (be16 [a, b]).toNat = a.toNat * 256 + b.toNat := by
  have ha := a.toNat_lt
  have hb := b.toNat_lt
  simp only [be16, beNat, List.foldl_cons, List.foldl_nil, UInt16.toNat_ofNat']
  omega

theorem toNat_sub_one {t : UInt8} (hpos : 0 < t.toNat) : (t - 1).toNat = t.toNat - 1 := by
  have hle : (1 : UInt8) ≤ t := UInt8.le_iff_toNat_le.mpr (show 1 ≤ t.toNat from hpos)
  rw [UInt8.toNat_sub_of_le _ _ hle]
  rfl

theorem exists_word {bytes : List UInt8} (h : 4 ≤ bytes.length) :
    ∃ a b c d rest, bytes = a :: b :: c :: d :: rest := by
  obtain _ | ⟨a, _ | ⟨b, _ | ⟨c, _ | ⟨d, rest⟩⟩⟩⟩ := bytes
  all_goals first | exact ⟨_, _, _, _, _, rfl⟩ | simp at h

namespace Packet

variable {p : Packet}

/-- The "IP version" of a packet with at least one byte. -/
def version (p : Packet) : Nat := ((p.all.headD 0) >>> 4).toNat

def headerLen (ver : Nat) : Nat :=
  if ver = 4 then ipv4HeaderLen else if ver = 6 then ipv6HeaderLen else polyHeaderSize

def HasHeader (p : Packet) : Prop := headerLen (version p) ≤ p.len

instance (p : Packet) : Decidable (HasHeader p) := inferInstanceAs (Decidable (_ ≤ _))

def totalLength (p : Packet) : UInt16 :=
  if version p = 4 then be16 ((p.all.take 4).drop 2)
  else if version p = 6 then be16 ((p.all.take 6).drop 4) + .ofNat ipv6HeaderLen
  else be16 ((p.all.take 3).drop 1) + .ofNat polyHeaderSize

/-- The destination in a complete header. -/
def dst (p : Packet) : Addr :=
  addrOf (version p) (if version p = 4 then (p.all.take 20).drop 16
    else (p.all.take 40).drop 24)

theorem polyHeaderSize_le_headerLen (ver : Nat) : polyHeaderSize ≤ headerLen ver := by
  unfold headerLen
  split_ifs <;> decide

theorem HasHeader.poly_le (h : HasHeader p) : 3 ≤ p.len :=
  (polyHeaderSize_le_headerLen _).trans h

theorem HasHeader.ipv4_le (h : HasHeader p) (hver : version p = 4) : 20 ≤ p.len := by
  simpa [HasHeader, headerLen, hver, ipv4HeaderLen] using h

theorem HasHeader.ipv6_le (h : HasHeader p) (hver : version p = 6) : 40 ≤ p.len := by
  simpa [HasHeader, headerLen, hver, ipv6HeaderLen] using h

theorem getIPVersion_eq (h : 0 < p.len) : getIPVersion p = .ok (version p) := by
  obtain ⟨b, hindex, hget⟩ := Slice.index_eq h
  have hhead : p.all.headD 0 = b := by
    rw [List.headD_eq_head?_getD, List.head?_eq_getElem?, hget]
    rfl
  simp only [getIPVersion, hindex, Go.ok_bind, version, hhead]
  rfl

theorem HasHeader.getIPVersion (h : HasHeader p) : getIPVersion p = .ok (version p) :=
  getIPVersion_eq (by have := h.poly_le; omega)

/-- A header field lies within the length. -/
theorem sub_of_le_len (low : Nat) {high : Nat} (hlow : low ≤ high)
    (hhigh : high ≤ p.len) : p.sub low high = .ok ((p.all.take high).drop low) :=
  Slice.sub_eq hlow (hhigh.trans p.len_le_all)

theorem hasPacketHeader_eq (p : Packet) : hasPacketHeader p = .ok (decide (HasHeader p)) := by
  unfold hasPacketHeader
  by_cases hlen : p.len < polyHeaderSize
  · have hno : ¬ HasHeader p := fun h => absurd (h.poly_le) (Nat.not_le.mpr hlen)
    rw [if_pos hlen, decide_eq_false hno]
    rfl
  · have hpoly : 3 ≤ p.len := Nat.not_lt.mp hlen
    rw [if_neg hlen, getIPVersion_eq (by omega), Go.ok_bind]
    by_cases h4 : version p = 4
    · simp [h4, HasHeader, headerLen, pure, Except.pure]
    · by_cases h6 : version p = 6
      · simp [h6, HasHeader, headerLen, pure, Except.pure]
      · simp [h4, h6, HasHeader, headerLen, polyHeaderSize, hpoly, pure, Except.pure]

theorem HasHeader.getLength (h : HasHeader p) : getLength p = .ok (totalLength p) := by
  have hpoly := h.poly_le
  unfold Packet.getLength totalLength
  rw [h.getIPVersion, Go.ok_bind]
  by_cases h4 : version p = 4
  · have hlen := h.ipv4_le h4
    rw [if_pos h4, if_pos h4, sub_of_le_len _ (by decide)
      (show ipv4OffsetTotalLength + 2 ≤ p.len from (by decide : _ ≤ 20).trans hlen)]
    rfl
  · by_cases h6 : version p = 6
    · have hlen := h.ipv6_le h6
      rw [if_neg h4, if_pos h6, if_neg h4, if_pos h6, sub_of_le_len _ (by decide)
        (show ipv6OffsetPayloadLength + 2 ≤ p.len from (by decide : _ ≤ 40).trans hlen)]
      rfl
    · rw [if_neg h4, if_neg h6, if_neg h4, if_neg h6, sub_of_le_len _ (by decide)
        (show polyOffsetPayloadLength + 2 ≤ p.len from hpoly)]
      rfl

/-- The accessors of addresses slice the same way, for the offsets of their field. -/
theorem HasHeader.addrBytes (h : HasHeader p) (off4 off6 : Nat)
    (h4 : off4 + 4 ≤ 20) (h6 : off6 + 16 ≤ 40) :
    ∃ b : List UInt8,
      (if version p = 4 then p.sub off4 (off4 + 4)
        else if version p = 6 then p.sub off6 (off6 + 16) else .ok []) = .ok b ∧
      (version p = 4 → b = (p.all.take (off4 + 4)).drop off4) ∧
      (version p = 6 → b = (p.all.take (off6 + 16)).drop off6) := by
  by_cases hver4 : version p = 4
  · have hlen := h.ipv4_le hver4
    refine ⟨_, ?_, fun _ => rfl, fun hver6 => absurd (hver4.symm.trans hver6) (by decide)⟩
    rw [if_pos hver4]
    exact sub_of_le_len off4 (by omega) (by omega)
  · by_cases hver6 : version p = 6
    · have hlen := h.ipv6_le hver6
      refine ⟨_, ?_, fun hver => absurd hver hver4, fun _ => rfl⟩
      rw [if_neg hver4, if_pos hver6]
      exact sub_of_le_len off6 (by omega) (by omega)
    · exact ⟨[], by rw [if_neg hver4, if_neg hver6], fun hver => absurd hver hver4,
        fun hver => absurd hver hver6⟩

theorem HasHeader.getDstBytes (h : HasHeader p) : ∃ b, getDstBytes p = .ok b ∧
      (version p = 4 → b = (p.all.take 20).drop 16) ∧
      (version p = 6 → b = (p.all.take 40).drop 24) := by
  unfold Packet.getDstBytes
  rw [h.getIPVersion, Go.ok_bind]
  exact h.addrBytes ipv4OffsetDst ipv6OffsetDst (by decide) (by decide)

theorem HasHeader.getDst (h : HasHeader p) : getDst p = .ok (dst p) := by
  obtain ⟨b, hb, h4, h6⟩ := h.getDstBytes
  unfold Packet.getDst dst
  rw [h.getIPVersion, Go.ok_bind, hb, Go.ok_bind]
  by_cases hver4 : version p = 4
  · rw [if_pos hver4, h4 hver4]
    rfl
  · rw [if_neg hver4]
    by_cases hver6 : version p = 6
    · rw [h6 hver6]
      rfl
    · simp only [addrOf, if_neg hver4, if_neg hver6]
      rfl

theorem HasHeader.getSrc (h : HasHeader p) : ∃ a, getSrc p = .ok a := by
  obtain ⟨b, hb, -, -⟩ := h.addrBytes ipv4OffsetSrc ipv6OffsetSrc
    (by decide) (by decide)
  refine ⟨addrOf (version p) b, ?_⟩
  unfold Packet.getSrc Packet.getSrcBytes
  rw [h.getIPVersion, Go.ok_bind, Go.ok_bind]
  exact congrArg (· >>= fun b => pure (addrOf (version p) b)) hb

/-- The destination bytes of an IP packet have the length of an address. -/
theorem HasHeader.length_getDstBytes (h : HasHeader p) {b : List UInt8}
    (hb : Packet.getDstBytes p = .ok b) :
    (version p = 4 → b.length = 4) ∧ (version p = 6 → b.length = 16) := by
  obtain ⟨b', hb', h4, h6⟩ := h.getDstBytes
  obtain rfl : b' = b := Except.ok.inj (hb'.symm.trans hb)
  have hle := p.len_le_all
  constructor
  · intro hver
    have hlen := h.ipv4_le hver
    rw [h4 hver, List.length_drop, List.length_take]
    omega
  · intro hver
    have hlen := h.ipv6_le hver
    rw [h6 hver, List.length_drop, List.length_take]
    omega

/-- Packets that are not IP have no destination, which reads as `0.0.0.0`. -/
theorem dst_of_not_ip (h4 : version p ≠ 4) (h6 : version p ≠ 6) : dst p = Addr.ipv4Unspecified := by
  simp [dst, addrOf, h4, h6]

theorem HasHeader.payload (h : HasHeader p) :
    payload p = .ok (p.data.drop (headerLen (version p))) := by
  have hlen : headerLen (version p) ≤ p.len := h
  unfold Packet.payload
  rw [h.getIPVersion, Go.ok_bind]
  unfold headerLen at hlen ⊢
  split_ifs at hlen ⊢ <;> exact Slice.after_eq hlen

/-- Every header with the length field has room for it. -/
theorem setLength_ok (n : UInt16) (h : 6 ≤ p.len) : ∃ q, setLength p n = .ok q ∧ q.len = p.len := by
  have hall := h.trans p.len_le_all
  have hpatch : ∀ i m, i ≤ 4 → ∃ q, p.patch i (put16 m) = .ok q ∧ q.len = p.len := by
    intro i m hi
    obtain ⟨q, hq, -, hlen⟩ := Slice.patch_eq (s := p) i (put16 m)
      (show i + 2 ≤ _ by omega)
    exact ⟨q, hq, hlen⟩
  unfold setLength
  rw [getIPVersion_eq (by omega), Go.ok_bind]
  split_ifs <;> exact hpatch _ _ (by decide)

/-- What the length field leaves of a packet. -/
def trimmed (p : Packet) : Packet := .ofAll p.all (totalLength p).toNat

/-- The packets that are parsed and validated: the header is complete, and the
length field covers it and stays within the packet. -/
structure Accepted (p : Packet) : Prop where
  hasHeader : HasHeader p
  within : (totalLength p).toNat ≤ p.len
  covers : headerLen (version p) ≤ (totalLength p).toNat

instance (p : Packet) : Decidable (Accepted p) :=
  decidable_of_iff (HasHeader p ∧ (totalLength p).toNat ≤ p.len ∧
    headerLen (version p) ≤ (totalLength p).toNat)
    ⟨fun h => ⟨h.1, h.2.1, h.2.2⟩, fun h => ⟨h.1, h.2, h.3⟩⟩

theorem parseLength_eq (p : Packet) :
    parseLength p = .ok (if HasHeader p ∧ (totalLength p).toNat ≤ p.len
      then (true, trimmed p) else (false, p)) := by
  unfold parseLength
  rw [hasPacketHeader_eq, Go.ok_bind]
  by_cases hheader : HasHeader p
  · rw [hheader.getLength, Go.ok_bind]
    by_cases hlen : (totalLength p).toNat ≤ p.len
    · have hupTo : p.upTo (totalLength p).toNat = .ok (trimmed p) :=
        if_pos (hlen.trans p.len_le_all)
      rw [hupTo, Go.ok_bind]
      simp [hheader, hlen, pure, Except.pure]
    · simp [hheader, hlen, pure, Except.pure]
  · simp [hheader, pure, Except.pure]

theorem parsePacket_ok (p : Packet) : ∃ r, parsePacket p = .ok r :=
  ⟨_, parseLength_eq _⟩

theorem validate_eq (p : Packet) : validate p = .ok (decide (HasHeader p ∧
      headerLen (version p) ≤ (totalLength p).toNat)) := by
  unfold validate
  by_cases hempty : p.len = 0
  · have hno : ¬ HasHeader p := fun h => by have := h.poly_le; omega
    rw [if_pos hempty]
    simp [hno, pure, Except.pure]
  · rw [if_neg hempty, hasPacketHeader_eq, Go.ok_bind]
    by_cases hheader : HasHeader p
    · rw [hheader.getIPVersion, hheader.getLength, Go.ok_bind, Go.ok_bind]
      unfold headerLen
      split_ifs <;> simp_all [pure, Except.pure]
    · simp [hheader, pure, Except.pure]

@[simp] theorem version_trimmed (p : Packet) : version (trimmed p) = version p := by
  simp [version, trimmed]

@[simp] theorem dst_trimmed (p : Packet) : dst (trimmed p) = dst p := by
  simp [dst, trimmed, version]

@[simp] theorem totalLength_trimmed (p : Packet) : totalLength (trimmed p) = totalLength p := by
  simp [totalLength, trimmed, version]

theorem len_trimmed (h : (totalLength p).toNat ≤ p.len) : (trimmed p).len = (totalLength p).toNat :=
  Slice.len_ofAll (h.trans p.len_le_all)

theorem Accepted.hasHeader_trimmed (h : Accepted p) : HasHeader (trimmed p) := by
  rw [HasHeader, version_trimmed, len_trimmed h.within]
  exact h.covers

theorem validate_trimmed (h : (totalLength p).toNat ≤ p.len) : validate (trimmed p) =
      .ok (decide (headerLen (version p) ≤ (totalLength p).toNat)) := by
  have hheader : HasHeader (trimmed p) ↔ headerLen (version p) ≤ (totalLength p).toNat := by
    rw [HasHeader, version_trimmed, len_trimmed h]
  simp [validate_eq, hheader]

/-- A packet is parsed and validated exactly if it is accepted. -/
theorem parse_validate (h : 0 < p.len) : ∃ ok q, parsePacket p = .ok (ok, q) ∧
      ((ok = true ∧ validate q = .ok true) ↔ Accepted p) ∧
      (Accepted p → q = trimmed p) := by
  have hparse : parsePacket p = _ :=
    (congrArg parseLength (if_neg h.ne')).trans (parseLength_eq p)
  by_cases hcond : HasHeader p ∧ (totalLength p).toNat ≤ p.len
  · rw [if_pos hcond] at hparse
    refine ⟨true, trimmed p, hparse, ?_, fun _ => rfl⟩
    simp only [validate_trimmed hcond.2, Except.ok.injEq, decide_eq_true_eq, true_and]
    exact ⟨fun hcovers => ⟨hcond.1, hcond.2, hcovers⟩, fun haccepted => haccepted.covers⟩
  · rw [if_neg hcond] at hparse
    have hno : ¬ Accepted p := fun haccepted => hcond ⟨haccepted.hasHeader, haccepted.within⟩
    exact ⟨false, p, hparse, by simp [hno], fun haccepted => absurd haccepted hno⟩

/-- The packets agree in everything that routing looks at. -/
structure SameRouting (p q : Packet) : Prop where
  len : q.len = p.len
  version : q.version = p.version
  dst : q.dst = p.dst

theorem SameRouting.hasHeader {q : Packet} (h : SameRouting p q) (hp : HasHeader p) :
    HasHeader q := by
  rw [HasHeader, h.version, h.len]
  exact hp

theorem SameRouting.trans {q r : Packet} (h : SameRouting p q) (h' : SameRouting q r) :
    SameRouting p r :=
  ⟨h'.len.trans h.len, h'.version.trans h.version, h'.dst.trans h.dst⟩

/-- A write between the first byte and the destination. -/
theorem patch_sameRouting {i : Nat} (vs : List UInt8) (hpos : 0 < i)
    (hbefore : i + vs.length ≤ 16) (hlen : i + vs.length ≤ p.len) :
    ∃ q, p.patch i vs = .ok q ∧ SameRouting p q := by
  have hall := hlen.trans p.len_le_all
  obtain ⟨q, hq, hqall, hqlen⟩ := Slice.patch_eq (s := p) i vs hall
  have hver : version q = version p := by
    unfold version
    rw [hqall, Slice.overwrite_headD vs hpos (by omega)]
  refine ⟨q, hq, hqlen, hver, ?_⟩
  simp only [dst, hver, hqall, Slice.overwrite_sub hall hbefore,
    Slice.overwrite_sub hall (hbefore.trans (by decide : 16 ≤ 24))]

/-- Where the TTL of an IP packet is. -/
def ttlIndex (p : Packet) : Nat := if version p = 4 then 8 else 7

def ttl (p : Packet) : UInt8 := p.all.getD (ttlIndex p) 0

@[simp] theorem ttl_trimmed (p : Packet) : ttl (trimmed p) = ttl p := by
  simp [ttl, ttlIndex, version, trimmed]

def IsIP (p : Packet) : Prop := version p = 4 ∨ version p = 6

instance (p : Packet) : Decidable (IsIP p) := inferInstanceAs (Decidable (_ ∨ _))

theorem HasHeader.ttlOffset (h : HasHeader p) (hip : IsIP p) : ttlOffset p = .ok (ttlIndex p) := by
  unfold Packet.ttlOffset ttlIndex
  rw [h.getIPVersion, Go.ok_bind]
  rcases hip with hver | hver <;> simp [hver, pure, Except.pure]

theorem HasHeader.ip_le (h : HasHeader p) (hip : IsIP p) : 20 ≤ p.len :=
  hip.elim h.ipv4_le fun hver => (h.ipv6_le hver).trans' (by decide)

theorem ttlIndex_le (p : Packet) : 0 < ttlIndex p ∧ ttlIndex p ≤ 8 := by
  unfold ttlIndex
  split_ifs <;> decide

theorem HasHeader.getTTL (h : HasHeader p) (hip : IsIP p) : getTTL p = .ok (ttl p) := by
  have hlen := h.ip_le hip
  have hindex := (ttlIndex_le p).2
  have hall : ttlIndex p < p.all.length := by have := p.len_le_all; omega
  unfold Packet.getTTL ttl
  rw [h.ttlOffset hip, Go.ok_bind, sub_of_le_len _ (by omega) (by omega), Go.ok_bind,
    List.drop_take, Nat.add_sub_cancel_left, List.drop_eq_getElem_cons hall,
    List.getD_eq_getElem?_getD, List.getElem?_eq_getElem hall]
  rfl

/-- Decrementing the TTL of an IP packet changes nothing that routing looks at. -/
theorem HasHeader.decrementTTL (h : HasHeader p) (hip : IsIP p) :
    ∃ q, decrementTTL p = .ok q ∧ SameRouting p q := by
  have hlen := h.ip_le hip
  obtain ⟨hpos, hindex⟩ := ttlIndex_le p
  obtain ⟨q, hq, hsame⟩ := patch_sameRouting (p := p) [ttl p - 1] hpos
    (by simp; omega) (by simp; omega)
  have hqlen : 20 ≤ q.len := hsame.len ▸ hlen
  unfold Packet.decrementTTL
  rw [h.ttlOffset hip, Go.ok_bind, h.getTTL hip, Go.ok_bind, hq, Go.ok_bind,
    (hsame.hasHeader h).getIPVersion, Go.ok_bind]
  by_cases hver : version q = 4
  · rw [if_pos hver, sub_of_le_len _ (by decide) (show 12 ≤ q.len by omega), Go.ok_bind]
    obtain ⟨r, hr, hsame'⟩ := patch_sameRouting (p := q) (put16 _)
      (by decide : 0 < 10) (show 10 + 2 ≤ 16 by decide) (show 10 + 2 ≤ q.len by omega)
    exact ⟨r, hr, hsame.trans hsame'⟩
  · rw [if_neg hver]
    exact ⟨q, rfl, hsame⟩

end Packet

end Nylon.Polyamide
