import Nylon.Polyamide.PacketSpec

/-!
The length in a header is read modulo `2 ^ 16`. For packets that fit a message
buffer this makes no difference: a length that wraps around falls below the header
size and is rejected, as the exact length would be. The accessors of an accepted
packet read within that length and not from the spare bytes of the buffer.
-/

namespace Nylon.Polyamide.Packet

open Lib Netip

/-- Two bytes in network order; bytes that are missing read as zero. -/
def field16 (bytes : List UInt8) (i : Nat) : Nat :=
  (bytes.getD i 0).toNat * 256 + (bytes.getD (i + 1) 0).toNat

/-- The version that a byte string starts with. -/
def statedVersion (bytes : List UInt8) : Nat := (bytes.getD 0 0).toNat / 16

/-- The length that a header states, in unbounded numbers. -/
def statedLength (bytes : List UInt8) : Nat :=
  if statedVersion bytes = 4 then field16 bytes 2
  else if statedVersion bytes = 6 then field16 bytes 4 + 40
  else field16 bytes 1 + 3

def headerSize (bytes : List UInt8) : Nat :=
  if statedVersion bytes = 4 then 20 else if statedVersion bytes = 6 then 40 else 3

/-- The slice with the bytes of the TTL. -/
def ttlBytes (p : Packet) : Go (List UInt8) := do
  let i ← ttlOffset p
  p.sub i (i + 1)

/-- The accessor returns the bytes from `low` to `high` of the packet itself. -/
def ReadsInside (accessor : Packet → Go (List UInt8)) (p : Packet) (low high : Nat) :
    Prop :=
  low ≤ high ∧ high ≤ p.len ∧ accessor p = .ok ((p.data.take high).drop low)

/-- Every accessor for the version of the packet stays inside it. -/
structure AccessorsInside (p : Packet) : Prop where
  src4 : version p = 4 → ReadsInside getSrcBytes p 12 16
  src6 : version p = 6 → ReadsInside getSrcBytes p 8 24
  dst4 : version p = 4 → ReadsInside getDstBytes p 16 20
  dst6 : version p = 6 → ReadsInside getDstBytes p 24 40
  ttl4 : version p = 4 → ReadsInside ttlBytes p 8 9
  ttl6 : version p = 6 → ReadsInside ttlBytes p 7 8
  addrs : ∃ src dst, getSrc p = .ok src ∧ getDst p = .ok dst
  ttl : IsIP p → ttlIndex p < p.len ∧ getTTL p = .ok (p.data.getD (ttlIndex p) 0)
  payload : ReadsInside payload p (headerLen (version p)) p.len

section Stated

variable {bytes : List UInt8} (spare : List UInt8)

theorem version_eq_stated (hne : bytes ≠ []) : version ⟨bytes, spare⟩ = statedVersion bytes := by
  obtain ⟨b, rest, rfl⟩ := List.exists_cons_of_ne_nil hne
  have hshift : (b >>> 4).toNat = b.toNat / 16 := by
    rw [UInt8.toNat_shiftRight, Nat.shiftRight_eq_div_pow]
    rfl
  exact hshift

theorem headerLen_eq_stated (hne : bytes ≠ []) :
    headerLen (version ⟨bytes, spare⟩) = headerSize bytes := by
  rw [version_eq_stated spare hne]
  rfl

/-- A field within the bytes does not depend on what follows them. -/
theorem be16_eq_field16 {i : Nat} (h : i + 2 ≤ bytes.length) :
    (be16 (((bytes ++ spare).take (i + 2)).drop i)).toNat = field16 bytes i := by
  have h0 : i < bytes.length := by omega
  have h1 : i + 1 < bytes.length := by omega
  have hfield : ((bytes ++ spare).take (i + 2)).drop i = [bytes[i], bytes[i + 1]] := by
    rw [List.take_append_of_le_length h, List.drop_take, List.drop_eq_getElem_cons h0,
      List.drop_eq_getElem_cons h1]
    simp only [Nat.add_sub_cancel_left, List.take_succ_cons, List.take_zero]
  rw [hfield, toNat_be16]
  simp [field16, List.getD_eq_getElem?_getD, List.getElem?_eq_getElem h0,
    List.getElem?_eq_getElem h1]

theorem field16_lt (bytes : List UInt8) (i : Nat) : field16 bytes i < 65536 := by
  have h0 := (bytes.getD i 0).toNat_lt
  have h1 := (bytes.getD (i + 1) 0).toNat_lt
  unfold field16
  omega

/-- What `GetLength` returns is the stated length modulo `2 ^ 16`. -/
theorem totalLength_eq_stated (hne : bytes ≠ []) (hheader : headerSize bytes ≤ bytes.length) :
    (totalLength ⟨bytes, spare⟩).toNat = statedLength bytes % 65536 := by
  unfold totalLength statedLength
  unfold headerSize at hheader
  rw [version_eq_stated spare hne]
  split_ifs at hheader ⊢
  · have hfield := be16_eq_field16 spare (i := 2) (by omega : 2 + 2 ≤ bytes.length)
    exact hfield.trans (Nat.mod_eq_of_lt (field16_lt bytes 2)).symm
  · have hfield := be16_eq_field16 spare (i := 4) (by omega : 4 + 2 ≤ bytes.length)
    simp only [Slice.all, UInt16.toNat_add, hfield]
    rfl
  · have hfield := be16_eq_field16 spare (i := 1) (by omega : 1 + 2 ≤ bytes.length)
    simp only [Slice.all, UInt16.toNat_add, hfield]
    rfl

/-- A length that does not fit 16 bits wraps to less than the header size. -/
theorem stated_wrap_lt (hlarge : 65536 ≤ statedLength bytes) :
    statedLength bytes % 65536 < headerSize bytes := by
  have h2 := field16_lt bytes 2
  have h4 := field16_lt bytes 4
  have h1 := field16_lt bytes 1
  unfold statedLength at hlarge ⊢
  unfold headerSize
  split_ifs at hlarge ⊢ <;> omega

/-- With a message buffer at most, acceptance is decided by the exact length. -/
theorem accepted_iff_stated (hne : bytes ≠ []) (hsize : bytes.length ≤ maxMessageSize) :
    Accepted ⟨bytes, spare⟩ ↔
      headerSize bytes ≤ statedLength bytes ∧ statedLength bytes ≤ bytes.length := by
  have hheader := headerLen_eq_stated spare hne
  constructor
  · rintro ⟨hhas, hwithin, hcovers⟩
    have hcomplete : headerSize bytes ≤ bytes.length := hheader ▸ hhas
    have htotal := totalLength_eq_stated spare hne hcomplete
    rw [hheader, htotal] at hcovers
    have hwithin' : statedLength bytes % 65536 ≤ bytes.length := htotal ▸ hwithin
    have hsmall : statedLength bytes < 65536 := by
      by_contra hlarge
      have := stated_wrap_lt (Nat.not_lt.mp hlarge)
      omega
    omega
  · rintro ⟨hcovers, hwithin⟩
    have hcomplete := hcovers.trans hwithin
    have htotal := totalLength_eq_stated spare hne hcomplete
    have hexact : statedLength bytes % 65536 = statedLength bytes :=
      Nat.mod_eq_of_lt ((hwithin.trans hsize).trans_lt (by decide))
    rw [hexact] at htotal
    refine ⟨?_, ?_, ?_⟩
    · exact hheader.trans_le hcomplete
    · exact htotal.trans_le hwithin
    · exact (hheader.trans_le hcovers).trans_eq htotal.symm

end Stated

section Accessors

variable {p : Packet}

/-- A slice expression within the length reads the packet itself. -/
theorem sub_inside {low high : Nat} (hlow : low ≤ high) (hhigh : high ≤ p.len) :
    p.sub low high = .ok ((p.data.take high).drop low) := by
  rw [sub_of_le_len low hlow hhigh, Slice.all, List.take_append_of_le_length hhigh]

theorem HasHeader.srcInside (h : HasHeader p) : (version p = 4 → ReadsInside getSrcBytes p 12 16) ∧
      (version p = 6 → ReadsInside getSrcBytes p 8 24) := by
  have hver := h.getIPVersion
  constructor
  · intro h4
    have hlen := h.ipv4_le h4
    refine ⟨by decide, by omega, ?_⟩
    rw [getSrcBytes, hver, Go.ok_bind, if_pos h4]
    exact sub_inside (by decide) (show 16 ≤ p.len by omega)
  · intro h6
    have hlen := h.ipv6_le h6
    refine ⟨by decide, by omega, ?_⟩
    rw [getSrcBytes, hver, Go.ok_bind, if_neg (by omega), if_pos h6]
    exact sub_inside (by decide) (show 24 ≤ p.len by omega)

theorem HasHeader.dstInside (h : HasHeader p) :
    (version p = 4 → ReadsInside Packet.getDstBytes p 16 20) ∧
      (version p = 6 → ReadsInside Packet.getDstBytes p 24 40) := by
  have hver := h.getIPVersion
  constructor
  · intro h4
    have hlen := h.ipv4_le h4
    refine ⟨by decide, by omega, ?_⟩
    rw [Packet.getDstBytes, hver, Go.ok_bind, if_pos h4]
    exact sub_inside (by decide) (show 20 ≤ p.len by omega)
  · intro h6
    have hlen := h.ipv6_le h6
    refine ⟨by decide, by omega, ?_⟩
    rw [Packet.getDstBytes, hver, Go.ok_bind, if_neg (by omega), if_pos h6]
    exact sub_inside (by decide) (show 40 ≤ p.len by omega)

theorem HasHeader.ttlInside (h : HasHeader p) (hip : IsIP p) :
    ReadsInside ttlBytes p (ttlIndex p) (ttlIndex p + 1) := by
  have hlen := h.ip_le hip
  have hindex := (ttlIndex_le p).2
  refine ⟨by omega, by omega, ?_⟩
  rw [ttlBytes, h.ttlOffset hip, Go.ok_bind]
  exact sub_inside (by omega) (by omega)

theorem HasHeader.getTTL_inside (h : HasHeader p) (hip : IsIP p) :
    ttlIndex p < p.len ∧ Packet.getTTL p = .ok (p.data.getD (ttlIndex p) 0) := by
  have hindex : ttlIndex p < p.len := by
    have hlen := h.ip_le hip
    have hle := (ttlIndex_le p).2
    omega
  refine ⟨hindex, ?_⟩
  rw [h.getTTL hip, ttl, Slice.all, List.getD_eq_getElem?_getD,
    List.getElem?_append_left hindex, List.getD_eq_getElem?_getD]

/-- A complete header is all the accessors need. -/
theorem HasHeader.accessorsInside (h : HasHeader p) : AccessorsInside p where
  src4 := h.srcInside.1
  src6 := h.srcInside.2
  dst4 := h.dstInside.1
  dst6 := h.dstInside.2
  ttl4 h4 := by simpa [ttlIndex, h4] using h.ttlInside (.inl h4)
  ttl6 h6 := by simpa [ttlIndex, h6] using h.ttlInside (.inr h6)
  addrs := by
    obtain ⟨src, hsrc⟩ := h.getSrc
    exact ⟨src, _, hsrc, h.getDst⟩
  ttl := h.getTTL_inside
  payload := by
    refine ⟨h, le_rfl, ?_⟩
    rw [h.payload, show p.data.take p.len = p.data from List.take_length]

end Accessors

/-- Parsing and validating agrees with exact arithmetic for everything that fits a
message buffer. An accepted packet is cut to the length its header states. -/
theorem parsePacket_validate_exact (bytes spare : List UInt8) (hne : bytes ≠ [])
    (hsize : bytes.length ≤ maxMessageSize) :
    ∃ parsed q valid, parsePacket ⟨bytes, spare⟩ = .ok (parsed, q) ∧ validate q = .ok valid ∧
      ((parsed = true ∧ valid = true) ↔
        headerSize bytes ≤ statedLength bytes ∧ statedLength bytes ≤ bytes.length) ∧
      (parsed = true ∧ valid = true → q.data = bytes.take (statedLength bytes) ∧
        (∃ l, getLength q = .ok l ∧ l.toNat = statedLength bytes) ∧
        version q = statedVersion bytes ∧ AccessorsInside q) := by
  have hpos : 0 < (⟨bytes, spare⟩ : Packet).len := List.length_pos_iff.mpr hne
  obtain ⟨parsed, q, hparse, hiff, htrimmed⟩ := parse_validate hpos
  have hexact := accepted_iff_stated spare hne hsize
  have hvalid := validate_eq q
  refine ⟨parsed, q, _, hparse, hvalid, ?_, ?_⟩
  · rw [← hexact, ← hiff, hvalid, Except.ok.injEq]
  · rintro ⟨hparsed, htrue⟩
    have haccepted := hiff.mp ⟨hparsed, by rw [hvalid, htrue]⟩
    have hstated := hexact.mp haccepted
    have htotal : (totalLength ⟨bytes, spare⟩).toNat = statedLength bytes := by
      rw [totalLength_eq_stated spare hne (hstated.1.trans hstated.2)]
      exact Nat.mod_eq_of_lt ((hstated.2.trans hsize).trans_lt (by decide))
    have hheader := haccepted.hasHeader_trimmed
    obtain rfl := htrimmed haccepted
    refine ⟨?_, ⟨_, hheader.getLength, ?_⟩, ?_, hheader.accessorsInside⟩
    · simp only [trimmed, Slice.ofAll, Slice.all, htotal]
      exact List.take_append_of_le_length hstated.2
    · rw [totalLength_trimmed, htotal]
    · rw [version_trimmed, version_eq_stated spare hne]

/-- A packet of nylon with one byte after the stated length. -/
theorem parsePacket_validate_exact_poly :
    ∃ parsed q valid, parsePacket ⟨[0x80, 0, 1, 7, 9], [5]⟩ = .ok (parsed, q) ∧
      validate q = .ok valid ∧ parsed = true ∧ valid = true ∧ q.data = [0x80, 0, 1, 7] := by
  obtain ⟨parsed, q, valid, hparse, hvalid, hiff, hresult⟩ :=
    parsePacket_validate_exact [0x80, 0, 1, 7, 9] [5] (by decide) (by decide)
  have haccepted := hiff.mpr (by decide)
  exact ⟨parsed, q, valid, hparse, hvalid, haccepted.1, haccepted.2,
    (hresult haccepted).1⟩

end Nylon.Polyamide.Packet
