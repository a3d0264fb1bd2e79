import Nylon.Core.MplsSpec

/-!
What an exit node writes to its TUN for a packet that ends there. The handler checks
that the bytes behind the label have a complete IP header and cuts them to the
length in that header, but it does not look at whether the cut is possible. The
result is well formed exactly if the stated length covers the header and does not
exceed the bytes that were received; a stated length of zero leaves an empty packet,
for which the TUN refuses the whole batch.
-/

namespace Nylon.Core

open State Netip Lib Polyamide

def virtioNetHdrLen : Nat := 10

/-- The check of `handleGRO` (`tun/offload_linux.go`) on the lengths of the buffers
of a batch, whose packets start at the offset. -/
def handleGRO (offset : Nat) (lens : List Nat) : Except String Unit :=
  if lens.any fun len => offset < virtioNetHdrLen || offset ≥ len then
    .error "invalid offset"
  else .ok ()

/-- The TUN does not refuse the bounced packets of a batch. -/
def TunTakes (packets : List (List UInt8)) : Prop :=
  handleGRO messageTransportHeaderSize
    (packets.map fun bytes => messageTransportHeaderSize + bytes.length) = .ok ()

structure WellFormedIP (bytes : List UInt8) : Prop where
  nonempty : bytes ≠ []
  header : HasIPHeader bytes
  length : bytes.length = Packet.statedLength bytes

instance (bytes : List UInt8) : Decidable (WellFormedIP bytes) :=
  decidable_of_iff (bytes ≠ [] ∧ HasIPHeader bytes ∧ bytes.length = Packet.statedLength bytes)
    ⟨fun h => ⟨h.1, h.2.1, h.2.2⟩, fun h => ⟨h.1, h.2, h.3⟩⟩

/-- The stated length covers the header and stays within the bytes. -/
structure StatedFits (bytes : List UInt8) : Prop where
  covers : Packet.headerLen (ipVersion bytes) ≤ Packet.statedLength bytes
  within : Packet.statedLength bytes ≤ bytes.length
  small : Packet.statedLength bytes < 2 ^ 16

section

variable {Peer Endpoint : Type} (Call : Type)

/-- If the packet is bounced, it is a well-formed IP packet and no reason for the TUN
to refuse a batch. -/
def EmitsWellFormed (snap : ExitFilterSnapshot Peer) (elem : TCElement Peer Endpoint) :
    Prop :=
  ∀ result, (handleMplsPacket snap : TCFilter Peer Endpoint Call) elem = .ok result →
    result.action = .bounce →
    WellFormedIP result.elem.packet.data ∧
      ∀ others, TunTakes others → TunTakes (others ++ [result.elem.packet.data])

end

theorem HasIPHeader.headerLen_le {bytes : List UInt8} (h : HasIPHeader bytes) :
    Packet.headerLen (ipVersion bytes) ≤ bytes.length := by
  rcases h with ⟨hver, hlen⟩ | ⟨hver, hlen⟩ <;> rw [hver] <;> exact hlen

theorem HasIPHeader.six_le {bytes : List UInt8} (h : HasIPHeader bytes) :
    6 ≤ Packet.headerLen (ipVersion bytes) := by
  rcases h with ⟨hver, _⟩ | ⟨hver, _⟩ <;> rw [hver] <;> decide

/-- A packet that is cut behind its length field still states the same. -/
theorem ipVersion_take {bytes : List UInt8} {n : Nat} (h : 0 < n) :
    ipVersion (bytes.take n) = ipVersion bytes := by
  cases bytes with
  | nil => rw [List.take_nil]
  | cons first rest =>
    obtain ⟨m, rfl⟩ := Nat.exists_eq_succ_of_ne_zero h.ne'
    rfl

theorem statedLength_take {bytes : List UInt8} {n : Nat} (h : 6 ≤ n) :
    Packet.statedLength (bytes.take n) = Packet.statedLength bytes := by
  have hget : ∀ i < 6, (bytes.take n).getD i 0 = bytes.getD i 0 := by
    intro i hi
    simp [List.getD_eq_getElem?_getD, hi.trans_le h]
  have hversion : Packet.statedVersion (bytes.take n) = Packet.statedVersion bytes := by
    rw [Packet.statedVersion, hget 0 (by decide), Packet.statedVersion]
  have hfield : ∀ i, i + 1 < 6 → Packet.field16 (bytes.take n) i = Packet.field16 bytes i := by
    intro i hi
    rw [Packet.field16, hget i (by omega), hget (i + 1) hi, Packet.field16]
  unfold Packet.statedLength
  rw [hversion, hfield 2 (by decide), hfield 4 (by decide), hfield 1 (by decide)]

/-- The cut leaves a well-formed packet exactly if the stated length fits. -/
theorem wellFormedIP_take_iff {bytes : List UInt8} (h : HasIPHeader bytes) :
    WellFormedIP (bytes.take (Packet.statedLength bytes % 2 ^ 16)) ↔ StatedFits bytes := by
  have hsix := h.six_le
  have hlong := h.headerLen_le
  constructor
  · intro hwell
    have hpos : 0 < Packet.statedLength bytes % 2 ^ 16 := by
      by_contra hzero
      rw [Nat.eq_zero_of_not_pos hzero] at hwell
      exact hwell.nonempty (List.take_zero)
    have hheader := hwell.header.headerLen_le
    rw [ipVersion_take hpos, List.length_take] at hheader
    have hcut : 6 ≤ Packet.statedLength bytes % 2 ^ 16 := by omega
    have hlength := hwell.length
    rw [statedLength_take hcut, List.length_take] at hlength
    have hmod := Nat.mod_le (Packet.statedLength bytes) (2 ^ 16)
    have hlt := Nat.mod_lt (Packet.statedLength bytes) (by decide : 2 ^ 16 > 0)
    constructor <;> omega
  · intro hfits
    rw [Nat.mod_eq_of_lt hfits.small]
    have hcut : 6 ≤ Packet.statedLength bytes := hsix.trans hfits.covers
    have hlength : (bytes.take (Packet.statedLength bytes)).length = Packet.statedLength bytes := by
      rw [List.length_take, Nat.min_eq_left hfits.within]
    constructor
    case nonempty =>
      intro hnil
      rw [hnil, List.length_nil] at hlength
      omega
    case header =>
      have hcovers := hfits.covers
      unfold HasIPHeader at h ⊢
      rw [ipVersion_take (by omega), hlength]
      rcases h with ⟨hver, _⟩ | ⟨hver, _⟩
      · rw [hver] at hcovers
        exact Or.inl ⟨hver, hcovers⟩
      · rw [hver] at hcovers
        exact Or.inr ⟨hver, hcovers⟩
    case length => rw [hlength, statedLength_take hcut]

/-- The TUN refuses a batch for an empty packet. -/
theorem tunTakes_iff (packets : List (List UInt8)) : TunTakes packets ↔ [] ∉ packets := by
  simp [TunTakes, handleGRO, virtioNetHdrLen, messageTransportHeaderSize]

theorem tunTakes_append {others : List (List UInt8)} {bytes : List UInt8}
    (h : bytes ≠ []) (hothers : TunTakes others) : TunTakes (others ++ [bytes]) := by
  rw [tunTakes_iff] at hothers ⊢
  simp [hothers, h.symm]

/-- A packet for this node whose label is the last one leaves the exit well formed
exactly if it is not taken at all, or its stated length fits. -/
theorem decapsulation_wellFormed_iff {Peer Endpoint : Type} (Call : Type)
    (snap : ExitFilterSnapshot Peer) (elem : TCElement Peer Endpoint)
    (hver : ipVersion elem.packet.data = nyUnicastProtoId)
    (hlen : exitHeaderLen ≤ elem.packet.len)
    (hlabel : (outerLse elem.packet.data).label = snap.localIdNumeric)
    (hbos : (outerLse elem.packet.data).bos = true) :
    EmitsWellFormed Call snap elem ↔
      ((outerLse elem.packet.data).ttl ≠ 0 →
        Terminates snap true (elem.packet.data.drop exitHeaderLen) →
        StatedFits (elem.packet.data.drop exitHeaderLen)) := by
  have hrest : (elem.packet.data.drop exitHeaderLen).length ≤ elem.packet.len := by
    rw [List.length_drop]
    exact Nat.sub_le _ _
  unfold EmitsWellFormed
  rw [handleMplsPacket_eq hver hlen, handleMplsLse, hlabel, hbos, if_neg (not_not.mpr rfl)]
  by_cases httl : (outerLse elem.packet.data).ttl = 0
  · rw [if_pos httl]
    refine iff_of_true ?_ (fun h => absurd httl h)
    rintro result ⟨⟩ haction
    cases haction
  rw [if_neg httl]
  rcases @handleMplsTerminal_cases Peer Endpoint Call snap elem true _ hrest with
    ⟨hterminates, q, hq, hdata⟩ | ⟨hdropped, err, herr⟩
  · rw [hq]
    have hheader : HasIPHeader (elem.packet.data.drop exitHeaderLen) := hterminates.2
    have hwell := wellFormedIP_take_iff hheader
    constructor
    · intro hemits _ _
      have hresult := (hemits _ rfl rfl).1
      simp only [FilterResult.of_elem, hdata, deliveredBytes, if_true] at hresult
      exact hwell.mp hresult
    · rintro hfits result ⟨⟩ _
      have hresult : WellFormedIP q.data := by
        rw [hdata]
        exact hwell.mpr (hfits httl hterminates)
      exact ⟨hresult, fun others => tunTakes_append hresult.nonempty⟩
  · rw [herr]
    refine iff_of_true ?_ (fun _ h => absurd h hdropped)
    rintro result ⟨⟩ haction
    cases haction

/-- A packet for the node with the number 16, as a peer may send it. -/
def sentInside (inner : List UInt8) : TCElement Nat Nat :=
  let payload := nyUnicastSubtypeMpls :: encodeMplsLse 16 0 true nyUnicastDefaultTTL ++ inner
  .received ⟨0x90 :: put16 (.ofNat payload.length) ++ payload, []⟩ none 1

def exitSnapshot : ExitFilterSnapshot Nat := ⟨16, true, 0, ∅⟩

/-- An IPv4 header that states its own length. -/
theorem decapsulation_wellFormed_iff_header : EmitsWellFormed Unit exitSnapshot
      (sentInside (0x45 :: 0 :: 0 :: 20 :: List.replicate 16 0)) := by
  apply (decapsulation_wellFormed_iff Unit exitSnapshot
    (sentInside (0x45 :: 0 :: 0 :: 20 :: List.replicate 16 0)) (by decide +kernel)
    (by decide +kernel) (by decide +kernel) (by decide +kernel)).mpr
  intro _ _
  exact ⟨by decide +kernel, by decide +kernel, by decide +kernel⟩

/-- An IPv4 header that states the length zero leaves an empty packet, and the TUN
refuses every batch with it. An IPv6 header whose stated length is 65540 leaves four
bytes. -/
theorem empty_packet_emitted :
    ¬ EmitsWellFormed Unit exitSnapshot (sentInside (0x45 :: List.replicate 19 0)) ∧
    ¬ EmitsWellFormed Unit exitSnapshot
      (sentInside (0x60 :: 0 :: 0 :: 0 :: 0xFF :: 0xDC :: List.replicate 34 0)) ∧
    ∀ others, ¬ TunTakes (others ++ [[]]) := by
  refine ⟨?_, ?_, ?_⟩
  · intro h
    obtain ⟨result, hresult, haction, hdata⟩ : ∃ result,
        (handleMplsPacket exitSnapshot : TCFilter Nat Nat Unit)
          (sentInside (0x45 :: List.replicate 19 0)) = .ok result ∧
        result.action = .bounce ∧ result.elem.packet.data = [] :=
      ⟨_, rfl, rfl, by decide +kernel⟩
    exact (h result hresult haction).1.nonempty hdata
  · intro h
    obtain ⟨result, hresult, haction, hdata⟩ : ∃ result,
        (handleMplsPacket exitSnapshot : TCFilter Nat Nat Unit)
          (sentInside (0x60 :: 0 :: 0 :: 0 :: 0xFF :: 0xDC :: List.replicate 34 0)) = .ok result ∧
        result.action = .bounce ∧ result.elem.packet.data = [0x60, 0, 0, 0] :=
      ⟨_, rfl, rfl, by decide +kernel⟩
    have hwell := (h result hresult haction).1
    rw [hdata] at hwell
    exact absurd hwell (by decide +kernel)
  · intro others hothers
    simp [tunTakes_iff] at hothers

end Nylon.Core
