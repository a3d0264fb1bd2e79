import Nylon.Core.Unicast
import Nylon.Polyamide.PacketLength

/-!
What `handleMplsPacket` does with a packet, in terms of its outer label-stack entry
and the bytes behind it. A packet on its way keeps all its bytes but the TTL. At the
node of its label the bytes behind the entry go to the TUN: as they are if more
labels follow, and cut to the length in their header if they are an IP packet.
-/

namespace Nylon.Core

open State Netip Lib Polyamide

/-- The "IP version" of a packet given by its bytes. -/
def ipVersion (bytes : List UInt8) : Nat := (bytes.headD 0 >>> 4).toNat

def HasIPHeader (bytes : List UInt8) : Prop :=
  (ipVersion bytes = 4 ∧ ipv4HeaderLen ≤ bytes.length) ∨
    (ipVersion bytes = 6 ∧ ipv6HeaderLen ≤ bytes.length)

instance (bytes : List UInt8) : Decidable (HasIPHeader bytes) :=
  inferInstanceAs (Decidable (_ ∨ _))

def outerLse (bytes : List UInt8) : MplsLse := decodeMplsLse ((bytes.take 8).drop 4)

/-- The node of the outer label takes the packet: it offers exit service, and what
follows the label is an IP packet, or another label. -/
def Terminates {Peer : Type} (snap : ExitFilterSnapshot Peer) (bos : Bool)
    (rest : List UInt8) : Prop :=
  snap.advertiseExitNode = true ∧ if bos then HasIPHeader rest else mplsLseLen ≤ rest.length

instance {Peer : Type} (snap : ExitFilterSnapshot Peer) (bos : Bool) (rest : List UInt8) :
    Decidable (Terminates snap bos rest) :=
  inferInstanceAs (Decidable (_ ∧ ite _ _ _))

/-- What is written to the TUN. The length is a number of 16 bits. -/
def deliveredBytes (bos : Bool) (rest : List UInt8) : List UInt8 :=
  if bos then rest.take (Packet.statedLength rest % 2 ^ 16) else rest

def deliveredProto (bos : Bool) (proto : UInt16) : UInt16 :=
  if bos then proto else ethPMplsUnicast

/-- The fields of a label-stack entry in terms of its first three bytes and its last one. -/
theorem decodeMplsLse_bytes (b₀ b₁ b₂ ttl : UInt8) : decodeMplsLse [b₀, b₁, b₂, ttl] =
      let high := (b₀.toNat * 256 + b₁.toNat) * 256 + b₂.toNat
      ⟨.ofNat (high / 16), .ofNat (high / 2 % 8), high % 2 == 1, ttl⟩ := by
  have h₀ := b₀.toNat_lt
  have h₁ := b₁.toNat_lt
  have h₂ := b₂.toNat_lt
  have h₃ := ttl.toNat_lt
  have hv : (be32 [b₀, b₁, b₂, ttl]).toNat =
      ((b₀.toNat * 256 + b₁.toNat) * 256 + b₂.toNat) * 256 + ttl.toNat := by
    simp only [be32, beNat, List.foldl_cons, List.foldl_nil, UInt32.toNat_ofNat']
    omega
  unfold decodeMplsLse
  obtain ⟨high, hhigh⟩ : ∃ high, (b₀.toNat * 256 + b₁.toNat) * 256 + b₂.toNat = high :=
    ⟨_, rfl⟩
  have hbound : high < 2 ^ 24 := by omega
  rw [hhigh] at hv ⊢
  rw [MplsLse.mk.injEq]
  refine ⟨?_, ?_, ?_, ?_⟩
  · apply UInt32.toNat_inj.mp
    rw [UInt32.toNat_shiftRight, UInt32.toNat_ofNat', Nat.shiftRight_eq_div_pow, hv]
    change _ / 4096 = _
    omega
  · apply UInt8.toNat_inj.mp
    rw [UInt32.toNat_toUInt8, UInt32.toNat_and, UInt32.toNat_shiftRight,
      Nat.shiftRight_eq_div_pow, hv, UInt8.toNat_ofNat']
    change ((high * 256 + ttl.toNat) / 512 &&& (2 ^ 3 - 1)) % 256 = _
    rw [Nat.and_two_pow_sub_one_eq_mod]
    omega
  · rw [Bool.eq_iff_iff, beq_iff_eq, beq_iff_eq, ← UInt32.toNat_inj, UInt32.toNat_and,
      UInt32.toNat_shiftRight, Nat.shiftRight_eq_div_pow, hv]
    change ((high * 256 + ttl.toNat) / 256 &&& (2 ^ 1 - 1)) = 1 ↔ _
    rw [Nat.and_two_pow_sub_one_eq_mod]
    omega
  · apply UInt8.toNat_inj.mp
    rw [UInt32.toNat_toUInt8, hv]
    omega

theorem encodeMplsLse_value (label : UInt32) (tc : UInt8) (bos : Bool) (ttl : UInt8)
    (hlabel : label ≤ 0xFFFFF) (htc : tc < 8) :
    ((label &&& 0xFFFFF) <<< 12 ||| (tc &&& 0x7).toUInt32 <<< 9 |||
      (if bos then 1 else 0 : UInt32) <<< 8 ||| ttl.toUInt32).toNat =
    label.toNat * 4096 + tc.toNat * 512 + bos.toNat * 256 + ttl.toNat := by
  have hl : label.toNat < 2 ^ 20 := Nat.lt_succ_of_le (UInt32.le_iff_toNat_le.mp hlabel)
  have ht : tc.toNat < 2 ^ 3 := UInt8.lt_iff_toNat_lt.mp htc
  have hb : bos.toNat < 2 := bos.toNat_lt
  have htt := ttl.toNat_lt
  have hmask : (label &&& 0xFFFFF).toNat = label.toNat := by
    rw [UInt32.toNat_and]
    change label.toNat &&& (2 ^ 20 - 1) = _
    rw [Nat.and_two_pow_sub_one_eq_mod, Nat.mod_eq_of_lt hl]
  have hmask' : (tc &&& 0x7).toUInt32.toNat = tc.toNat := by
    rw [UInt8.toNat_toUInt32, UInt8.toNat_and]
    change tc.toNat &&& (2 ^ 3 - 1) = _
    rw [Nat.and_two_pow_sub_one_eq_mod, Nat.mod_eq_of_lt ht]
  have hs : ((if bos then 1 else 0 : UInt32) <<< 8).toNat = bos.toNat <<< 8 := by
    cases bos <;> rfl
  have h1 : (((label &&& 0xFFFFF) <<< 12).toNat) = label.toNat <<< 12 := by
    rw [UInt32.toNat_shiftLeft, hmask]
    apply Nat.mod_eq_of_lt
    rw [Nat.shiftLeft_eq]
    change label.toNat * 4096 < 4294967296
    omega
  have h2 : (((tc &&& 0x7).toUInt32 <<< 9).toNat) = tc.toNat <<< 9 := by
    rw [UInt32.toNat_shiftLeft, hmask']
    apply Nat.mod_eq_of_lt
    rw [Nat.shiftLeft_eq]
    change tc.toNat * 512 < 4294967296
    omega
  rw [UInt32.toNat_or, UInt32.toNat_or, UInt32.toNat_or, h1, h2, hs, UInt8.toNat_toUInt32,
    Nat.or_assoc, Nat.or_assoc,
    ← Nat.shiftLeft_add_eq_or_of_lt (a := bos.toNat) (i := 8) (by omega),
    ← Nat.shiftLeft_add_eq_or_of_lt (a := tc.toNat) (i := 9) (by rw [Nat.shiftLeft_eq]; omega),
    ← Nat.shiftLeft_add_eq_or_of_lt (a := label.toNat) (i := 12)
      (by rw [Nat.shiftLeft_eq, Nat.shiftLeft_eq]; omega)]
  simp only [Nat.shiftLeft_eq]
  omega

theorem decode_encodeMplsLse (label : UInt32) (tc : UInt8) (bos : Bool) (ttl : UInt8)
    (hlabel : label ≤ 0xFFFFF) (htc : tc < 8) :
    decodeMplsLse (encodeMplsLse label tc bos ttl) = ⟨label, tc, bos, ttl⟩ := by
  have hl : label.toNat < 2 ^ 20 := Nat.lt_succ_of_le (UInt32.le_iff_toNat_le.mp hlabel)
  have ht : tc.toNat < 2 ^ 3 := UInt8.lt_iff_toNat_lt.mp htc
  have hb : bos.toNat < 2 := bos.toNat_lt
  have htt := ttl.toNat_lt
  have hv := encodeMplsLse_value label tc bos ttl hlabel htc
  unfold encodeMplsLse put32 put16
  dsimp only
  generalize (label &&& 0xFFFFF) <<< 12 ||| (tc &&& 0x7).toUInt32 <<< 9 |||
      (if bos then 1 else 0 : UInt32) <<< 8 ||| ttl.toUInt32 = v at hv ⊢
  rw [List.cons_append, List.singleton_append, decodeMplsLse_bytes]
  have hfront : (v >>> 16).toUInt16.toNat = v.toNat / 65536 := by
    rw [UInt32.toNat_toUInt16, UInt32.toNat_shiftRight, Nat.shiftRight_eq_div_pow]
    change v.toNat / 2 ^ 16 % 2 ^ 16 = _
    omega
  have hback : v.toUInt16.toNat = v.toNat % 65536 := UInt32.toNat_toUInt16 v
  have hhigh : ((UInt8.ofNat ((v >>> 16).toUInt16.toNat / 256)).toNat * 256 +
      (UInt8.ofNat (v >>> 16).toUInt16.toNat).toNat) * 256 +
        (UInt8.ofNat (v.toUInt16.toNat / 256)).toNat =
      label.toNat * 16 + tc.toNat * 2 + bos.toNat := by
    simp only [UInt8.toNat_ofNat', hfront, hback]
    omega
  simp only [hhigh]
  rw [MplsLse.mk.injEq]
  refine ⟨?_, ?_, ?_, ?_⟩
  · apply UInt32.toNat_inj.mp
    rw [UInt32.toNat_ofNat']
    omega
  · apply UInt8.toNat_inj.mp
    rw [UInt8.toNat_ofNat']
    omega
  · cases bos
    · simp
      omega
    · simp
      omega
  · apply UInt8.toNat_inj.mp
    rw [UInt8.toNat_ofNat', hback]
    omega

theorem ipVersion_eq_iff {first : UInt8} {bytes : List UInt8} (v : UInt8) :
    first >>> 4 = v ↔ ipVersion (first :: bytes) = v.toNat :=
  UInt8.toNat_inj.symm

theorem packetAddr_ok_iff (bytes : List UInt8) (off4 off6 : Nat) :
    (∃ addr, packetAddr bytes off4 off6 = .ok addr) ↔
      (ipVersion bytes = 4 ∧ off4 + 4 ≤ bytes.length) ∨
        (ipVersion bytes = 6 ∧ off6 + 16 ≤ bytes.length) := by
  cases bytes with
  | nil => simp [packetAddr, ipVersion]
  | cons first rest =>
    have h4 : first >>> 4 = 4 ↔ ipVersion (first :: rest) = 4 := ipVersion_eq_iff 4
    have h6 : first >>> 4 = 6 ↔ ipVersion (first :: rest) = 6 := ipVersion_eq_iff 6
    unfold packetAddr
    dsimp only
    simp only [h4, h6]
    generalize (first :: rest).length = len
    split_ifs with hver4 hshort hver6 hshort
    · simp [hver4]
      omega
    · simp [hver4]
      omega
    · simp [hver6]
      omega
    · simp [hver6]
      omega
    · simp [hver4, hver6]

/-- The addresses of a packet can be read exactly if its IP header is complete. -/
theorem addresses_ok_iff (bytes : List UInt8) :
    ((∃ src, packetSrc bytes = .ok src) ∧ ∃ dst, packetDst bytes = .ok dst) ↔
      HasIPHeader bytes := by
  unfold packetSrc packetDst HasIPHeader
  rw [packetAddr_ok_iff, packetAddr_ok_iff]
  simp only [ipv4OffsetSrc, ipv6OffsetSrc, ipv4OffsetDst, ipv6OffsetDst, ipv4HeaderLen,
    ipv6HeaderLen]
  omega

theorem replacePacket_eq {packet : Packet} {bytes : List UInt8} (h : bytes.length ≤ packet.len) :
    ∃ q, replacePacket packet bytes = .ok q ∧ q.data = bytes := by
  have hall : bytes.length ≤ packet.all.length := h.trans packet.len_le_all
  have hpatch : packet.patch 0 bytes =
      .ok (.ofAll (Slice.overwrite packet.all 0 bytes) packet.len) :=
    if_pos (by rwa [Nat.zero_add])
  have hupTo : (Slice.ofAll (Slice.overwrite packet.all 0 bytes) packet.len).upTo
      bytes.length = .ok (.ofAll (Slice.overwrite packet.all 0 bytes) bytes.length) := by
    unfold Slice.upTo
    rw [Slice.all_ofAll, Slice.length_overwrite (by rwa [Nat.zero_add]), if_pos hall]
  refine ⟨_, by rw [replacePacket, hpatch, Go.ok_bind, hupTo], ?_⟩
  simp [Slice.ofAll, Slice.overwrite]

section Bytes

variable {p : Packet}

/-- The accessors of a packet see its visible bytes. -/
theorem version_eq_ipVersion (h : 0 < p.len) : p.version = ipVersion p.data := by
  obtain ⟨data, spare⟩ := p
  cases data with
  | nil => cases h
  | cons first rest => rfl

theorem take_all (n : Nat) (h : n ≤ p.len) : p.all.take n = p.data.take n :=
  List.take_append_of_le_length h

theorem hasIPHeader_iff (h : 0 < p.len) : HasIPHeader p.data ↔ p.HasHeader ∧ p.IsIP := by
  unfold HasIPHeader Packet.HasHeader Packet.IsIP Packet.headerLen
  rw [version_eq_ipVersion h]
  constructor
  · rintro (⟨hver, hlen⟩ | ⟨hver, hlen⟩) <;> simp [hver] <;> exact hlen
  · rintro ⟨hlen, hver | hver⟩
    · rw [hver] at hlen
      exact Or.inl ⟨hver, hlen⟩
    · rw [hver] at hlen
      exact Or.inr ⟨hver, hlen⟩

/-- The length the code computes is the stated one, modulo `2 ^ 16`. -/
theorem toNat_totalLength (h : HasIPHeader p.data) :
    p.totalLength.toNat = Packet.statedLength p.data % 2 ^ 16 := by
  have hpos : 0 < p.len := by
    rcases h with ⟨_, hlen⟩ | ⟨_, hlen⟩ <;> exact Nat.lt_of_lt_of_le (by decide) hlen
  have hne : p.data ≠ [] := List.ne_nil_of_length_pos hpos
  apply Packet.totalLength_eq_stated p.spare hne
  rw [← Packet.headerLen_eq_stated p.spare hne]
  exact ((hasIPHeader_iff hpos).mp h).1

/-- Parsing cuts an IP packet to the stated length. -/
theorem parsePacket_ip (h : HasIPHeader p.data) : ∃ ok q, p.parsePacket = .ok (ok, q) ∧
      q.data = p.data.take (Packet.statedLength p.data % 2 ^ 16) := by
  have hpos : 0 < p.len := by
    rcases h with ⟨_, hlen⟩ | ⟨_, hlen⟩ <;> exact Nat.lt_of_lt_of_le (by decide) hlen
  have hheader := ((hasIPHeader_iff hpos).mp h).1
  have hparse : p.parsePacket = _ :=
    (congrArg Packet.parseLength (if_neg hpos.ne')).trans (Packet.parseLength_eq p)
  rw [hparse]
  by_cases hwithin : p.totalLength.toNat ≤ p.len
  · rw [if_pos ⟨hheader, hwithin⟩]
    refine ⟨_, _, rfl, ?_⟩
    rw [← toNat_totalLength h]
    exact take_all _ hwithin
  · rw [if_neg fun hboth => hwithin hboth.2]
    refine ⟨_, _, rfl, ?_⟩
    rw [← toNat_totalLength h, List.take_of_length_le (Nat.le_of_not_le hwithin)]

end Bytes

variable {Peer Endpoint Call : Type} {snap : ExitFilterSnapshot Peer}
  {elem : TCElement Peer Endpoint}

/-- At the node of its label a packet is delivered or dropped. -/
theorem handleMplsTerminal_cases (bos : Bool) {rest : List UInt8}
    (hrest : rest.length ≤ elem.packet.len) :
    (Terminates snap bos rest ∧ ∃ q,
      (handleMplsTerminal snap bos rest : TCFilter Peer Endpoint Call) elem = .ok (.of .bounce
          {elem with packet := q, l3Proto := deliveredProto bos elem.l3Proto}) ∧
      q.data = deliveredBytes bos rest) ∨
    (¬ Terminates snap bos rest ∧ ∃ err,
      (handleMplsTerminal snap bos rest : TCFilter Peer Endpoint Call) elem =
        .ok (dropWith err elem)) := by
  unfold handleMplsTerminal Terminates
  by_cases hadv : snap.advertiseExitNode = true
  case neg => exact Or.inr ⟨fun h => hadv h.1, _, by simp [hadv]; rfl⟩
  simp only [hadv, Bool.not_true, Bool.false_eq_true, if_false, true_and]
  by_cases hempty : rest.length = 0
  · obtain rfl := List.length_eq_zero_iff.mp hempty
    refine Or.inr ⟨?_, _, rfl⟩
    cases bos <;> simp [HasIPHeader, ipVersion, mplsLseLen]
  rw [if_neg hempty]
  obtain ⟨q, hq, hdata⟩ := replacePacket_eq hrest
  cases bos with
  | false =>
    simp only [Bool.not_false, if_true, Bool.false_eq_true, if_false]
    by_cases hshort : rest.length < mplsLseLen
    · rw [if_pos hshort]
      exact Or.inr ⟨Nat.not_le.mpr hshort, _, rfl⟩
    · rw [if_neg hshort, hq, Go.ok_bind]
      exact Or.inl ⟨Nat.not_lt.mp hshort, q, rfl, hdata⟩
  | true =>
    simp only [Bool.not_true, Bool.false_eq_true, if_false, if_true]
    by_cases hip : HasIPHeader rest
    · obtain ⟨⟨src, hsrc⟩, dst, hdst⟩ := (addresses_ok_iff rest).mpr hip
      obtain ⟨ok, q', hparse, hdata'⟩ := parsePacket_ip (p := q) (by rwa [hdata])
      simp only [hsrc, hdst]
      rw [hq, Go.ok_bind, hparse, Go.ok_bind]
      refine Or.inl ⟨hip, q', rfl, ?_⟩
      rw [hdata', hdata]
      rfl
    · refine Or.inr ⟨hip, ?_⟩
      have hnot := mt (addresses_ok_iff rest).mp hip
      cases hsrc : packetSrc rest with
      | error err => exact ⟨err, rfl⟩
      | ok src =>
        cases hdst : packetDst rest with
        | error err => exact ⟨err, rfl⟩
        | ok dst => exact absurd ⟨⟨src, hsrc⟩, dst, hdst⟩ hnot

/-- The handler reads the outer label-stack entry and the bytes behind it. -/
theorem handleMplsPacket_eq (hver : ipVersion elem.packet.data = nyUnicastProtoId)
    (hlen : exitHeaderLen ≤ elem.packet.len) :
    (handleMplsPacket snap : TCFilter Peer Endpoint Call) elem =
      handleMplsLse snap (outerLse elem.packet.data)
        (elem.packet.data.drop exitHeaderLen) elem := by
  have hpos : 0 < elem.packet.len := Nat.lt_of_lt_of_le (by decide) hlen
  have hversion : elem.packet.version = nyUnicastProtoId :=
    (version_eq_ipVersion hpos).trans hver
  have hheader : elem.packet.HasHeader := by
    unfold Packet.HasHeader
    rw [hversion]
    exact Nat.le_trans (by decide) hlen
  have hpayload : elem.packet.payload = .ok (elem.packet.data.drop 3) := by
    rw [hheader.payload, hversion]
    rfl
  have hlong : ¬ (elem.packet.data.drop 3).length < nyUnicastHeaderSize := by
    rw [List.length_drop]
    have : exitHeaderLen ≤ elem.packet.data.length := hlen
    simp only [exitHeaderLen, polyHeaderSize] at this
    omega
  unfold handleMplsPacket
  rw [hpayload, Go.ok_bind, if_neg hlong, List.drop_drop]
  have hlse : (((elem.packet.data.drop 3).take nyUnicastHeaderSize).drop
      nyUnicastOffsetLse) = (elem.packet.data.take 8).drop 4 := by
    rw [List.take_drop, List.drop_drop]
    rfl
  rw [hlse]
  rfl

/-- On its way a packet is forwarded with one TTL less, or dropped. -/
theorem handleMplsTransit_cases (lse : MplsLse) (hlen : exitHeaderLen ≤ elem.packet.len) :
    (∃ peer, snap.nextHop lse.label = some peer ∧ ∃ q,
      (handleMplsTransit snap lse : TCFilter Peer Endpoint Call) elem = .ok (.of .forward
          {elem with packet := q, toPeer := some peer, priority := .medium}) ∧
      q.data = Slice.overwrite elem.packet.data 7 [lse.ttl - 1]) ∨
    (snap.nextHop lse.label = none ∧ ∃ err,
      (handleMplsTransit snap lse : TCFilter Peer Endpoint Call) elem =
        .ok (dropWith err elem)) := by
  unfold handleMplsTransit
  cases hnext : snap.nextHop lse.label with
  | none => exact Or.inr ⟨rfl, _, rfl⟩
  | some peer =>
    obtain ⟨q, hq, hdata⟩ := Slice.patch_data (s := elem.packet) 7 [lse.ttl - 1] hlen
    refine Or.inl ⟨peer, rfl, q, ?_, hdata⟩
    have hoffset : polyHeaderSize + nyUnicastOffsetLse + (mplsLseLen - 1) = 7 := rfl
    simp only [hoffset, hq]
    rfl

end Nylon.Core
