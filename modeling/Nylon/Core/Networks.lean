import Nylon.Core.RouteTable
import Nylon.Lib.BitPrefix
import Nylon.State.Publication

/-!
A prefix is a key of the routing state as it is written, while the forwarding tables
mask it. The validator compares prefixes as they are written as well, so one network
can be configured under several keys, with other bits after its length. The keys
identify networks exactly if every network is written in one way.
-/

namespace Nylon.Core

open State Netip Lib

section Masking

/-- Some number agrees on the first `m` bits, but not on the first `n`. -/
private theorem exists_mask_ne {w m n : Nat} (hmn : m < n) (hn : n ≤ w) (x : BitVec w) :
    ∃ y : BitVec w, BitPrefix.mask m y = BitPrefix.mask m x ∧
      BitPrefix.mask n y ≠ BitPrefix.mask n x := by
  have hflip : ∀ i < w, (x ^^^ BitVec.twoPow w (w - n)).getMsbD i =
      (x.getMsbD i ^^ decide (i = n - 1)) := by
    intro i hi
    rw [BitVec.getMsbD_xor, BitVec.getMsbD_twoPow]
    congr 1
    simp only [← Bool.decide_and, decide_eq_decide]
    omega
  refine ⟨x ^^^ BitVec.twoPow w (w - n), ?_, ?_⟩
  · rw [BitPrefix.mask_eq_mask_iff (by omega)]
    intro i hi
    simp [hflip i (by omega), show i ≠ n - 1 by omega]
  · rw [Ne, BitPrefix.mask_eq_mask_iff hn]
    intro h
    have hbit := h (n - 1) (by omega)
    simp [hflip (n - 1) (by omega)] at hbit

theorem exists_truncate_ne {m n : Nat} (hmn : m < n) (a : Addr) (hn : n ≤ a.bitLen) :
    ∃ b : Addr, b.bitLen = a.bitLen ∧ b.truncate m = a.truncate m ∧
      b.truncate n ≠ a.truncate n := by
  cases a with
  | v4 bits =>
    obtain ⟨y, hm, hne⟩ := exists_mask_ne hmn hn bits
    exact ⟨.v4 y, rfl, congrArg Addr.v4 hm, fun h => hne (Addr.v4.inj h)⟩
  | v6 bits =>
    obtain ⟨y, hm, hne⟩ := exists_mask_ne hmn hn bits
    exact ⟨.v6 y, rfl, congrArg Addr.v6 hm, fun h => hne (Addr.v6.inj h)⟩

/-- The prefixes cover the same addresses. -/
def SameNetwork (p q : Prefix) : Prop := ∀ a, p.contains a = q.contains a

theorem contains_iff (p : Prefix) (a : Addr) : p.contains a = true ↔
      a.bitLen = p.addr.bitLen ∧ a.truncate p.bits = p.addr.truncate p.bits := by
  simp [Prefix.contains]

private theorem bits_le_of_sameNetwork {p q : Prefix} (h : SameNetwork p q) : q.bits ≤ p.bits := by
  by_contra hlt
  -- an address that leaves `q` after the bits that `p` fixes
  obtain ⟨b, hlen, hm, hne⟩ := exists_truncate_ne (Nat.not_le.mp hlt) q.addr q.valid
  have hq : p.contains q.addr = true := by
    rw [h q.addr, contains_iff]
    exact ⟨rfl, rfl⟩
  have hb : p.contains b = true := by
    rw [contains_iff] at hq ⊢
    exact ⟨hlen.trans hq.1, hm.trans hq.2⟩
  rw [h b, contains_iff] at hb
  exact hne hb.2

theorem sameNetwork_iff (p q : Prefix) : SameNetwork p q ↔ p.masked = q.masked := by
  constructor
  · intro h
    have hbits : p.bits = q.bits :=
      le_antisymm (bits_le_of_sameNetwork fun a => (h a).symm) (bits_le_of_sameNetwork h)
    have hp : q.contains p.addr = true := by
      rw [← h p.addr, contains_iff]
      exact ⟨rfl, rfl⟩
    rw [contains_iff, ← hbits] at hp
    simp only [Prefix.masked, Prefix.mk.injEq]
    exact ⟨hbits ▸ hp.2, hbits⟩
  · intro h a
    rw [← p.contains_masked, ← q.contains_masked, h]

end Masking

def writtenPrefixes (c : CentralCfg PrefixHealth) : List Prefix :=
  (c.getNodes.flatMap (·.prefixes)).filterMap (·.getPrefix)

/-- Prefixes of one network are written in one way. -/
def WrittenAlike (c : CentralCfg PrefixHealth) : Prop :=
  ∀ p ∈ writtenPrefixes c, ∀ q ∈ writtenPrefixes c, p.masked = q.masked → p = q

variable {T : Type → Type} [PrefixTable T] {Key Peer : Type}

/-- Different keys are different networks: for the routing state, for the slots of the
forwarding table, and for what one router offers. -/
structure IdentifyNetworks (T : Type → Type) [PrefixTable T] (cfg : TableConfig Key Peer)
    (libs : ConfigLibraries) (c : CentralCfg PrefixHealth) : Prop where
  keys : ∀ p ∈ writtenPrefixes c, ∀ q ∈ writtenPrefixes c, SameNetwork p q → p = q
  slots : ∀ p ∈ writtenPrefixes c, ∀ q ∈ writtenPrefixes c, p ≠ q →
    ∀ (tables tables' : Tables T Peer) (route : SelRoute),
      tableInsertRoute cfg tables q route = some tables' →
        PrefixTable.get tables'.forwardTable p = PrefixTable.get tables.forwardTable p
  offers : ∀ router ∈ c.routers, ∀ peers, c.getPeers libs.toLower router.id = .ok peers →
    ((offeredPrefixes c router peers).filterMap id).Pairwise fun p q => ¬ SameNetwork p q

theorem mem_writtenPrefixes_of_offered {c : CentralCfg PrefixHealth}
    {router : RouterCfg PrefixHealth} (hrouter : router ∈ c.routers) {peers : List NodeId}
    {p : Prefix} (h : some p ∈ offeredPrefixes c router peers) : p ∈ writtenPrefixes c := by
  rw [offeredPrefixes_eq, List.mem_flatMap] at h
  obtain ⟨node, hnode, hp⟩ := h
  obtain ⟨health, hhealth, hpfx⟩ := List.mem_map.mp hp
  refine List.mem_filterMap.mpr ⟨health, List.mem_flatMap.mpr ⟨node, ?_, hhealth⟩, hpfx⟩
  rcases List.mem_cons.mp hnode with rfl | hclient
  · exact List.mem_append_left _ (List.mem_map_of_mem hrouter)
  · obtain ⟨id, -, hid⟩ := List.mem_filterMap.mp hclient
    exact List.mem_append_right _ (List.mem_of_find?_eq_some hid)

/-- A route goes to the slot of the masked prefix. -/
theorem forwardTable_insert [LawfulPrefixTable T] {cfg : TableConfig Key Peer}
    {tables tables' : Tables T Peer} {q : Prefix} {route : SelRoute}
    (h : tableInsertRoute cfg tables q route = some tables') {p : Prefix}
    (hne : p.masked ≠ q.masked) :
    PrefixTable.get tables'.forwardTable p = PrefixTable.get tables.forwardTable p := by
  unfold tableInsertRoute at h
  by_cases hmetric : route.metric = INF
  · rw [if_pos hmetric] at h
    obtain rfl := Option.some.inj h
    rw [LawfulPrefixTable.get_insert, if_neg hne]
  · rw [if_neg hmetric] at h
    obtain ⟨key, -, hkey⟩ := Option.bind_eq_some_iff.mp h
    obtain rfl := Option.some.inj hkey
    rw [LawfulPrefixTable.get_insert, if_neg hne]

/-- In an accepted configuration the keys identify networks exactly if no network is
written in two ways. -/
theorem identify_networks_iff [LawfulPrefixTable T] (cfg : TableConfig Key Peer)
    (libs : ConfigLibraries) (c : CentralCfg PrefixHealth)
    (h : centralConfigValidator libs c = .ok ()) :
    IdentifyNetworks T cfg libs c ↔ WrittenAlike c := by
  constructor
  · intro hidentify p hp q hq hmasked
    exact hidentify.keys p hp q hq ((sameNetwork_iff p q).mpr hmasked)
  · intro halike
    refine ⟨?_, ?_, ?_⟩
    · intro p hp q hq hsame
      exact halike p hp q hq ((sameNetwork_iff p q).mp hsame)
    · intro p hp q hq hne tables tables' route hinsert
      exact forwardTable_insert hinsert fun hmasked => hne (halike p hp q hq hmasked)
    · intro router hrouter peers hpeers
      obtain ⟨peers', hpeers', hnodup⟩ :=
        ((centralConfigValidator_iff libs c).mp h).2 router hrouter
      obtain rfl := Except.ok.inj (hpeers'.symm.trans hpeers)
      have hkeys : ((offeredPrefixes c router peers').filterMap id).Nodup :=
        hnodup.filterMap fun p q a hp hq => hp.trans hq.symm
      refine List.Pairwise.imp_of_mem ?_ hkeys
      intro p q hp hq hne hsame
      obtain ⟨_, hp, rfl⟩ := List.mem_filterMap.mp hp
      obtain ⟨_, hq, rfl⟩ := List.mem_filterMap.mp hq
      exact hne (halike p (mem_writtenPrefixes_of_offered hrouter hp) q
        (mem_writtenPrefixes_of_offered hrouter hq) ((sameNetwork_iff p q).mp hsame))

section Example

/-- One router with two prefixes of 24 bits. -/
def twoPrefixes (first second : BitVec 32) : CentralCfg PrefixHealth where
  dist := none
  routers := [⟨⟨"a", 1, [], [.static (some ⟨.v4 first, 24, Prefix.bits24_le⟩) 0,
    .static (some ⟨.v4 second, 24, Prefix.bits24_le⟩) 0], 0⟩, [], false⟩]
  clients := []
  graph := []
  timestamp := 0
  excludeIPs := []

theorem writtenPrefixes_twoPrefixes (first second : BitVec 32) :
    writtenPrefixes (twoPrefixes first second) =
      [⟨.v4 first, 24, Prefix.bits24_le⟩, ⟨.v4 second, 24, Prefix.bits24_le⟩] :=
  rfl

/-- Two networks under one key each. -/
theorem identify_networks_iff_apart :
    IdentifyNetworks PrefixMap (namedPeers "a") plainConfigLibraries
      (twoPrefixes 0x0A000000 0x0A000100) := by
  refine (identify_networks_iff _ _ _ ?_).mpr ?_
  · exact toOption_eq_some (by decide +kernel)
  · rw [WrittenAlike, writtenPrefixes_twoPrefixes]
    decide +kernel

/-- `10.0.0.1/24` and `10.0.0.2/24` of one router are accepted: one network under two
keys, and the route of one prefix takes the slot of the other. -/
theorem one_network_two_keys :
    centralConfigValidator plainConfigLibraries (twoPrefixes 0x0A000001 0x0A000002) = .ok () ∧
      ¬ IdentifyNetworks PrefixMap (namedPeers "a") plainConfigLibraries
        (twoPrefixes 0x0A000001 0x0A000002) := by
  refine ⟨toOption_eq_some (by decide +kernel), fun hidentify => ?_⟩
  have hsame : SameNetwork ⟨.v4 0x0A000001, 24, Prefix.bits24_le⟩
      ⟨.v4 0x0A000002, 24, Prefix.bits24_le⟩ :=
    (sameNetwork_iff _ _).mpr (by decide)
  have heq := hidentify.keys _ (by rw [writtenPrefixes_twoPrefixes]; simp) _
    (by rw [writtenPrefixes_twoPrefixes]; simp) hsame
  exact absurd heq (by decide)

end Example

end Nylon.Core
