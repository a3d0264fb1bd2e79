import Nylon.Polyamide.AllowedIPs
import Nylon.Polyamide.TrafficControl
import Nylon.State.NetipBinary

/-!
`AllowedIPs` (`polyamide/device/allowedips.go`) over any sequence of its operations.
The table is two tries, and for each peer the list of its nodes. It behaves as a map
from prefixes to peers: a lookup finds the peer of the longest prefix that contains
the address.
-/

namespace Nylon.Polyamide

open Lib Lib.BitPrefix Netip

variable {Peer : Type}

structure AllowedIPsTable (Peer : Type) where
  ipv4 : TrieEntry 32 Peer
  ipv6 : TrieEntry 128 Peer
  /-- The nodes of each peer, by their prefixes. -/
  trieEntries : Peer → List Netip.Prefix

namespace AllowedIPsTable

variable [DecidableEq Peer]

def empty : AllowedIPsTable Peer := ⟨.nil, .nil, fun _ => []⟩

/-- The trie for an address. -/
def read {α : Type} (table : AllowedIPsTable Peer) (addr : Addr)
    (f : {w : Nat} → BitVec w → TrieEntry w Peer → α) : α :=
  match addr with
  | .v4 ip => f ip table.ipv4
  | .v6 ip => f ip table.ipv6

def modify (table : AllowedIPsTable Peer) (addr : Addr)
    (f : {w : Nat} → BitVec w → TrieEntry w Peer → TrieEntry w Peer) : AllowedIPsTable Peer :=
  match addr with
  | .v4 ip => {table with ipv4 := f ip table.ipv4}
  | .v6 ip => {table with ipv6 := f ip table.ipv6}

def owner (table : AllowedIPsTable Peer) (p : Netip.Prefix) : Option Peer :=
  table.read p.addr fun ip trie =>
    let (node, exact) := trie.nodePlacement ip p.bits .nil
    if exact then node.peer else none

def addToPeerEntries (table : AllowedIPsTable Peer) (peer : Peer) (p : Netip.Prefix) :
    AllowedIPsTable Peer :=
  {table with trieEntries :=
    Function.update table.trieEntries peer (table.trieEntries peer ++ [p.masked])}

def removeFromPeerEntries (table : AllowedIPsTable Peer) (p : Netip.Prefix) :
    AllowedIPsTable Peer :=
  match table.owner p with
  | some peer =>
    let entries := (table.trieEntries peer).erase p.masked
    {table with trieEntries := Function.update table.trieEntries peer entries}
  | none => table

def insert (table : AllowedIPsTable Peer) (p : Netip.Prefix) (peer : Peer) : AllowedIPsTable Peer :=
  ((table.removeFromPeerEntries p).addToPeerEntries peer p).modify p.addr
    fun ip trie => trie.insert ip p.bits peer

/-- `remove` on the node of a prefix. -/
def removeNode (table : AllowedIPsTable Peer) (p : Netip.Prefix) : AllowedIPsTable Peer :=
  (table.removeFromPeerEntries p).modify p.addr fun ip trie => trie.remove ip p.bits

def remove (table : AllowedIPsTable Peer) (p : Netip.Prefix) (peer : Peer) : AllowedIPsTable Peer :=
  if table.owner p = some peer then table.removeNode p else table

def removeByPeer (table : AllowedIPsTable Peer) (peer : Peer) : AllowedIPsTable Peer :=
  (table.trieEntries peer).foldl removeNode table

/-- The lookups the filters make. -/
def lookups (table : AllowedIPsTable Peer) : AllowedIPs Peer where
  ipv4 ip := table.ipv4.lookup (.ofNat 32 (BigEndian.value ip))
  ipv6 ip := table.ipv6.lookup (.ofNat 128 (BigEndian.value ip))

end AllowedIPsTable

inductive TableOp (Peer : Type) where
  | insert (p : Netip.Prefix) (peer : Peer)
  | remove (p : Netip.Prefix) (peer : Peer)
  | removeByPeer (peer : Peer)

def AllowedIPsTable.apply [DecidableEq Peer] (table : AllowedIPsTable Peer) :
    TableOp Peer → AllowedIPsTable Peer
  | .insert p peer => table.insert p peer
  | .remove p peer => table.remove p peer
  | .removeByPeer peer => table.removeByPeer peer

/-- What the table is for: a peer for each masked prefix. -/
abbrev PrefixMap (Peer : Type) : Type := Netip.Prefix → Option Peer

namespace PrefixMap

def apply [DecidableEq Peer] (f : PrefixMap Peer) : TableOp Peer → PrefixMap Peer
  | .insert p peer => fun p' => if p' = p.masked then some peer else f p'
  | .remove p peer => fun p' => if p' = p.masked ∧ f p' = some peer then none else f p'
  | .removeByPeer peer => fun p' => if f p' = some peer then none else f p'

/-- The peer of the longest prefix that contains the address, if any does. -/
def LongestMatch (f : PrefixMap Peer) (addr : Addr) : Option Peer → Prop
  | none => ∀ p, p.contains addr → f p = none
  | some peer => ∃ p, p.contains addr ∧ f p = some peer ∧
      ∀ p', p'.contains addr → f p' ≠ none → p'.bits ≤ p.bits

end PrefixMap

namespace AllowedIPsTable

variable {table : AllowedIPsTable Peer} {f : PrefixMap Peer} {p p' : Netip.Prefix} {peer q : Peer}

def Holds (table : AllowedIPsTable Peer) (p : Netip.Prefix) (q : Peer) : Prop :=
  table.read p.addr fun ip trie => trie.Mem ip p.bits q

/-- The table stands for the map. -/
structure Represents (table : AllowedIPsTable Peer) (f : PrefixMap Peer) : Prop where
  ipv4 : table.ipv4.WellFormed
  ipv6 : table.ipv6.WellFormed
  holds : ∀ p q, table.Holds p q ↔ f p = some q
  entries : ∀ p q, p ∈ table.trieEntries q ↔ f p = some q
  nodup : ∀ q, (table.trieEntries q).Nodup

theorem Represents.congr {g : PrefixMap Peer} (h : table.Represents f) (hg : ∀ p, f p = g p) :
    table.Represents g :=
  funext hg ▸ h

theorem eq_masked_iff : p' = p.masked ↔ match p.addr, p'.addr with
    | .v4 a, .v4 b => b = mask p.bits a ∧ p'.bits = p.bits
    | .v6 a, .v6 b => b = mask p.bits a ∧ p'.bits = p.bits
    | _, _ => False := by
  obtain ⟨addr, bits, hvalid⟩ := p
  obtain ⟨addr', bits', hvalid'⟩ := p'
  cases addr <;> cases addr' <;> simp [Netip.Prefix.masked, Addr.truncate, mask]

theorem Represents.masked (h : table.Represents f) (hp : f p = some q) : p.masked = p := by
  have hholds := (h.holds p q).mpr hp
  apply Eq.symm
  rw [eq_masked_iff]
  unfold Holds read at hholds
  cases haddr : p.addr with
  | v4 ip =>
    rw [haddr] at hholds
    exact ⟨(hholds.masked h.ipv4).2.symm, rfl⟩
  | v6 ip =>
    rw [haddr] at hholds
    exact ⟨(hholds.masked h.ipv6).2.symm, rfl⟩

theorem owner_iff (h : table.Represents f) : table.owner p = some q ↔ f p.masked = some q := by
  rw [← h.holds]
  obtain ⟨addr, bits, hvalid⟩ := p
  cases addr with
  | v4 ip =>
    change _ ↔ table.ipv4.Mem (mask bits ip) bits q
    rw [← TrieEntry.nodePlacement_iff h.ipv4 hvalid .nil]
    simp [owner, read]
  | v6 ip =>
    change _ ↔ table.ipv6.Mem (mask bits ip) bits q
    rw [← TrieEntry.nodePlacement_iff h.ipv6 hvalid .nil]
    simp [owner, read]

/-- The tries stay well-formed if every operation on them keeps them so. -/
theorem modify_wellFormed (table : AllowedIPsTable Peer) (addr : Addr)
    (g : {w : Nat} → BitVec w → TrieEntry w Peer → TrieEntry w Peer)
    (h4 : table.ipv4.WellFormed) (h6 : table.ipv6.WellFormed)
    (hg : ∀ {w : Nat} (ip : BitVec w) (t : TrieEntry w Peer), w = addr.bitLen →
      t.WellFormed → (g ip t).WellFormed) :
    (table.modify addr g).ipv4.WellFormed ∧ (table.modify addr g).ipv6.WellFormed := by
  cases addr with
  | v4 ip => exact ⟨hg ip _ rfl h4, h6⟩
  | v6 ip => exact ⟨h4, hg ip _ rfl h6⟩

theorem modify_trieEntries (table : AllowedIPsTable Peer) {addr : Addr}
    {g : {w : Nat} → BitVec w → TrieEntry w Peer → TrieEntry w Peer} :
    (table.modify addr g).trieEntries = table.trieEntries := by
  cases addr <;> rfl

theorem represents_empty : (empty : AllowedIPsTable Peer).Represents fun _ => none := by
  refine ⟨trivial, trivial, fun p q => ?_, fun p q => ?_, fun q => List.nodup_nil⟩
  · unfold Holds read
    split <;> simp [empty, TrieEntry.Mem]
  · simp [empty]

/-- The walk down a trie finds the longest of the prefixes of an address that it
holds. -/
theorem longest_of_trie {w : Nat} {trie : TrieEntry w Peer} {ip : BitVec w} {addr : Addr}
    (hwf : trie.WellFormed)
    (hholds : ∀ n q, (∃ b, trie.Mem b n q ∧ Agree n b ip) ↔
      ∃ p : Netip.Prefix, p.bits = n ∧ p.contains addr ∧ f p = some q) :
    f.LongestMatch addr (trie.lookup ip) := by
  unfold TrieEntry.lookup
  rcases TrieEntry.lookupFrom_finds ip hwf none with
    ⟨b, n, q, heq, hmem, hagree, hmax⟩ | ⟨heq, hnone⟩
  · rw [heq]
    obtain ⟨p, rfl, hp, hq⟩ := (hholds n q).mp ⟨b, hmem, hagree⟩
    refine ⟨p, hp, hq, fun p' hp' hne => ?_⟩
    obtain ⟨q', hq'⟩ := Option.ne_none_iff_exists'.mp hne
    obtain ⟨b', hmem', hagree'⟩ := (hholds _ q').mpr ⟨p', rfl, hp', hq'⟩
    exact hmax b' p'.bits q' hmem' hagree'
  · rw [heq]
    refine fun p hp => Option.eq_none_iff_forall_ne_some.mpr fun q hq => ?_
    obtain ⟨b, hmem, hagree⟩ := (hholds _ q).mpr ⟨p, rfl, hp, hq⟩
    exact hnone b p.bits q hmem hagree

theorem contains_v4 {a b : BitVec 32} {n : Nat} (hn : n ≤ 32) :
    (⟨.v4 b, n, hn⟩ : Netip.Prefix).contains (.v4 a) ↔ Agree n b a := by
  change (true && (Addr.v4 (mask n a) == .v4 (mask n b))) = true ↔ _
  rw [Bool.true_and, beq_iff_eq, Addr.v4.injEq, eq_comm, mask_eq_mask_iff hn]

theorem contains_v6 {a b : BitVec 128} {n : Nat} (hn : n ≤ 128) :
    (⟨.v6 b, n, hn⟩ : Netip.Prefix).contains (.v6 a) ↔ Agree n b a := by
  change (true && (Addr.v6 (mask n a) == .v6 (mask n b))) = true ↔ _
  rw [Bool.true_and, beq_iff_eq, Addr.v6.injEq, eq_comm, mask_eq_mask_iff hn]

theorem Represents.lookup (h : table.Represents f) (addr : Addr) :
    f.LongestMatch addr (table.read addr fun ip trie => trie.lookup ip) := by
  cases addr with
  | v4 ip =>
    refine longest_of_trie h.ipv4 fun n q => ⟨?_, ?_⟩
    · rintro ⟨b, hmem, hagree⟩
      have hn := (hmem.masked h.ipv4).1
      exact ⟨⟨.v4 b, n, hn⟩, rfl, (contains_v4 hn).mpr hagree, (h.holds _ _).mp hmem⟩
    · rintro ⟨⟨b | b, n, hn⟩, rfl, hp, hq⟩
      · exact ⟨b, (h.holds _ _).mpr hq, (contains_v4 hn).mp hp⟩
      · cases hp
  | v6 ip =>
    refine longest_of_trie h.ipv6 fun n q => ⟨?_, ?_⟩
    · rintro ⟨b, hmem, hagree⟩
      have hn := (hmem.masked h.ipv6).1
      exact ⟨⟨.v6 b, n, hn⟩, rfl, (contains_v6 hn).mpr hagree, (h.holds _ _).mp hmem⟩
    · rintro ⟨⟨b | b, n, hn⟩, rfl, hp, hq⟩
      · cases hp
      · exact ⟨b, (h.holds _ _).mpr hq, (contains_v6 hn).mp hp⟩

theorem ofNat_value_bytes {n w : Nat} (hw : 256 ^ n = 2 ^ w) (ip : BitVec w) :
    BitVec.ofNat w (BigEndian.value (BigEndian.bytes n ip.toNat)) = ip := by
  rw [BigEndian.value_bytes, hw, Nat.mod_eq_of_lt ip.isLt, BitVec.ofNat_toNat, BitVec.setWidth_eq]

theorem lookups_marshal (table : AllowedIPsTable Peer) (addr : Addr) :
    table.lookups.lookup addr.marshalBinary =
      .ok (table.read addr fun ip trie => trie.lookup ip) := by
  have h4 := ofNat_value_bytes (show 256 ^ 4 = 2 ^ 32 by decide)
  have h6 := ofNat_value_bytes (show 256 ^ 16 = 2 ^ 128 by decide)
  cases addr <;> simp [AllowedIPs.lookup, lookups, Addr.marshalBinary, read, h4, h6]

variable [DecidableEq Peer]

theorem removeFromPeerEntries_tries (table : AllowedIPsTable Peer) (p : Netip.Prefix) :
    (table.removeFromPeerEntries p).ipv4 = table.ipv4 ∧
    (table.removeFromPeerEntries p).ipv6 = table.ipv6 := by
  unfold removeFromPeerEntries
  split <;> exact ⟨rfl, rfl⟩

theorem holds_insert (h : table.Represents f) : (table.insert p peer).Holds p' q ↔
    (p' = p.masked ∧ q = peer) ∨ p' ≠ p.masked ∧ table.Holds p' q := by
  obtain ⟨h4, h6⟩ := table.removeFromPeerEntries_tries p
  obtain ⟨addr, bits, hvalid⟩ := p
  obtain ⟨addr', bits', hvalid'⟩ := p'
  rw [ne_eq, eq_masked_iff]
  cases addr <;> cases addr' <;> simp only [Holds, read, insert, modify, addToPeerEntries, h4, h6]
  · exact TrieEntry.mem_insert h.ipv4 hvalid
  · simp
  · simp
  · exact TrieEntry.mem_insert h.ipv6 hvalid

theorem holds_removeNode (h : table.Represents f) (hp : f p.masked = some peer) :
    (table.removeNode p).Holds p' q ↔ p' ≠ p.masked ∧ table.Holds p' q := by
  obtain ⟨h4, h6⟩ := table.removeFromPeerEntries_tries p
  rw [← h.holds] at hp
  obtain ⟨addr, bits, hvalid⟩ := p
  obtain ⟨addr', bits', hvalid'⟩ := p'
  rw [ne_eq, eq_masked_iff]
  cases addr <;> cases addr' <;> simp only [Holds, read, removeNode, modify, h4, h6]
  · exact TrieEntry.mem_remove h.ipv4 hp
  · simp
  · simp
  · exact TrieEntry.mem_remove h.ipv6 hp

/-- The lists of nodes without the node of a prefix. -/
theorem mem_removeFromPeerEntries (h : table.Represents f) :
    p' ∈ (table.removeFromPeerEntries p).trieEntries q ↔ p' ≠ p.masked ∧ f p' = some q := by
  unfold removeFromPeerEntries
  rw [← h.entries]
  split
  next owner howner =>
    rw [owner_iff h, ← h.entries] at howner
    by_cases hq : q = owner
    · subst hq
      simp [(h.nodup q).mem_erase_iff]
    · have hne : p' ∈ table.trieEntries q → p' ≠ p.masked := by
        rintro hmem rfl
        rw [h.entries] at hmem howner
        exact hq (Option.some.inj (hmem.symm.trans howner))
      simpa [Function.update_of_ne hq] using hne
  next hnone =>
    have hne : p' ∈ table.trieEntries q → p' ≠ p.masked := by
      rintro hmem rfl
      rw [h.entries, ← owner_iff h, hnone] at hmem
      cases hmem
    simpa using hne

theorem nodup_removeFromPeerEntries (h : table.Represents f) (p : Netip.Prefix) (q : Peer) :
    ((table.removeFromPeerEntries p).trieEntries q).Nodup := by
  unfold removeFromPeerEntries
  split
  next owner _ =>
    by_cases hq : q = owner
    · subst hq
      simpa using (h.nodup q).erase p.masked
    · simpa [Function.update_of_ne hq] using h.nodup q
  next => exact h.nodup q

theorem Represents.insert (h : table.Represents f) (p : Netip.Prefix) (peer : Peer) :
    (table.insert p peer).Represents (f.apply (.insert p peer)) := by
  obtain ⟨h4, h6⟩ := table.removeFromPeerEntries_tries p
  have hwf := modify_wellFormed ((table.removeFromPeerEntries p).addToPeerEntries peer p) p.addr
    (fun ip trie => trie.insert ip p.bits peer) (h4 ▸ h.ipv4) (h6 ▸ h.ipv6)
    fun ip t hw hwf => TrieEntry.wellFormed_insert hwf (hw ▸ p.valid)
  have hmem : ∀ p' q, p' ∈ (table.insert p peer).trieEntries q ↔
      p' ∈ (table.removeFromPeerEntries p).trieEntries q ∨ p' = p.masked ∧ q = peer := by
    intro p' q
    rw [AllowedIPsTable.insert, modify_trieEntries, addToPeerEntries]
    by_cases hq : q = peer
    · subst hq
      simp
    · simp [hq]
  refine ⟨hwf.1, hwf.2, fun p' q => ?_, fun p' q => ?_, fun q => ?_⟩
  · rw [holds_insert h, h.holds, PrefixMap.apply]
    grind
  · rw [hmem, mem_removeFromPeerEntries h, PrefixMap.apply]
    grind
  · rw [AllowedIPsTable.insert, modify_trieEntries, addToPeerEntries]
    by_cases hq : q = peer
    · subst hq
      have hnew : p.masked ∉ (table.removeFromPeerEntries p).trieEntries q := by
        simp [mem_removeFromPeerEntries h]
      simpa [List.nodup_append] using
        ⟨nodup_removeFromPeerEntries h p q, fun a ha he => hnew (he ▸ ha)⟩
    · simpa [Function.update_of_ne hq] using nodup_removeFromPeerEntries h p q

theorem Represents.removeNode (h : table.Represents f) (hp : f p.masked = some peer) :
    (table.removeNode p).Represents fun p' => if p' = p.masked then none else f p' := by
  obtain ⟨h4, h6⟩ := table.removeFromPeerEntries_tries p
  have hwf := modify_wellFormed (table.removeFromPeerEntries p) p.addr
    (fun ip trie => trie.remove ip p.bits) (h4 ▸ h.ipv4) (h6 ▸ h.ipv6)
    fun ip t _ hwf => TrieEntry.wellFormed_remove hwf
  refine ⟨hwf.1, hwf.2, fun p' q => ?_, fun p' q => ?_, fun q => ?_⟩
  · rw [holds_removeNode h hp, h.holds]
    grind
  · rw [AllowedIPsTable.removeNode, modify_trieEntries, mem_removeFromPeerEntries h]
    grind
  · rw [AllowedIPsTable.removeNode, modify_trieEntries]
    exact nodup_removeFromPeerEntries h p q

theorem Represents.removeNodes {l : List Netip.Prefix} (h : table.Represents f)
    (hnodup : l.Nodup) (hall : ∀ p ∈ l, f p = some peer) :
    (l.foldl AllowedIPsTable.removeNode table).Represents fun p => if p ∈ l then none else f p := by
  induction l generalizing table f with
  | nil => simpa using h
  | cons p l ih =>
    rw [List.nodup_cons] at hnodup
    have hp := hall p (by simp)
    have hmasked := h.masked hp
    have hnext := h.removeNode (by rwa [hmasked] : f p.masked = some peer)
    rw [hmasked] at hnext
    have hrest := ih hnext hnodup.2 fun p' hp' => by
      rw [if_neg (by rintro rfl; exact hnodup.1 hp')]
      exact hall p' (by simp [hp'])
    exact hrest.congr fun p' => by grind

theorem Represents.apply (h : table.Represents f) (op : TableOp Peer) :
    (table.apply op).Represents (f.apply op) := by
  cases op with
  | insert p peer => exact h.insert p peer
  | remove p peer =>
    simp only [AllowedIPsTable.apply, AllowedIPsTable.remove, owner_iff h]
    split
    next howner => exact (h.removeNode howner).congr fun p' => by grind [PrefixMap.apply]
    next => exact h.congr fun p' => by grind [PrefixMap.apply]
  | removeByPeer peer =>
    refine (h.removeNodes (h.nodup peer) fun p => (h.entries p peer).mp).congr fun p' => ?_
    simp only [PrefixMap.apply, h.entries]

end AllowedIPsTable

variable [DecidableEq Peer]

/-- The table after a sequence of operations, and the map it stands for. -/
def tableAfter (ops : List (TableOp Peer)) : AllowedIPsTable Peer :=
  ops.foldl AllowedIPsTable.apply .empty

def mapAfter (ops : List (TableOp Peer)) : PrefixMap Peer :=
  ops.foldl PrefixMap.apply fun _ => none

theorem represents_after (ops : List (TableOp Peer)) :
    (tableAfter ops).Represents (mapAfter ops) := by
  induction ops using List.reverseRecOn with
  | nil => exact AllowedIPsTable.represents_empty
  | append_singleton ops op ih =>
    unfold tableAfter mapAfter
    rw [List.foldl_append, List.foldl_append]
    exact ih.apply op

/-- After any sequence of operations, a lookup finds the peer of the longest prefix
that contains the address, of those that the operations have left. -/
theorem allowedips_longest (ops : List (TableOp Peer)) (addr : Addr) :
    ∃ found, (tableAfter ops).lookups.lookup addr.marshalBinary = .ok found ∧
      (mapAfter ops).LongestMatch addr found :=
  ⟨_, AllowedIPsTable.lookups_marshal _ addr, (represents_after ops).lookup addr⟩

/-- `EntriesForPeer` visits exactly the prefixes that lead to the peer, each once. -/
theorem entriesForPeer_exact (ops : List (TableOp Peer)) (peer : Peer) :
    ((tableAfter ops).trieEntries peer).Nodup ∧
      ∀ p, p ∈ (tableAfter ops).trieEntries peer ↔ mapAfter ops p = some peer :=
  ⟨(represents_after ops).nodup peer, fun p => (represents_after ops).entries p peer⟩

theorem mapAfter_ne (before : List (TableOp Peer)) {after : List (TableOp Peer)} {peer : Peer}
    (hafter : ∀ p, .insert p peer ∉ after) (p : Netip.Prefix) :
    mapAfter (before ++ .removeByPeer peer :: after) p ≠ some peer := by
  unfold mapAfter
  rw [List.foldl_append, List.foldl_cons]
  induction after using List.reverseRecOn generalizing p with
  | nil =>
    rw [List.foldl_nil, PrefixMap.apply]
    grind
  | append_singleton after op ih =>
    have hbefore := ih fun p hp => hafter p (by simp [hp])
    rw [List.foldl_append, List.foldl_cons, List.foldl_nil]
    cases op with
    | insert p' peer' =>
      have hne : peer' ≠ peer := by
        rintro rfl
        exact hafter p' (by simp)
      grind [PrefixMap.apply]
    | remove => grind [PrefixMap.apply]
    | removeByPeer => grind [PrefixMap.apply]

/-- A peer whose prefixes were removed is not found again before it is inserted. -/
theorem removeByPeer_forgets (before after : List (TableOp Peer)) (peer : Peer)
    (hafter : ∀ p, .insert p peer ∉ after) (addr : Addr) :
    ∃ found, (tableAfter (before ++ .removeByPeer peer :: after)).lookups.lookup
      addr.marshalBinary = .ok found ∧ found ≠ some peer := by
  refine ⟨_, AllowedIPsTable.lookups_marshal _ addr, fun hfound => ?_⟩
  have hlongest := (represents_after (before ++ .removeByPeer peer :: after)).lookup addr
  rw [hfound] at hlongest
  obtain ⟨p, -, hp, -⟩ := hlongest
  exact mapAfter_ne before hafter p hp

theorem removeByPeer_forgets_subnet : ∃ found,
    (tableAfter [.insert ⟨.v4 0x0A000000, 8, by decide⟩ 1,
      .insert ⟨.v4 0x0A010000, 16, by decide⟩ 2, .removeByPeer 2,
      .remove ⟨.v4 0x0A000000, 8, by decide⟩ 2]).lookups.lookup
        (Addr.v4 0x0A010001).marshalBinary = .ok found ∧ found ≠ some 2 :=
  removeByPeer_forgets [.insert ⟨.v4 0x0A000000, 8, by decide⟩ 1,
    .insert ⟨.v4 0x0A010000, 16, by decide⟩ 2] [.remove ⟨.v4 0x0A000000, 8, by decide⟩ 2] 2
    (by simp) (.v4 0x0A010001)

end Nylon.Polyamide
