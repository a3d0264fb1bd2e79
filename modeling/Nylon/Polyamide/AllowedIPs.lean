import Nylon.Lib.BitPrefix

/-!
The tries of `AllowedIPs`. A trie of addresses of `w` bits is a tree of its nodes;
the pointers to the parents, which the source keeps to unlink a node, are the
recursion here. A node without a peer only joins the two tries below it.

`Mem` reads off the prefixes a trie holds, and every operation is specified by
it: insertion replaces the peer of one prefix, removal drops one prefix, and the
lookup finds the longest prefix of the address.
-/

namespace Nylon.Polyamide

open Lib.BitPrefix

/-- `*trieEntry`. The bit a node branches on follows its prefix. -/
inductive TrieEntry (w : Nat) (Peer : Type) where
  | nil
  | node (bits : BitVec w) (cidr : Nat) (peer : Option Peer) (child : Bool → TrieEntry w Peer)

/-- The source compares IPv6 addresses in two words, which counts the same bits. -/
def commonBits {w : Nat} (ip1 ip2 : BitVec w) : Nat :=
  leadingZeros (ip1 ^^^ ip2)

namespace TrieEntry

variable {w : Nat} {Peer : Type}

/-- The bit after a prefix of `cidr` bits, which no caller asks for when the
prefix is the whole address. -/
def choose (cidr : Nat) (ip : BitVec w) : Bool :=
  ip.getMsbD cidr

def isNil : TrieEntry w Peer → Bool
  | nil => true
  | node .. => false

def peer : TrieEntry w Peer → Option Peer
  | nil => none
  | node _ _ peer _ => peer

/-- The last node on the way down to a prefix, `parent` if there is none, and
whether it is the node of this prefix. -/
def nodePlacement (ip : BitVec w) (cidr : Nat) :
    TrieEntry w Peer → TrieEntry w Peer → TrieEntry w Peer × Bool
  | nil, parent => (parent, false)
  | node bits c p child, parent =>
    if c ≤ cidr ∧ c ≤ commonBits bits ip then
      if c = cidr then (node bits c p child, true)
      else nodePlacement ip cidr (child (choose c ip)) (node bits c p child)
    else (parent, false)

/-- A new node, with its bits cleared by `maskSelf`. -/
def newNode (ip : BitVec w) (cidr : Nat) (peer : Option Peer)
    (child : Bool → TrieEntry w Peer) : TrieEntry w Peer :=
  node (mask cidr ip) cidr peer child

def noChild : Bool → TrieEntry w Peer := fun _ => nil

/-- Insertion above the node `down`, which is not on the way to the prefix: the
new node takes its place, or a node for the bits the two have in common. -/
def insertAbove (ip : BitVec w) (cidr : Nat) (peer : Peer) (downBits : BitVec w)
    (down : TrieEntry w Peer) : TrieEntry w Peer :=
  -- `maskSelf` clears the bits of the new node in place, so those of `ip` too
  let ip := mask cidr ip
  let common := min (commonBits downBits ip) cidr
  if cidr = common then
    newNode ip cidr (some peer) (Function.update noChild (choose cidr downBits) down)
  else
    newNode ip common none (Function.update
      (Function.update noChild (choose common downBits) down)
      (choose common ip) (newNode ip cidr (some peer) noChild))

/-- The recursion is the walk of `nodePlacement`. -/
def insert (ip : BitVec w) (cidr : Nat) (peer : Peer) : TrieEntry w Peer → TrieEntry w Peer
  | nil => newNode ip cidr (some peer) noChild
  | node bits c p child =>
    if c ≤ cidr ∧ c ≤ commonBits bits ip then
      if c = cidr then node bits c (some peer) child
      else node bits c p (Function.update child (choose c ip)
        (insert ip cidr peer (child (choose c ip))))
    else insertAbove ip cidr peer bits (node bits c p child)

def lookupFrom (ip : BitVec w) : Option Peer → TrieEntry w Peer → Option Peer
  | found, nil => found
  | found, node bits c p child =>
    if c ≤ commonBits bits ip then
      let found := if p.isSome then p else found
      if c = w then found else lookupFrom ip found (child (choose c ip))
    else found

def lookup (ip : BitVec w) (trie : TrieEntry w Peer) : Option Peer :=
  lookupFrom ip none trie

/-- What stands in the place of a removed node: with two children the node
itself, without its peer, otherwise its only child. -/
def unlink (bits : BitVec w) (cidr : Nat) (child : Bool → TrieEntry w Peer) : TrieEntry w Peer :=
  if !(child false).isNil && !(child true).isNil then node bits cidr none child
  else if (child false).isNil then child true
  else child false

/-- The node of a prefix of this length, without children. -/
def isLeaf (cidr : Nat) : TrieEntry w Peer → Bool
  | nil => false
  | node _ c _ child => c == cidr && (child false).isNil && (child true).isNil

/-- `remove` on the node of a prefix. A node without a peer that loses a child
without children is replaced by its other child. -/
def remove (ip : BitVec w) (cidr : Nat) : TrieEntry w Peer → TrieEntry w Peer
  | nil => nil
  | node bits c p child =>
    if c = cidr then unlink bits c child
    else if (child (choose c ip)).isLeaf cidr && p.isNone then child (!choose c ip)
    else node bits c p (Function.update child (choose c ip)
      (remove ip cidr (child (choose c ip))))

/-- The trie holds the prefix of the first `n` bits of `b` for a peer. -/
def Mem (b : BitVec w) (n : Nat) (q : Peer) : TrieEntry w Peer → Prop
  | nil => False
  | node bits c p child => (bits = b ∧ c = n ∧ p = some q) ∨ ∃ side, (child side).Mem b n q

/-- What the children of a node hold has the prefix of the node and is on its side. -/
def WellFormed : TrieEntry w Peer → Prop
  | nil => True
  | node bits c _ child => c ≤ w ∧ mask c bits = bits ∧ ∀ side, (child side).WellFormed ∧
      ∀ b n q, (child side).Mem b n q → c < n ∧ Agree c bits b ∧ b.getMsbD c = side

variable {t : TrieEntry w Peer} {bits ip b : BitVec w} {c n cidr : Nat} {p : Option Peer}
  {q peer : Peer} {side : Bool} {child : Bool → TrieEntry w Peer}

theorem Mem.masked (hmem : t.Mem b n q) (hwf : t.WellFormed) : n ≤ w ∧ mask n b = b := by
  induction t with
  | nil => exact hmem.elim
  | node bits' c' p' child ih =>
    rcases hmem with ⟨rfl, rfl, -⟩ | ⟨side', hmem⟩
    · exact ⟨hwf.1, hwf.2.1⟩
    · exact ih side' hmem (hwf.2.2 side').1

theorem Mem.below (hwf : (node bits c p child).WellFormed) (hmem : (child side).Mem b n q) :
    c < n ∧ Agree c bits b ∧ b.getMsbD c = side :=
  (hwf.2.2 side).2 b n q hmem

/-- What a node and its children hold has the prefix of the node. -/
theorem Mem.root (hwf : (node bits c p child).WellFormed) (hmem : (node bits c p child).Mem b n q) :
    c ≤ n ∧ Agree c bits b := by
  rcases hmem with ⟨rfl, rfl, -⟩ | ⟨side, hmem⟩
  · exact ⟨le_rfl, fun _ _ => rfl⟩
  · exact ⟨(hmem.below hwf).1.le, (hmem.below hwf).2.1⟩

/-- Below the node of a shorter prefix, only one side can hold the prefix. -/
theorem mem_iff_child (hwf : (node bits c p child).WellFormed) (hlt : c < cidr) (hle : cidr ≤ w) :
    (node bits c p child).Mem (mask cidr ip) cidr q ↔
      (child (choose c ip)).Mem (mask cidr ip) cidr q := by
  constructor
  · rintro (⟨-, rfl, -⟩ | ⟨side, hmem⟩)
    · omega
    · have hside := (hmem.below hwf).2.2
      rw [mask_agree ip hle c hlt] at hside
      subst hside
      exact hmem
  · exact fun hmem => .inr ⟨_, hmem⟩

theorem other_side (hwf : (node bits c p child).WellFormed) (hlt : c < cidr) (hle : cidr ≤ w)
    (hmem : (child !choose c ip).Mem b n q) : ¬ (b = mask cidr ip ∧ n = cidr) := by
  rintro ⟨rfl, rfl⟩
  have hside := (hmem.below hwf).2.2
  rw [mask_agree ip hle c hlt] at hside
  simp [choose] at hside

/-- A node that is not on the way to the prefix does not have it below it. -/
theorem off_way (hwf : (node bits c p child).WellFormed) (hle : cidr ≤ w)
    (hoff : ¬ (c ≤ cidr ∧ c ≤ commonBits bits ip)) :
    ¬ (node bits c p child).Mem (mask cidr ip) cidr q := by
  intro hmem
  obtain ⟨hlen, hagree⟩ := hmem.root hwf
  refine hoff ⟨hlen, (le_leadingZeros_xor_iff hwf.1).mpr ?_⟩
  exact hagree.trans ((mask_agree ip hle).le hlen)

theorem exact_bits (hwf : (node bits cidr p child).WellFormed)
    (hcommon : cidr ≤ commonBits bits ip) : bits = mask cidr ip := by
  rw [← hwf.2.1]
  exact (mask_eq_mask_iff hwf.1).mpr ((le_leadingZeros_xor_iff hwf.1).mp hcommon)

/-- The node of a prefix holds it, if at all, itself. -/
theorem mem_exact_iff (hwf : (node bits cidr p child).WellFormed)
    (hcommon : cidr ≤ commonBits bits ip) :
    (node bits cidr p child).Mem (mask cidr ip) cidr q ↔ p = some q := by
  constructor
  · rintro (⟨-, -, hp⟩ | ⟨side, hmem⟩)
    · exact hp
    · have := (hmem.below hwf).1
      omega
  · exact fun hp => .inl ⟨exact_bits hwf hcommon, rfl, hp⟩

theorem nodePlacement_iff (hwf : t.WellFormed) (hle : cidr ≤ w) (parent : TrieEntry w Peer) :
    ((nodePlacement ip cidr t parent).2 = true ∧
      (nodePlacement ip cidr t parent).1.peer = some q) ↔ t.Mem (mask cidr ip) cidr q := by
  induction t generalizing parent with
  | nil => simp [nodePlacement, Mem]
  | node bits c p child ih =>
    unfold nodePlacement
    split
    next hon =>
      split
      next heq =>
        subst heq
        rw [mem_exact_iff hwf hon.2]
        simp [TrieEntry.peer]
      next hne =>
        rw [mem_iff_child hwf (by omega) hle]
        exact ih _ (hwf.2.2 _).1 _
    next hoff => simpa using off_way hwf hle hoff

/-! ### Insertion -/

theorem mem_newNode_nil : (newNode ip cidr p noChild).Mem b n q ↔
    mask cidr ip = b ∧ cidr = n ∧ p = some q := by
  simp [newNode, noChild, Mem]

theorem exists_side {P : Bool → Prop} (side : Bool) : (∃ s, P s) ↔ P side ∨ P !side := by
  cases side <;> simp [or_comm]

theorem forall_side {P : Bool → Prop} (side : Bool) : (∀ s, P s) ↔ P side ∧ P !side := by
  cases side <;> simp [and_comm]

/-- The two nodes below a new node that joins them are on different sides. -/
theorem choose_common (hlt : commonBits bits ip < w) :
    choose (commonBits bits ip) ip = !choose (commonBits bits ip) bits :=
  Bool.eq_not_of_ne (getMsbD_ne_of_leadingZeros_lt hlt).symm

theorem insertAbove_cases (ip bits : BitVec w) (peer : Peer) (down : TrieEntry w Peer)
    (hle : cidr ≤ w) :
    (cidr ≤ commonBits bits (mask cidr ip) ∧
      ∃ child, insertAbove ip cidr peer bits down = node (mask cidr ip) cidr (some peer) child ∧
        child (choose cidr bits) = down ∧ child (!choose cidr bits) = nil) ∨
    ∃ common < cidr, common = commonBits bits (mask cidr ip) ∧
      ∃ child, insertAbove ip cidr peer bits down =
          node (mask common (mask cidr ip)) common none child ∧
        child (choose common bits) = down ∧
        child (!choose common bits) = newNode ip cidr (some peer) noChild := by
  by_cases hcommon : cidr ≤ commonBits bits (mask cidr ip)
  · refine .inl ⟨hcommon, Function.update noChild (choose cidr bits) down, ?_, ?_, ?_⟩
    · simp [insertAbove, hcommon, newNode, mask_mask ip hle]
    · simp
    · simp [noChild]
  · have hlt : commonBits bits (mask cidr ip) < cidr := by omega
    have hside : choose (commonBits bits (mask cidr ip)) (mask cidr ip) =
        !choose (commonBits bits (mask cidr ip)) bits := choose_common (by omega)
    refine .inr ⟨_, hlt, rfl, Function.update
      (Function.update noChild (choose (commonBits bits (mask cidr ip)) bits) down)
      (!choose (commonBits bits (mask cidr ip)) bits) (newNode ip cidr (some peer) noChild),
      ?_, ?_, ?_⟩
    · simp [insertAbove, min_eq_left hlt.le, hlt.ne', newNode, mask_mask ip hle, hside]
    · simp
    · simp

theorem mem_insertAbove {down : TrieEntry w Peer} (hle : cidr ≤ w) :
    (insertAbove ip cidr peer bits down).Mem b n q ↔
      ((b = mask cidr ip ∧ n = cidr) ∧ q = peer) ∨ down.Mem b n q := by
  rcases insertAbove_cases ip bits peer down hle with
    ⟨-, child, heq, hdown, hnil⟩ | ⟨common, -, -, child, heq, hdown, hnew⟩
  · rw [heq, Mem, exists_side (choose cidr bits), hdown, hnil]
    simp [Mem, eq_comm, and_assoc]
  · rw [heq, Mem, exists_side (choose common bits), hdown, hnew, mem_newNode_nil]
    simp [eq_comm, or_comm, and_assoc]

theorem mem_insert (hwf : t.WellFormed) (hle : cidr ≤ w) :
    (t.insert ip cidr peer).Mem b n q ↔
      ((b = mask cidr ip ∧ n = cidr) ∧ q = peer) ∨
        ¬ (b = mask cidr ip ∧ n = cidr) ∧ t.Mem b n q := by
  induction t with
  | nil => simp [insert, mem_newNode_nil, Mem, eq_comm, and_assoc]
  | node bits c p child ih =>
    unfold insert
    split
    next hon =>
      split
      next heq =>
        subst heq
        have hbits := exact_bits hwf hon.2
        have hbelow : ∀ side, (child side).Mem b n q → n ≠ c :=
          fun side hmem => (hmem.below hwf).1.ne'
        simp only [Mem, ← hbits]
        grind
      next hne =>
        have hother : (child !choose c ip).Mem b n q → ¬ (b = mask cidr ip ∧ n = cidr) :=
          other_side hwf (by omega) hle
        simp only [Mem]
        rw [exists_side (choose c ip), exists_side (choose c ip), Function.update_self,
          Function.update_of_ne (by simp), ih _ (hwf.2.2 _).1]
        grind
    next hoff =>
      rw [mem_insertAbove hle]
      have hnot : (node bits c p child).Mem b n q → ¬ (b = mask cidr ip ∧ n = cidr) := by
        rintro hmem ⟨rfl, rfl⟩
        exact off_way hwf hle hoff hmem
      tauto

theorem wellFormed_newNode (peer : Peer) (hle : cidr ≤ w) :
    (newNode ip cidr (some peer) noChild).WellFormed :=
  ⟨hle, mask_mask ip hle, fun _ => ⟨trivial, fun _ _ _ => False.elim⟩⟩

/-- A node off the way to a prefix is below the bits it shares with it. -/
theorem below_shared {m : Nat} (hwf : (node bits c p child).WellFormed) (hle : cidr ≤ w)
    (hoff : ¬ (c ≤ cidr ∧ c ≤ commonBits bits ip)) (hm : m ≤ cidr)
    (hshared : m ≤ commonBits bits (mask cidr ip)) (hmem : (node bits c p child).Mem b n q) :
    m < n ∧ Agree m (mask cidr ip) b ∧ b.getMsbD m = choose m bits := by
  have hagree := (le_leadingZeros_xor_iff (by omega)).mp hshared
  have hlt : m < c := by
    by_contra hnot
    refine hoff ⟨by omega, (le_leadingZeros_xor_iff hwf.1).mpr ?_⟩
    exact (hagree.le (by omega)).trans ((mask_agree ip hle).le (by omega))
  obtain ⟨hlen, hroot⟩ := hmem.root hwf
  exact ⟨by omega, hagree.symm.trans (hroot.le hlt.le), (hroot m hlt).symm⟩

theorem wellFormed_insertAbove (peer : Peer) (hwf : (node bits c p child).WellFormed)
    (hle : cidr ≤ w) (hoff : ¬ (c ≤ cidr ∧ c ≤ commonBits bits ip)) :
    (insertAbove ip cidr peer bits (node bits c p child)).WellFormed := by
  rcases insertAbove_cases ip bits peer (node bits c p child) hle with
    ⟨hcommon, child', heq, hdown, hnil⟩ | ⟨common, hcommon, hcount, child', heq, hdown, hnew⟩
  · rw [heq]
    refine ⟨hle, mask_mask ip hle, ?_⟩
    rw [forall_side (choose cidr bits), hdown, hnil]
    exact ⟨⟨hwf, fun _ _ _ => below_shared hwf hle hoff le_rfl hcommon⟩, trivial,
      fun _ _ _ => False.elim⟩
  · have hmask := mask_agree (mask cidr ip) (show common ≤ w by omega)
    have hside : choose common (mask cidr ip) = !choose common bits := by
      subst hcount
      exact choose_common (by omega)
    rw [heq]
    refine ⟨by omega, mask_mask _ (by omega), ?_⟩
    rw [forall_side (choose common bits), hdown, hnew]
    refine ⟨⟨hwf, fun b n q hmem => ?_⟩, wellFormed_newNode peer hle, fun b n q hmem => ?_⟩
    · obtain ⟨hlt, hagree, hbit⟩ := below_shared hwf hle hoff hcommon.le hcount.le hmem
      exact ⟨hlt, hmask.trans hagree, hbit⟩
    · obtain ⟨rfl, rfl, -⟩ := mem_newNode_nil.mp hmem
      exact ⟨hcommon, hmask, hside⟩

theorem wellFormed_insert (hwf : t.WellFormed) (hle : cidr ≤ w) :
    (t.insert ip cidr peer).WellFormed := by
  induction t with
  | nil => exact wellFormed_newNode peer hle
  | node bits c p child ih =>
    obtain ⟨hc, hbits, hchild⟩ := id hwf
    unfold insert
    split
    next hon =>
      split
      next => exact hwf
      next hne =>
        refine ⟨hc, hbits, ?_⟩
        rw [forall_side (choose c ip), Function.update_self, Function.update_of_ne (by simp)]
        refine ⟨⟨ih _ (hchild _).1, fun b n q hmem => ?_⟩, hchild _⟩
        rcases (mem_insert (hchild _).1 hle).mp hmem with ⟨⟨rfl, rfl⟩, -⟩ | ⟨-, hmem⟩
        · have hagree := (le_leadingZeros_xor_iff hc).mp hon.2
          exact ⟨by omega, hagree.trans ((mask_agree ip hle).symm.le hon.1),
            mask_agree ip hle c (by omega)⟩
        · exact hmem.below hwf
    next hoff => exact wellFormed_insertAbove peer hwf hle hoff

/-! ### Lookup -/

/-- The result is the peer of the longest prefix of the address the trie holds, or
what was found above the trie if there is none. -/
def Finds (t : TrieEntry w Peer) (ip : BitVec w) (found result : Option Peer) : Prop :=
  (∃ b n q, result = some q ∧ t.Mem b n q ∧ Agree n b ip ∧
    ∀ b' n' q', t.Mem b' n' q' → Agree n' b' ip → n' ≤ n) ∨
  (result = found ∧ ∀ b n q, t.Mem b n q → ¬ Agree n b ip)

theorem lookupFrom_finds (ip : BitVec w) (hwf : t.WellFormed) (found : Option Peer) :
    t.Finds ip found (lookupFrom ip found t) := by
  induction t generalizing found with
  | nil => exact .inr ⟨rfl, fun _ _ _ hmem => hmem.elim⟩
  | node bits c p child ih =>
    have hcases : ∀ b n q, (node bits c p child).Mem b n q → Agree n b ip →
        (bits = b ∧ c = n ∧ p = some q) ∨ (child (choose c ip)).Mem b n q := by
      rintro b n q (hmem | ⟨side, hmem⟩) hagree
      · exact .inl hmem
      · obtain ⟨hlt, -, hside⟩ := hmem.below hwf
        rw [hagree c hlt] at hside
        subst hside
        exact .inr hmem
    unfold lookupFrom
    split
    next hcommon =>
      have hbelow : ∀ found, (child (choose c ip)).Finds ip found
          (if c = w then found else lookupFrom ip found (child (choose c ip))) := by
        intro found
        split
        next hend =>
          refine .inr ⟨rfl, fun b n q hmem _ => ?_⟩
          have hlt := (hmem.below hwf).1
          have hle := (hmem.masked (hwf.2.2 _).1).1
          omega
        next => exact ih _ (hwf.2.2 _).1 _
      rcases hbelow (if p.isSome then p else found) with
        ⟨b, n, q, heq, hmem, hagree, hmax⟩ | ⟨heq, hnone⟩
      · refine .inl ⟨b, n, q, heq, .inr ⟨_, hmem⟩, hagree, fun b' n' q' hmem' hagree' => ?_⟩
        rcases hcases b' n' q' hmem' hagree' with ⟨-, rfl, -⟩ | hmem'
        · exact (hmem.below hwf).1.le
        · exact hmax b' n' q' hmem' hagree'
      · cases p with
        | none =>
          refine .inr ⟨heq, fun b n q hmem hagree => ?_⟩
          rcases hcases b n q hmem hagree with ⟨-, -, hp⟩ | hmem
          · cases hp
          · exact hnone b n q hmem hagree
        | some q =>
          refine .inl ⟨bits, c, q, heq, .inl ⟨rfl, rfl, rfl⟩,
            (le_leadingZeros_xor_iff hwf.1).mp hcommon, fun b' n' q' hmem hagree => ?_⟩
          rcases hcases b' n' q' hmem hagree with ⟨-, rfl, -⟩ | hmem
          · exact le_rfl
          · exact (hnone b' n' q' hmem hagree).elim
    next hcommon =>
      refine .inr ⟨rfl, fun b n q hmem hagree => hcommon ?_⟩
      obtain ⟨hlen, hroot⟩ := hmem.root hwf
      exact (le_leadingZeros_xor_iff hwf.1).mpr (hroot.trans (hagree.le hlen))

/-! ### Removal -/

theorem isNil_iff : t.isNil ↔ t = nil := by
  cases t <;> simp [isNil]

theorem mem_unlink : (unlink bits c child).Mem b n q ↔ ∃ side, (child side).Mem b n q := by
  unfold unlink
  split
  · simp [Mem]
  next hnil =>
    split
    next hfalse => simp [isNil_iff.mp hfalse, Mem]
    next hfalse =>
      have htrue : child true = nil := by
        rw [← isNil_iff]
        simpa [hfalse] using hnil
      simp [htrue, Mem]

theorem isLeaf_cases (h : t.isLeaf cidr = true) :
    ∃ bits p child, t = node bits cidr p child ∧ ∀ side, child side = nil := by
  cases t with
  | nil => cases h
  | node bits c p child =>
    simp only [isLeaf, Bool.and_eq_true, beq_iff_eq, isNil_iff] at h
    obtain ⟨⟨rfl, hfalse⟩, htrue⟩ := h
    exact ⟨bits, p, child, rfl, Bool.rec hfalse htrue⟩

/-- The removal of a prefix the trie holds drops it and nothing else. -/
theorem mem_remove {q' : Peer} (hwf : t.WellFormed) (hmem : t.Mem (mask cidr ip) cidr q') :
    (t.remove ip cidr).Mem b n q ↔ ¬ (b = mask cidr ip ∧ n = cidr) ∧ t.Mem b n q := by
  induction t with
  | nil => exact hmem.elim
  | node bits c p child ih =>
    have hle := (hmem.masked hwf).1
    have hbelow : ∀ side, (child side).Mem b n q → c < n := fun _ hmem => (hmem.below hwf).1
    unfold remove
    split
    next heq =>
      subst heq
      rcases hmem with ⟨rfl, -, -⟩ | ⟨side, hmem⟩
      · rw [mem_unlink]
        grind [Mem]
      · have := (hmem.below hwf).1
        omega
    next hne =>
      have hlt : c < cidr := (hmem.root hwf).1.lt_of_ne hne
      rw [mem_iff_child hwf hlt hle] at hmem
      have hother : (child !choose c ip).Mem b n q → ¬ (b = mask cidr ip ∧ n = cidr) :=
        other_side hwf hlt hle
      rw [Mem, exists_side (choose c ip)]
      split
      next hleaf =>
        simp only [Bool.and_eq_true, Option.isNone_iff_eq_none] at hleaf
        obtain ⟨bits', p', child', hchild, hnil⟩ := isLeaf_cases hleaf.1
        rw [hchild] at hmem ⊢
        grind [Mem]
      next =>
        rw [Mem, exists_side (choose c ip), Function.update_self,
          Function.update_of_ne (by simp), ih _ (hwf.2.2 _).1 hmem]
        grind

theorem mem_of_mem_remove (hmem : (t.remove ip cidr).Mem b n q) : t.Mem b n q := by
  induction t with
  | nil => exact hmem
  | node bits c p child ih =>
    unfold remove at hmem
    split at hmem
    · exact .inr (mem_unlink.mp hmem)
    · split at hmem
      · exact .inr ⟨_, hmem⟩
      · rw [Mem, exists_side (choose c ip), Function.update_self,
          Function.update_of_ne (by simp)] at hmem
        rw [Mem, exists_side (choose c ip)]
        exact hmem.imp_right (Or.imp_left (ih _))

theorem wellFormed_remove (hwf : t.WellFormed) : (t.remove ip cidr).WellFormed := by
  induction t with
  | nil => trivial
  | node bits c p child ih =>
    obtain ⟨hc, hbits, hchild⟩ := id hwf
    unfold remove
    split
    · unfold unlink
      repeat' split
      · exact hwf
      · exact (hchild _).1
      · exact (hchild _).1
    · split
      · exact (hchild _).1
      · refine ⟨hc, hbits, ?_⟩
        rw [forall_side (choose c ip), Function.update_self, Function.update_of_ne (by simp)]
        exact ⟨⟨ih _ (hchild _).1, fun b n q hmem => (mem_of_mem_remove hmem).below hwf⟩, hchild _⟩

end TrieEntry

end Nylon.Polyamide
