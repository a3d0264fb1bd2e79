import Mathlib.Data.Finset.Card
import Mathlib.Order.Interval.Finset.Nat
import Nylon.State.NodeIdMap

/-!
The two passes of `BuildNodeIdMap` over the sorted names of distinct nodes. The first
pass keeps what is pinned. The second pass always finds a free id: were all ids taken
before it reaches a node, there would be more nodes than ids.
-/

namespace Nylon.State

open Lib

variable {H : Type}

/-- The number of ids from 16 to 0xFFFFF. -/
def idSpace : Nat := 0xFFFFF - 16 + 1

section Collect

/-- Of distinct nodes all are collected, with the ids they pin. -/
theorem foldl_collect {nodes : List (NodeCfg H)} (h : (nodes.map (·.id)).Nodup) :
    (nodes.foldl collect ([], ∅)).1 = nodes.map (·.id) ∧
      ∀ id n, (nodes.foldl collect ([], ∅)).2.lookup id = some n ↔
        ∃ node ∈ nodes, node.id = id ∧ node.numericId = n ∧ n ≠ 0 := by
  induction nodes using List.reverseRecOn with
  | nil => exact ⟨rfl, by simp⟩
  | append_singleton nodes node ih =>
    rw [List.map_append, List.nodup_append] at h
    obtain ⟨hids, hlookup⟩ := ih h.1
    have hnew : node.id ∉ nodes.map (·.id) := fun hmem =>
      h.2.2 node.id hmem node.id (by simp) rfl
    have hstep : (nodes ++ [node]).foldl collect ([], ∅) =
        (nodes.map (·.id) ++ [node.id],
          if node.numericId ≠ 0 then
            (nodes.foldl collect ([], ∅)).2.insert node.id node.numericId
          else (nodes.foldl collect ([], ∅)).2) := by
      rw [List.foldl_append, List.foldl_cons, List.foldl_nil, collect, hids, if_neg hnew]
    rw [hstep]
    refine ⟨by simp, fun id n => ?_⟩
    simp only [List.mem_append, List.mem_singleton, or_and_right, exists_or, exists_eq_left]
    rw [← hlookup]
    by_cases hpin : node.numericId = 0
    · rw [if_neg (not_not.mpr hpin)]
      refine ⟨Or.inl, ?_⟩
      rintro (hold | ⟨-, rfl, hne⟩)
      · exact hold
      · exact absurd hpin hne
    · rw [if_pos hpin, Table.lookup_insert_eq]
      by_cases hid : id = node.id
      · have hnone : (nodes.foldl collect ([], ∅)).2.lookup node.id ≠ some n := by
          intro hsome
          obtain ⟨other, hother, heq, -⟩ := (hlookup node.id n).mp hsome
          exact hnew (List.mem_map.mpr ⟨other, hother, heq⟩)
        rw [if_pos hid, hid]
        constructor
        · intro heq
          obtain rfl := Option.some.inj heq
          exact Or.inr ⟨rfl, rfl, hpin⟩
        · rintro (hold | ⟨-, rfl, -⟩)
          · exact absurd hold hnone
          · rfl
      · rw [if_neg hid]
        refine ⟨Or.inl, ?_⟩
        rintro (hold | ⟨rfl, -⟩)
        · exact hold
        · exact absurd rfl hid

theorem collectIds_eq (nodes : List (NodeCfg H)) :
    collectIds nodes = (sortNames (nodes.foldl collect ([], ∅)).1,
      (nodes.foldl collect ([], ∅)).2) :=
  rfl

/-- Distinct names are in increasing order. -/
theorem sortNames_increasing {names : List String} (h : names.Nodup) :
    (sortNames names).Pairwise (· < ·) := by
  have hle : (sortNames names).Pairwise (· ≤ ·) := List.pairwise_insertionSort _ _
  have hne : (sortNames names).Pairwise (· ≠ ·) := (sortNames_perm names).nodup_iff.mpr h
  exact hle.imp₂ (fun _ _ hle hne => lt_of_le_of_ne hle hne) hne

end Collect

section Assign

/-- The two tables of a map are inverse to each other. -/
def NodeIdMap.Inverse (m : NodeIdMap) : Prop :=
  ∀ id n, m.byString.lookup id = some n ↔ m.byNumeric.lookup n = some id

theorem NodeIdMap.Inverse.assign {m : NodeIdMap} (h : m.Inverse) {id : NodeId} {n : UInt32}
    (hid : m.byString.lookup id = none) (hn : m.byNumeric.lookup n = none) :
    (m.assign id n).Inverse := by
  intro id' n'
  simp only [NodeIdMap.assign, Table.lookup_insert_eq]
  by_cases hid' : id' = id <;> by_cases hn' : n' = n
  · simp [hid', hn']
  · rw [if_pos hid', if_neg hn', ← h, hid', hid]
    simp [Ne.symm hn']
  · rw [if_neg hid', if_pos hn', h, hn', hn]
    simp [Ne.symm hid']
  · rw [if_neg hid', if_neg hn']
    exact h id' n'

theorem NodeIdMap.lookup_assign (m : NodeIdMap) (id : NodeId) (n : UInt32) (id' : NodeId) :
    (m.assign id n).byString.lookup id' = if id' = id then some n else m.byString.lookup id' :=
  Table.lookup_insert_eq ..

end Assign

section Pinned

variable {explicit : Table NodeId UInt32}

/-- After the first pass over `done` the map has what these nodes pin. -/
structure Pinning (explicit : Table NodeId UInt32) (done : List NodeId) (m : NodeIdMap) : Prop where
  inverse : m.Inverse
  lookup : ∀ id, m.byString.lookup id = if id ∈ done then explicit.lookup id else none

/-- What a node pins is a label that no node before it pins. -/
def PinsFreshLabel (explicit : Table NodeId UInt32) (done : List NodeId) (id : NodeId) :
    Prop :=
  ∀ n, explicit.lookup id = some n → IsLabel n ∧ ∀ other ∈ done, explicit.lookup other ≠ some n

theorem Pinning.step {done : List NodeId} {m : NodeIdMap} (h : Pinning explicit done m)
    {id : NodeId} (hnew : id ∉ done) :
    (∃ m', assignPinned explicit m id = .ok m' ∧ PinsFreshLabel explicit done id ∧
        Pinning explicit (done ++ [id]) m') ∨
      (∃ e, assignPinned explicit m id = .error e) ∧ ¬ PinsFreshLabel explicit done id := by
  unfold assignPinned PinsFreshLabel
  cases hpin : explicit.lookup id with
  | none =>
    refine .inl ⟨m, rfl, by simp, h.inverse, fun id' => ?_⟩
    simp only [h.lookup id', List.mem_append, List.mem_singleton]
    by_cases hid : id' = id
    · rw [hid, if_neg hnew, if_pos (Or.inr rfl), hpin]
    · simp [hid]
  | some n =>
    dsimp only
    split_ifs with hlow hhigh
    · refine .inr ⟨⟨_, rfl⟩, fun hall => ?_⟩
      exact UInt32.not_lt.mpr (hall n rfl).1.1 hlow
    · refine .inr ⟨⟨_, rfl⟩, fun hall => ?_⟩
      exact UInt32.not_lt.mpr (hall n rfl).1.2 hhigh
    · cases htaken : m.byNumeric.lookup n with
      | some other =>
        have hother := (h.inverse other n).mpr htaken
        rw [h.lookup] at hother
        split_ifs at hother with hdone
        exact .inr ⟨⟨_, rfl⟩, fun hall => (hall n rfl).2 other hdone hother⟩
      | none =>
        have hid : m.byString.lookup id = none := by rw [h.lookup, if_neg hnew]
        refine .inl ⟨m.assign id n, rfl, ?_, h.inverse.assign hid htaken, fun id' => ?_⟩
        · intro n' hn'
          obtain rfl := Option.some.inj hn'
          refine ⟨⟨UInt32.not_lt.mp hlow, UInt32.not_lt.mp hhigh⟩, fun other hdone hother => ?_⟩
          have hsome : m.byString.lookup other = some n := by
            rw [h.lookup, if_pos hdone, hother]
          rw [(h.inverse other n).mp hsome] at htaken
          cases htaken
        · simp only [NodeIdMap.lookup_assign, h.lookup, List.mem_append, List.mem_singleton]
          by_cases heq : id' = id
          · rw [if_pos heq, if_pos (Or.inr heq), heq, hpin]
          · simp [heq]

/-- The first pass succeeds exactly if different nodes pin different labels. -/
theorem foldlM_assignPinned {ids : List NodeId} (hnodup : ids.Nodup) :
    (∃ m, ids.foldlM (assignPinned explicit) NodeIdMap.empty = .ok m ∧ Pinning explicit ids m ∧
        ∀ done id rest, ids = done ++ id :: rest → PinsFreshLabel explicit done id) ∨
      (∃ e, ids.foldlM (assignPinned explicit) NodeIdMap.empty = .error e) ∧
        ∃ done id rest, ids = done ++ id :: rest ∧ ¬ PinsFreshLabel explicit done id := by
  refine foldlM_cases (I := Pinning explicit) ⟨?_, ?_⟩ ?_
  · intro id n
    exact iff_of_false (by simp [NodeIdMap.empty]) (by simp [NodeIdMap.empty])
  · intro id
    rfl
  · intro done id rest m hids hm
    rw [hids, List.nodup_append] at hnodup
    exact hm.step fun hmem => hnodup.2.2 id hmem id (by simp) rfl

end Pinned

section Free

theorem toNat_maxNodeIdNumeric : maxNodeIdNumeric.toNat = 0xFFFFF := rfl

theorem nextFree_eq_some {taken : Table UInt32 NodeId} {next numeric : UInt32}
    (h : nextFree taken next = some numeric) :
    taken.lookup numeric = none ∧ ∀ k, next ≤ k → k < numeric → (taken.lookup k).isSome = true := by
  obtain ⟨n, hn, rfl⟩ := Option.map_eq_some_iff.mp h
  obtain ⟨hfree, hmem, hbelow⟩ := List.find?_range'_eq_some.mp hn
  have hmem := List.mem_range'_1.mp hmem
  have hmax := toNat_maxNodeIdNumeric
  have hsmall : (UInt32.ofNat n).toNat = n := by
    rw [UInt32.toNat_ofNat']
    omega
  refine ⟨Option.isNone_iff_eq_none.mp hfree, fun k hk hlt => ?_⟩
  rw [UInt32.lt_iff_toNat_lt, hsmall] at hlt
  have htaken := hbelow k.toNat (UInt32.le_iff_toNat_le.mp hk) hlt
  rw [UInt32.ofNat_toNat] at htaken
  simpa using htaken

theorem nextFree_eq_none {taken : Table UInt32 NodeId} {next : UInt32}
    (h : nextFree taken next = none) {k : UInt32} (hk : next ≤ k)
    (hmax : k ≤ maxNodeIdNumeric) : (taken.lookup k).isSome = true := by
  have hnone := List.find?_range'_eq_none.mp (Option.map_eq_none_iff.mp h) k.toNat
    (UInt32.le_iff_toNat_le.mp hk)
  rw [UInt32.le_iff_toNat_le] at hk hmax
  have htaken := hnone (by omega)
  rw [UInt32.ofNat_toNat] at htaken
  simpa using htaken

/-- If every id is taken by one of the names, there are as many names as ids. -/
theorem idSpace_le_of_taken {m : NodeIdMap} (hinverse : m.Inverse) {names : List NodeId}
    (hnames : ∀ id n, m.byString.lookup id = some n → id ∈ names)
    (htaken : ∀ k, firstNodeIdNumeric ≤ k → k ≤ maxNodeIdNumeric →
      (m.byNumeric.lookup k).isSome = true) : idSpace ≤ names.length := by
  have hlookup : ∀ k ∈ Finset.Icc 16 0xFFFFF, ∃ id, m.byNumeric.lookup (.ofNat k) = some id := by
    intro k hk
    have hk := Finset.mem_Icc.mp hk
    have hsmall : (UInt32.ofNat k).toNat = k := by
      rw [UInt32.toNat_ofNat']
      omega
    apply Option.isSome_iff_exists.mp
    apply htaken
    · rw [UInt32.le_iff_toNat_le, hsmall]
      exact hk.1
    · rw [UInt32.le_iff_toNat_le, hsmall]
      exact hk.2
  have hcard : (Finset.Icc 16 0xFFFFF).card ≤ names.toFinset.card := by
    refine Finset.card_le_card_of_injOn
      (fun k => (m.byNumeric.lookup (.ofNat k)).getD "") ?_ ?_
    · intro k hk
      obtain ⟨id, hid⟩ := hlookup k hk
      simp only [hid, Option.getD_some, List.coe_toFinset, Set.mem_ofPred_eq]
      exact hnames id _ ((hinverse id _).mpr hid)
    · intro k hk k' hk' heq
      obtain ⟨id, hid⟩ := hlookup k hk
      obtain ⟨id', hid'⟩ := hlookup k' hk'
      simp only [hid, hid', Option.getD_some] at heq
      subst heq
      have hsame := ((hinverse id _).mpr hid).symm.trans ((hinverse id _).mpr hid')
      have hnat := congrArg UInt32.toNat (Option.some.inj hsame)
      have hk := Finset.mem_Icc.mp hk
      have hk' := Finset.mem_Icc.mp hk'
      rw [UInt32.toNat_ofNat', UInt32.toNat_ofNat'] at hnat
      omega
  rw [Nat.card_Icc] at hcard
  have hdup := names.toFinset_card_le
  unfold idSpace
  omega

end Free

section Packing

/-- After the second pass over `done` from the sorted names: below the next id all are
taken, and below the id of a node they are pinned or belong to nodes before it. -/
structure Packing (ids : List NodeId) (explicit : Table NodeId UInt32) (done : List NodeId)
    (acc : NodeIdMap × UInt32) : Prop where
  inverse : acc.1.Inverse
  domain : ∀ id, (acc.1.byString.lookup id).isSome = true ↔
    id ∈ ids ∧ ((explicit.lookup id).isSome = true ∨ id ∈ done)
  pinned : ∀ id ∈ ids, ∀ n, explicit.lookup id = some n → acc.1.byString.lookup id = some n
  next : firstNodeIdNumeric ≤ acc.2
  filled : ∀ k, firstNodeIdNumeric ≤ k → k < acc.2 →
    (acc.1.byNumeric.lookup k).isSome = true
  lowest : ∀ id ∈ done, explicit.lookup id = none → ∀ n,
    acc.1.byString.lookup id = some n → firstNodeIdNumeric ≤ n ∧
      ∀ k, firstNodeIdNumeric ≤ k → k < n → ∃ other, acc.1.byString.lookup other = some k ∧
          ((explicit.lookup other).isSome = true ∨ other < id)

variable {ids : List NodeId} {explicit : Table NodeId UInt32}

theorem Pinning.packing {m : NodeIdMap} (h : Pinning explicit ids m) :
    Packing ids explicit [] (m, firstNodeIdNumeric) where
  inverse := h.inverse
  domain id := by
    rw [h.lookup]
    by_cases hid : id ∈ ids <;> simp [hid]
  pinned id hid n hn := by rw [h.lookup, if_pos hid, hn]
  next := UInt32.le_refl _
  filled k hk hlt := absurd hlt (UInt32.not_lt.mpr hk)
  lowest id hid := absurd hid List.not_mem_nil

variable {done rest : List NodeId} {id : NodeId} {m : NodeIdMap} {next : UInt32}

/-- A node that pins its id is skipped. -/
theorem Packing.skip (h : Packing ids explicit done (m, next))
    (hpin : (explicit.lookup id).isSome = true) :
    Packing ids explicit (done ++ [id]) (m, next) where
  inverse := h.inverse
  domain id' := by
    rw [h.domain id', List.mem_append, List.mem_singleton]
    constructor
    · rintro ⟨hmem, hpinned | hdone⟩
      · exact ⟨hmem, .inl hpinned⟩
      · exact ⟨hmem, .inr (.inl hdone)⟩
    · rintro ⟨hmem, hpinned | hdone | rfl⟩
      · exact ⟨hmem, .inl hpinned⟩
      · exact ⟨hmem, .inr hdone⟩
      · exact ⟨hmem, .inl hpin⟩
  pinned := h.pinned
  next := h.next
  filled := h.filled
  lowest id' hid' hnone := by
    rcases List.mem_append.mp hid' with hdone | hlast
    · exact h.lowest id' hdone hnone
    · rw [List.mem_singleton.mp hlast] at hnone
      rw [hnone] at hpin
      cases hpin

/-- As long as a node is left there is a free id for it. -/
theorem Packing.nextFree_ne_none (h : Packing ids explicit done (m, next)) (hid : id ∈ ids)
    (hfresh : m.byString.lookup id = none) (hspace : ids.length ≤ idSpace) :
    nextFree m.byNumeric next ≠ none := by
  intro hnone
  have hnames : ∀ other n, m.byString.lookup other = some n → other ∈ ids.erase id := by
    intro other n hother
    have hmem := ((h.domain other).mp (by rw [hother]; rfl)).1
    refine (List.mem_erase_of_ne ?_).mpr hmem
    rintro rfl
    rw [hfresh] at hother
    cases hother
  have hle := idSpace_le_of_taken h.inverse hnames fun k hk hmax => by
    by_cases hnext : k < next
    · exact h.filled k hk hnext
    · exact nextFree_eq_none hnone (UInt32.not_lt.mp hnext) hmax
  have hlen := List.length_erase_of_mem hid
  have hpos := List.length_pos_of_mem hid
  omega

/-- A node without a pinned id gets the lowest free one. -/
theorem Packing.assign (h : Packing ids explicit done (m, next))
    (hids : ids = done ++ id :: rest) (hsorted : ids.Pairwise (· < ·))
    (hnone : explicit.lookup id = none) {n : UInt32}
    (hfree : nextFree m.byNumeric next = some n) :
    Packing ids explicit (done ++ [id]) (m.assign id n, n + 1) := by
  have hbefore : ∀ other ∈ done, other < id := by
    intro other hother
    rw [hids, List.pairwise_append] at hsorted
    exact hsorted.2.2 other hother id List.mem_cons_self
  have hfresh : m.byString.lookup id = none := by
    rw [← Option.not_isSome_iff_eq_none, h.domain id, hnone]
    rintro ⟨-, hsome | hdone⟩
    · cases hsome
    · exact lt_irrefl id (hbefore id hdone)
  have hne : ∀ {other k}, m.byString.lookup other = some k → other ≠ id := by
    rintro other k hother rfl
    rw [hfresh] at hother
    cases hother
  obtain ⟨hlow, hhigh⟩ := nextFree_spec hfree
  obtain ⟨hunused, hbelow⟩ := nextFree_eq_some hfree
  have hfirst := UInt32.le_trans h.next hlow
  have hsucc : (n + 1).toNat = n.toNat + 1 := by
    rw [UInt32.le_iff_toNat_le, toNat_maxNodeIdNumeric] at hhigh
    rw [UInt32.toNat_add]
    exact Nat.mod_eq_of_lt (by omega : n.toNat + 1 < 2 ^ 32)
  -- all ids below the new one are taken
  have htaken : ∀ k, firstNodeIdNumeric ≤ k → k < n →
      (m.byNumeric.lookup k).isSome = true := by
    intro k hk hlt
    by_cases hnext : k < next
    · exact h.filled k hk hnext
    · exact hbelow k (UInt32.not_lt.mp hnext) hlt
  constructor
  · exact h.inverse.assign hfresh hunused
  · intro id'
    rw [NodeIdMap.lookup_assign, List.mem_append, List.mem_singleton]
    by_cases heq : id' = id
    · rw [if_pos heq, heq]
      exact iff_of_true rfl ⟨hids ▸ by simp, .inr (.inr rfl)⟩
    · rw [if_neg heq, h.domain id']
      simp [heq]
  · intro id' hid' k hk
    rw [NodeIdMap.lookup_assign, if_neg (hne (h.pinned id' hid' k hk))]
    exact h.pinned id' hid' k hk
  · rw [UInt32.le_iff_toNat_le] at hfirst ⊢
    dsimp only
    omega
  · intro k hk hlt
    simp only [NodeIdMap.assign, Table.lookup_insert_eq]
    by_cases heq : k = n
    · rw [if_pos heq]
      rfl
    · rw [if_neg heq]
      refine htaken k hk ?_
      rw [UInt32.lt_iff_toNat_lt, hsucc] at hlt
      rw [UInt32.lt_iff_toNat_lt]
      have := mt UInt32.toNat_inj.mp heq
      omega
  · intro id' hid' hunpinned n' hn'
    rw [NodeIdMap.lookup_assign] at hn'
    by_cases heq : id' = id
    · rw [if_pos heq] at hn'
      obtain rfl := Option.some.inj hn'
      refine ⟨hfirst, fun k hk hlt => ?_⟩
      obtain ⟨other, hother⟩ := Option.isSome_iff_exists.mp (htaken k hk hlt)
      have hlookup := (h.inverse other k).mpr hother
      refine ⟨other, ?_, ?_⟩
      · rw [NodeIdMap.lookup_assign, if_neg (hne hlookup)]
        exact hlookup
      · rw [heq]
        exact (((h.domain other).mp (by rw [hlookup]; rfl)).2).imp_right (hbefore other)
    · rw [if_neg heq] at hn'
      have hdone : id' ∈ done := by simpa [heq] using hid'
      obtain ⟨hlabel, hothers⟩ := h.lowest id' hdone hunpinned n' hn'
      refine ⟨hlabel, fun k hk hlt => ?_⟩
      obtain ⟨other, hother, hwhy⟩ := hothers k hk hlt
      refine ⟨other, ?_, hwhy⟩
      rw [NodeIdMap.lookup_assign, if_neg (hne hother)]
      exact hother

/-- The second pass never runs out of ids. -/
theorem foldlM_assignFree (hsorted : ids.Pairwise (· < ·)) (hspace : ids.length ≤ idSpace)
    (hm : Pinning explicit ids m) :
    ∃ acc, ids.foldlM (assignFree explicit) (m, firstNodeIdNumeric) = .ok acc ∧
      Packing ids explicit ids acc := by
  have hcases := foldlM_cases (f := assignFree explicit) (l := ids)
    (b := (m, firstNodeIdNumeric)) (I := Packing ids explicit) (P := fun _ _ => True)
    hm.packing (by
      rintro done id rest ⟨m, next⟩ hids hacc
      refine .inl ?_
      unfold assignFree
      by_cases hpin : (explicit.lookup id).isSome = true
      · rw [if_pos hpin]
        exact ⟨_, rfl, trivial, hacc.skip hpin⟩
      · rw [if_neg hpin]
        have hnone := Option.not_isSome_iff_eq_none.mp hpin
        have hmem : id ∈ ids := by rw [hids]; simp
        have hfresh : m.byString.lookup id = none := by
          rw [← Option.not_isSome_iff_eq_none, hacc.domain id]
          rintro ⟨-, hsome | hdone⟩
          · exact hpin hsome
          · rw [hids, List.pairwise_append] at hsorted
            exact lt_irrefl id (hsorted.2.2 id hdone id List.mem_cons_self)
        cases hfree : nextFree m.byNumeric next with
        | none => exact absurd hfree (hacc.nextFree_ne_none hmem hfresh hspace)
        | some n => exact ⟨_, rfl, trivial, hacc.assign hids hsorted hnone hfree⟩)
  rcases hcases with ⟨acc, hok, hpacking, -⟩ | ⟨-, _, _, _, -, hfalse⟩
  · exact ⟨acc, hok, hpacking⟩
  · exact absurd trivial hfalse

end Packing

end Nylon.State
