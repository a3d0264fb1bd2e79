import Nylon.State.NumericIds

/-!
The numeric ids of a configuration with distinct node ids are a bijection that does
not depend on the order of the nodes.
-/

namespace Nylon.State

open Lib

variable {H : Type}

/-- The node with a numeric id; `0` is the id of no node. -/
def NodeIdMap.toString (m : NodeIdMap) (b : UInt32) : Option NodeId :=
  if b = 0 then none else m.byNumeric.lookup b

def pinnedIds (c : CentralCfg H) : List UInt32 :=
  (c.getNodes.filter (·.numericId ≠ 0)).map (·.numericId)

def unpinnedNodes (c : CentralCfg H) : List NodeId :=
  (c.getNodes.filter (·.numericId = 0)).map (·.id)

/-- What the map of a configuration has to be. -/
structure StableBijection (c : CentralCfg H) (m : NodeIdMap) : Prop where
  inverse : ∀ id n, m.toNumeric id = some n ↔ m.toString n = some id
  total : ∀ id, (m.toNumeric id).isSome ↔ id ∈ c.getNodes.map (·.id)
  pinned : ∀ node ∈ c.getNodes, node.numericId ≠ 0 → m.toNumeric node.id = some node.numericId
  increasing : ∀ id ∈ unpinnedNodes c, ∀ id' ∈ unpinnedNodes c, id < id' →
    ∀ n n', m.toNumeric id = some n → m.toNumeric id' = some n' → n < n'
  lowest : ∀ id ∈ unpinnedNodes c, ∃ n, m.toNumeric id = some n ∧
    IsLeast {k | 16 ≤ k ∧ k ∉ pinnedIds c ∧
      ∀ id' ∈ unpinnedNodes c, id' < id → m.toNumeric id' ≠ some k} n

section Build

variable (c : CentralCfg H)

/-- The sorted names and the pinned ids that the passes work with. -/
def sortedIds : List NodeId := (collectIds c.getNodes).1

def explicitIds : Table NodeId UInt32 := (collectIds c.getNodes).2

variable {c}

theorem sortedIds_eq (h : (c.getNodes.map (·.id)).Nodup) :
    sortedIds c = sortNames (c.getNodes.map (·.id)) := by
  rw [sortedIds, collectIds_eq, (foldl_collect h).1]

theorem mem_sortedIds (h : (c.getNodes.map (·.id)).Nodup) (id : NodeId) :
    id ∈ sortedIds c ↔ id ∈ c.getNodes.map (·.id) := by
  rw [sortedIds_eq h, mem_sortNames]

theorem length_sortedIds (h : (c.getNodes.map (·.id)).Nodup) :
    (sortedIds c).length = c.getNodes.length := by
  rw [sortedIds_eq h, (sortNames_perm _).length_eq, List.length_map]

theorem lookup_explicitIds (h : (c.getNodes.map (·.id)).Nodup) (id : NodeId) (n : UInt32) :
    (explicitIds c).lookup id = some n ↔
      ∃ node ∈ c.getNodes, node.id = id ∧ node.numericId = n ∧ n ≠ 0 :=
  (foldl_collect h).2 id n

theorem explicitIds_of_pinned (h : (c.getNodes.map (·.id)).Nodup) {node : NodeCfg H}
    (hnode : node ∈ c.getNodes) (hpin : node.numericId ≠ 0) :
    (explicitIds c).lookup node.id = some node.numericId :=
  (lookup_explicitIds h _ _).mpr ⟨node, hnode, rfl, rfl, hpin⟩

theorem explicitIds_of_unpinned (h : (c.getNodes.map (·.id)).Nodup) {id : NodeId}
    (hid : id ∈ unpinnedNodes c) : (explicitIds c).lookup id = none := by
  obtain ⟨node, hnode, rfl⟩ := List.mem_map.mp hid
  obtain ⟨hmem, hzero⟩ := List.mem_filter.mp hnode
  rw [Option.eq_none_iff_forall_ne_some]
  intro n hn
  obtain ⟨other, hother, heq, rfl, hne⟩ := (lookup_explicitIds h _ _).mp hn
  obtain rfl := List.inj_on_of_nodup_map h hother hmem heq
  exact hne (by simpa using hzero)

/-- A node either pins its id or does not. -/
theorem unpinned_of_explicitIds (h : (c.getNodes.map (·.id)).Nodup) {id : NodeId}
    (hid : id ∈ c.getNodes.map (·.id)) (hnone : (explicitIds c).lookup id = none) :
    id ∈ unpinnedNodes c := by
  obtain ⟨node, hnode, rfl⟩ := List.mem_map.mp hid
  refine List.mem_map.mpr ⟨node, List.mem_filter.mpr ⟨hnode, ?_⟩, rfl⟩
  by_contra hpin
  rw [explicitIds_of_pinned h hnode (by simpa using hpin)] at hnone
  cases hnone

theorem mem_pinnedIds {n : UInt32} :
    n ∈ pinnedIds c ↔ ∃ node ∈ c.getNodes, node.numericId = n ∧ n ≠ 0 := by
  simp only [pinnedIds, List.mem_map, List.mem_filter, decide_eq_true_eq]
  constructor
  · rintro ⟨node, ⟨hnode, hne⟩, rfl⟩
    exact ⟨node, hnode, rfl, hne⟩
  · rintro ⟨node, hnode, rfl, hne⟩
    exact ⟨node, ⟨hnode, hne⟩, rfl⟩

/-- Fresh labels in the order of the names are distinct labels. -/
theorem pinsFreshLabels_iff (h : (c.getNodes.map (·.id)).Nodup) :
    (∀ done id rest, sortedIds c = done ++ id :: rest → PinsFreshLabel (explicitIds c) done id) ↔
      (pinnedIds c).Nodup ∧ ∀ n ∈ pinnedIds c, IsLabel n := by
  constructor
  · intro hfresh
    have hmem : ∀ node ∈ c.getNodes, node.id ∈ sortedIds c := fun node hnode =>
      (mem_sortedIds h _).mpr (List.mem_map_of_mem hnode)
    -- of two nodes with one id, the names decide which comes first
    have hbefore : ∀ node ∈ c.getNodes, ∀ other ∈ c.getNodes, node.numericId ≠ 0 →
        node.numericId = other.numericId → node.id = other.id := by
      intro node hnode other hother hpin heq
      by_contra hne
      have hpin' : other.numericId ≠ 0 := heq ▸ hpin
      obtain ⟨done, rest, hsplit⟩ := List.append_of_mem (hmem node hnode)
      have hin : other.id ∈ done ∨ other.id ∈ rest := by
        have hmem' := hmem other hother
        rw [hsplit, List.mem_append, List.mem_cons] at hmem'
        rcases hmem' with hdone | heq' | hrest
        · exact .inl hdone
        · exact absurd heq'.symm hne
        · exact .inr hrest
      rcases hin with hdone | hrest
      · exact (hfresh _ _ _ hsplit _ (explicitIds_of_pinned h hnode hpin)).2 other.id hdone
          (heq ▸ explicitIds_of_pinned h hother hpin')
      · obtain ⟨mid, rest, rfl⟩ := List.append_of_mem hrest
        have hsplit' : sortedIds c = (done ++ node.id :: mid) ++ other.id :: rest := by
          simp [hsplit]
        exact (hfresh _ _ _ hsplit' _ (explicitIds_of_pinned h hother hpin')).2 node.id
          (by simp) (heq ▸ explicitIds_of_pinned h hnode hpin)
    constructor
    · refine List.Nodup.map_on ?_ (List.Nodup.filter _ h.of_map)
      intro node hnode other hother heq
      obtain ⟨hnode, hpin⟩ := List.mem_filter.mp hnode
      obtain ⟨hother, -⟩ := List.mem_filter.mp hother
      exact List.inj_on_of_nodup_map h hnode hother
        (hbefore node hnode other hother (by simpa using hpin) heq)
    · intro n hn
      obtain ⟨node, hnode, rfl, hpin⟩ := mem_pinnedIds.mp hn
      obtain ⟨done, rest, hsplit⟩ := List.append_of_mem (hmem node hnode)
      exact (hfresh _ _ _ hsplit _ (explicitIds_of_pinned h hnode hpin)).1
  · rintro ⟨hdistinct, hlabels⟩ done id rest hsplit n hn
    obtain ⟨node, hnode, rfl, rfl, hpin⟩ := (lookup_explicitIds h _ _).mp hn
    refine ⟨hlabels _ (mem_pinnedIds.mpr ⟨node, hnode, rfl, hpin⟩), fun other hdone hother => ?_⟩
    obtain ⟨node', hnode', rfl, heq, -⟩ := (lookup_explicitIds h _ _).mp hother
    have hfilter : ∀ x ∈ c.getNodes, x.numericId ≠ 0 →
        x ∈ c.getNodes.filter (·.numericId ≠ 0) := fun x hx hne =>
      List.mem_filter.mpr ⟨hx, by simpa using hne⟩
    have hsame := List.inj_on_of_nodup_map hdistinct (hfilter node' hnode' (heq ▸ hpin))
      (hfilter node hnode hpin) heq
    have hnodup : (sortedIds c).Nodup := by
      rw [sortedIds_eq h]
      exact (sortNames_perm _).nodup_iff.mpr h
    rw [hsplit, List.nodup_append] at hnodup
    exact hnodup.2.2 node'.id hdone node.id (by simp) (congrArg _ hsame)

theorem buildNodeIdMap_eq : buildNodeIdMap c =
    if (maxNodeIdNumeric - firstNodeIdNumeric + 1).toNat < (sortedIds c).length then
      .error ("network has " ++ ToString.toString (sortedIds c).length ++
        " nodes, exceeds NodeIdNumeric capacity of " ++
        ToString.toString (maxNodeIdNumeric - firstNodeIdNumeric + 1).toNat)
    else do
      let pinned ← (sortedIds c).foldlM (assignPinned (explicitIds c)) NodeIdMap.empty
      let final ← (sortedIds c).foldlM (assignFree (explicitIds c))
        (pinned, firstNodeIdNumeric)
      return final.1 :=
  rfl

/-- The map is built, or the nodes are too many, or the first pass fails. -/
theorem buildNodeIdMap_cases (h : (c.getNodes.map (·.id)).Nodup) :
    (∃ m next, buildNodeIdMap c = .ok m ∧
        (c.getNodes.length ≤ idSpace ∧ (pinnedIds c).Nodup ∧ ∀ n ∈ pinnedIds c, IsLabel n) ∧
        Packing (sortedIds c) (explicitIds c) (sortedIds c) (m, next)) ∨
      (∃ e, buildNodeIdMap c = .error e ∧ e.toList.head? = some 'n') ∧
        ¬ (c.getNodes.length ≤ idSpace ∧ (pinnedIds c).Nodup ∧ ∀ n ∈ pinnedIds c, IsLabel n) := by
  have hlen := length_sortedIds h
  have hcapacity : (maxNodeIdNumeric - firstNodeIdNumeric + 1).toNat = idSpace := rfl
  have hsorted : (sortedIds c).Pairwise (· < ·) := by
    rw [sortedIds_eq h]
    exact sortNames_increasing h
  rw [buildNodeIdMap_eq, hcapacity, hlen]
  by_cases hspace : c.getNodes.length ≤ idSpace
  · rw [if_neg (Nat.not_lt.mpr hspace)]
    have hiff := pinsFreshLabels_iff h
    rcases @foldlM_assignPinned (explicitIds c) _ hsorted.nodup with
      ⟨pinned, hok, hpinning, hfresh⟩ | ⟨⟨e, herr⟩, done, id, rest, hsplit, hnot⟩
    · obtain ⟨⟨m, next⟩, hfree, hpacking⟩ :=
        foldlM_assignFree hsorted (hlen.trans_le hspace) hpinning
      refine .inl ⟨m, next, ?_, ⟨hspace, hiff.mp hfresh⟩, hpacking⟩
      rw [hok]
      exact congrArg (fun r : Except String (NodeIdMap × UInt32) =>
        r >>= fun final => pure final.1) hfree
    · refine .inr ⟨⟨e, ?_, ?_⟩, fun hall => hnot (hiff.mpr hall.2 done id rest hsplit)⟩
      · rw [herr]
        rfl
      · refine foldlM_error (Q := fun e => e.toList.head? = some 'n') ?_ herr
        intro m id e he
        unfold assignPinned at he
        split at he
        · cases he
        · split_ifs at he
          · obtain rfl := Except.error.inj he
            simp only [String.toList_append]
            rfl
          · obtain rfl := Except.error.inj he
            simp only [String.toList_append]
            rfl
          · split at he
            · obtain rfl := Except.error.inj he
              simp only [String.toList_append]
              rfl
            · cases he
  · rw [if_pos (Nat.not_le.mp hspace)]
    refine .inr ⟨⟨_, rfl, ?_⟩, fun hall => hspace hall.1⟩
    simp only [String.toList_append]
    rfl

theorem unpinned_facts (h : (c.getNodes.map (·.id)).Nodup) {id : NodeId}
    (hid : id ∈ unpinnedNodes c) :
    id ∈ sortedIds c ∧ (explicitIds c).lookup id = none := by
  refine ⟨(mem_sortedIds h id).mpr ?_, explicitIds_of_unpinned h hid⟩
  obtain ⟨node, hnode, rfl⟩ := List.mem_map.mp hid
  exact List.mem_map_of_mem (List.mem_filter.mp hnode).1

section Packed

variable {m : NodeIdMap} {next : UInt32}

theorem NodeIdMap.Inverse.injective (h : m.Inverse) {id id' : NodeId} {n : UInt32}
    (hid : m.toNumeric id = some n) (hid' : m.toNumeric id' = some n) : id = id' :=
  Option.some.inj (((h id n).mp hid).symm.trans ((h id' n).mp hid'))

/-- Below the id of a node, ids are pinned or belong to nodes with smaller names. -/
theorem Packing.below (h : (c.getNodes.map (·.id)).Nodup)
    (hm : Packing (sortedIds c) (explicitIds c) (sortedIds c) (m, next)) {id : NodeId}
    {n k : UInt32} (hid : id ∈ unpinnedNodes c) (hn : m.toNumeric id = some n)
    (hk : firstNodeIdNumeric ≤ k) (hlt : k < n) :
    k ∈ pinnedIds c ∨ ∃ other ∈ unpinnedNodes c, other < id ∧ m.toNumeric other = some k := by
  obtain ⟨hmem, hnone⟩ := unpinned_facts h hid
  obtain ⟨other, hother, hcase⟩ := (hm.lowest id hmem hnone n hn).2 k hk hlt
  have hin := ((hm.domain other).mp (by rw [hother]; rfl)).1
  cases hpin : (explicitIds c).lookup other with
  | some p =>
    obtain rfl := Option.some.inj ((hm.pinned other hin p hpin).symm.trans hother)
    obtain ⟨node, hnode, -, heq, hne⟩ := (lookup_explicitIds h _ _).mp hpin
    exact .inl (mem_pinnedIds.mpr ⟨node, hnode, heq, hne⟩)
  | none =>
    rw [hpin] at hcase
    refine .inr ⟨other, ?_, hcase.resolve_left (by simp), hother⟩
    exact unpinned_of_explicitIds h ((mem_sortedIds h _).mp hin) hpin

/-- No unpinned node has a pinned id. -/
theorem Packing.not_pinned (h : (c.getNodes.map (·.id)).Nodup)
    (hm : Packing (sortedIds c) (explicitIds c) (sortedIds c) (m, next)) {id : NodeId}
    {n : UInt32} (hid : id ∈ unpinnedNodes c) (hn : m.toNumeric id = some n) :
    n ∉ pinnedIds c := by
  intro hpinned
  obtain ⟨node, hnode, rfl, hne⟩ := mem_pinnedIds.mp hpinned
  have hexplicit := explicitIds_of_pinned h hnode hne
  have hnode' := hm.pinned _ ((mem_sortedIds h _).mpr (List.mem_map_of_mem hnode)) _ hexplicit
  obtain rfl := hm.inverse.injective hn hnode'
  rw [(unpinned_facts h hid).2] at hexplicit
  cases hexplicit

theorem Packing.stableBijection (h : (c.getNodes.map (·.id)).Nodup)
    (hm : Packing (sortedIds c) (explicitIds c) (sortedIds c) (m, next))
    (hlabels : m.AssignsLabels) : StableBijection c m := by
  have hnonzero : ∀ {id n}, m.toNumeric id = some n → n ≠ 0 := by
    rintro id n hn rfl
    exact absurd (hlabels id 0 hn).1 (by decide)
  have htotal : ∀ id, (m.toNumeric id).isSome = true ↔ id ∈ c.getNodes.map (·.id) := by
    intro id
    refine (hm.domain id).trans ?_
    rw [mem_sortedIds h]
    exact and_iff_left_of_imp Or.inr
  constructor
  · intro id n
    unfold NodeIdMap.toString
    constructor
    · intro hn
      rw [if_neg (hnonzero hn)]
      exact (hm.inverse id n).mp hn
    · intro hid
      split_ifs at hid
      exact (hm.inverse id n).mpr hid
  · exact htotal
  · intro node hnode hpin
    exact hm.pinned _ ((mem_sortedIds h _).mpr (List.mem_map_of_mem hnode)) _
      (explicitIds_of_pinned h hnode hpin)
  · intro id hid id' hid' hlt n n' hn hn'
    by_contra hle
    have hne : n' ≠ n := by
      rintro rfl
      exact hlt.ne (hm.inverse.injective hn hn')
    have hlt' : n' < n := by
      rw [UInt32.lt_iff_toNat_lt] at hle ⊢
      have := mt UInt32.toNat_inj.mp hne
      omega
    rcases hm.below h hid hn (hlabels id' n' hn').1 hlt' with hpinned | ⟨other, -, hother, hsame⟩
    · exact hm.not_pinned h hid' hn' hpinned
    · obtain rfl := hm.inverse.injective hsame hn'
      exact absurd hother hlt.not_gt
  · intro id hid
    obtain ⟨n, hn⟩ := Option.isSome_iff_exists.mp ((htotal id).mpr
      ((mem_sortedIds h id).mp (unpinned_facts h hid).1))
    refine ⟨n, hn, ⟨(hlabels id n hn).1, hm.not_pinned h hid hn, ?_⟩, ?_⟩
    · intro id' _ hlt hid'
      exact hlt.ne (hm.inverse.injective hid' hn)
    · rintro k ⟨hk, hnot, hothers⟩
      by_contra hle
      rcases hm.below h hid hn hk (UInt32.not_le.mp hle) with
        hpinned | ⟨other, hother, hlt, hsome⟩
      · exact hnot hpinned
      · exact hothers other hother hlt hsome

end Packed

/-- The map does not depend on the order of the nodes. -/
theorem buildNodeIdMap_perm {c' : CentralCfg H} (h : (c.getNodes.map (·.id)).Nodup)
    (hperm : c'.getNodes.Perm c.getNodes) : buildNodeIdMap c' = buildNodeIdMap c := by
  have h' : (c'.getNodes.map (·.id)).Nodup := (hperm.map _).nodup_iff.mpr h
  have hids : sortedIds c' = sortedIds c := by
    rw [sortedIds_eq h, sortedIds_eq h']
    exact sortNames_eq_of_perm (hperm.map _)
  have hlookup : ∀ id, (explicitIds c').lookup id = (explicitIds c).lookup id := by
    intro id
    apply Option.ext
    intro n
    rw [lookup_explicitIds h, lookup_explicitIds h']
    simp only [hperm.mem_iff]
  have hpinned : assignPinned (explicitIds c') = assignPinned (explicitIds c) := by
    funext m id
    simp only [assignPinned, hlookup]
  have hfree : assignFree (explicitIds c') = assignFree (explicitIds c) := by
    funext acc id
    simp only [assignFree, hlookup]
  rw [buildNodeIdMap_eq, buildNodeIdMap_eq, hids, hpinned, hfree]

end Build

/-- For distinct node ids: when the map exists, what it is, that the order of routers
and clients does not matter, and that the second pass does not fail. -/
theorem buildNodeIdMap_bijection (c : CentralCfg H) (hdistinct : (c.getNodes.map (·.id)).Nodup) :
    ((∃ m, buildNodeIdMap c = .ok m) ↔ c.getNodes.length ≤ idSpace ∧ (pinnedIds c).Nodup ∧
        ∀ n ∈ pinnedIds c, 16 ≤ n ∧ n ≤ 0xFFFFF) ∧
    (∀ m, buildNodeIdMap c = .ok m → StableBijection c m) ∧
    (∀ c' : CentralCfg H, c'.routers.Perm c.routers → c'.clients.Perm c.clients →
      buildNodeIdMap c' = buildNodeIdMap c) ∧
    ∀ id, buildNodeIdMap c ≠ .error ("ran out of node id space while assigning " ++ id) := by
  refine ⟨?_, ?_, ?_, ?_⟩
  · rcases buildNodeIdMap_cases hdistinct with ⟨m, _, hok, hcond, -⟩ | ⟨⟨e, herr, -⟩, hnot⟩
    · exact iff_of_true ⟨m, hok⟩ hcond
    · refine iff_of_false ?_ hnot
      rintro ⟨m, hok⟩
      rw [herr] at hok
      cases hok
  · intro m hok
    rcases buildNodeIdMap_cases hdistinct with ⟨m', next, hok', -, hpacking⟩ | ⟨⟨e, herr, -⟩, -⟩
    · obtain rfl := Except.ok.inj (hok.symm.trans hok')
      exact hpacking.stableBijection hdistinct (buildNodeIdMap_assignsLabels hok)
    · rw [herr] at hok
      cases hok
  · intro c' hrouters hclients
    exact buildNodeIdMap_perm hdistinct ((hrouters.map _).append hclients)
  · intro id herr
    rcases buildNodeIdMap_cases hdistinct with ⟨m, _, hok, -⟩ | ⟨⟨e, herr', hhead⟩, -⟩
    · rw [hok] at herr
      cases herr
    · obtain rfl := Except.error.inj (herr'.symm.trans herr)
      have hran : ("ran out of node id space while assigning " ++ id).toList.head? = some 'r' := by
        rw [String.toList_append]
        rfl
      rw [hran] at hhead
      exact absurd (Option.some.inj hhead) (by decide)

/-- A router that pins the id 17, and two clients that do not pin one. -/
theorem buildNodeIdMap_bijection_pinned :
    let c : CentralCfg Unit := ⟨none, [⟨⟨"b", 0, [], [], 17⟩, [], false⟩],
      [⟨"c", 0, [], [], 0⟩, ⟨"a", 0, [], [], 0⟩], [], 0, []⟩
    ∃ m, buildNodeIdMap c = .ok m ∧ StableBijection c m := by
  intro c
  obtain ⟨hiff, hbijection, -⟩ := buildNodeIdMap_bijection c (by decide)
  have hpinned : pinnedIds c = [17] := rfl
  rw [hpinned] at hiff
  obtain ⟨m, hok⟩ := hiff.mpr ⟨by decide, List.nodup_singleton 17,
    List.forall_mem_singleton.mpr (by decide)⟩
  exact ⟨m, hok, hbijection m hok⟩

end Nylon.State
