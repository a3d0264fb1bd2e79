import Nylon.Lib.Proc
import Nylon.State.Graph

/-!
Numeric node ids (`state/node_id_numeric.go`). A node can pin its id; the other
nodes get the lowest free ids in the order of their names.
-/

namespace Nylon.State

open Lib

def firstNodeIdNumeric : UInt32 := 16

/-- The largest MPLS label. -/
def maxNodeIdNumeric : UInt32 := 0xFFFFF

structure NodeIdMap where
  byNumeric : Table UInt32 NodeId
  byString : Table NodeId UInt32
  deriving DecidableEq

namespace NodeIdMap

def empty : NodeIdMap := ⟨∅, ∅⟩

def assign (m : NodeIdMap) (id : NodeId) (numeric : UInt32) : NodeIdMap :=
  ⟨m.byNumeric.insert numeric id, m.byString.insert id numeric⟩

def toNumeric (m : NodeIdMap) (id : NodeId) : Option UInt32 := m.byString.lookup id

end NodeIdMap

/-- What the loop over the nodes does with one. The first entry of a name counts. -/
def collect {H : Type} (acc : List NodeId × Table NodeId UInt32) (n : NodeCfg H) :
    List NodeId × Table NodeId UInt32 :=
  if n.id ∈ acc.1 then acc
  else (acc.1 ++ [n.id], if n.numericId ≠ 0 then acc.2.insert n.id n.numericId else acc.2)

/-- The distinct ids in order, with the ids that are pinned. -/
def collectIds {H : Type} (nodes : List (NodeCfg H)) : List NodeId × Table NodeId UInt32 :=
  let collected := nodes.foldl collect ([], ∅)
  (sortNames collected.1, collected.2)

/-- First pass: pinned ids. -/
def assignPinned (explicit : Table NodeId UInt32) (m : NodeIdMap) (id : NodeId) :
    Except String NodeIdMap :=
  match explicit.lookup id with
  | none => .ok m
  | some numeric =>
    if numeric < firstNodeIdNumeric then
      .error ("node " ++ id ++ " pins node id " ++ toString numeric.toNat ++
        ", which is below the minimum of 16 (numeric ids / MPLS labels 0-15 are reserved)")
    else if maxNodeIdNumeric < numeric then
      .error ("node " ++ id ++ " pins node id " ++ toString numeric.toNat ++
        ", which is above the maximum of " ++ toString maxNodeIdNumeric.toNat)
    else match m.byNumeric.lookup numeric with
      | some other => .error ("nodes " ++ other ++ " and " ++ id ++
          " both pin node id " ++ toString numeric.toNat)
      | none => .ok (m.assign id numeric)

/-- The first free id at or after `next`, if there is one in the id space. -/
def nextFree (taken : Table UInt32 NodeId) (next : UInt32) : Option UInt32 :=
  ((List.range' next.toNat (maxNodeIdNumeric.toNat + 1 - next.toNat)).find? fun n =>
    (taken.lookup (.ofNat n)).isNone).map .ofNat

/-- Second pass: the other nodes. -/
def assignFree (explicit : Table NodeId UInt32) (acc : NodeIdMap × UInt32)
    (id : NodeId) : Except String (NodeIdMap × UInt32) :=
  if (explicit.lookup id).isSome then .ok acc
  else match nextFree acc.1.byNumeric acc.2 with
    | none => .error ("ran out of node id space while assigning " ++ id)
    | some numeric => .ok (acc.1.assign id numeric, numeric + 1)

def buildNodeIdMap {H : Type} (c : CentralCfg H) : Except String NodeIdMap := do
  let (ids, explicit) := collectIds c.getNodes
  let capacity := (maxNodeIdNumeric - firstNodeIdNumeric + 1).toNat
  if capacity < ids.length then
    .error ("network has " ++ toString ids.length ++
      " nodes, exceeds NodeIdNumeric capacity of " ++ toString capacity)
  else
    let pinned ← ids.foldlM (assignPinned explicit) NodeIdMap.empty
    let final ← ids.foldlM (assignFree explicit) (pinned, firstNodeIdNumeric)
    return final.1

/-- The id can be the label of an MPLS packet, and is not a reserved one. -/
def IsLabel (numeric : UInt32) : Prop :=
  firstNodeIdNumeric ≤ numeric ∧ numeric ≤ maxNodeIdNumeric

def NodeIdMap.AssignsLabels (m : NodeIdMap) : Prop :=
  ∀ id numeric, m.toNumeric id = some numeric → IsLabel numeric

theorem NodeIdMap.AssignsLabels.assign {m : NodeIdMap} (h : m.AssignsLabels) (id : NodeId)
    {numeric : UInt32} (hnumeric : IsLabel numeric) : (m.assign id numeric).AssignsLabels := by
  intro other n hn
  simp only [toNumeric, NodeIdMap.assign, Table.lookup_insert_eq] at hn
  split at hn
  · rwa [← Option.some.inj hn]
  · exact h other n hn

theorem nextFree_spec {taken : Table UInt32 NodeId} {next numeric : UInt32}
    (h : nextFree taken next = some numeric) :
    next ≤ numeric ∧ numeric ≤ maxNodeIdNumeric := by
  obtain ⟨n, hn, rfl⟩ := Option.map_eq_some_iff.mp h
  have hmem := List.mem_range'_1.mp (List.mem_of_find?_eq_some hn)
  have hmax : maxNodeIdNumeric.toNat = 0xFFFFF := rfl
  have hsmall : (UInt32.ofNat n).toNat = n := by
    rw [UInt32.toNat_ofNat']
    omega
  rw [UInt32.le_iff_toNat_le, UInt32.le_iff_toNat_le, hsmall]
  omega

/-- Every assigned id is a label. -/
theorem buildNodeIdMap_assignsLabels {H : Type} {c : CentralCfg H} {m : NodeIdMap}
    (h : buildNodeIdMap c = .ok m) : m.AssignsLabels := by
  unfold buildNodeIdMap at h
  dsimp only at h
  split at h
  · cases h
  obtain ⟨pinned, hpinned, h⟩ := bind_eq_ok h
  obtain ⟨final, hfinal, h⟩ := bind_eq_ok h
  obtain rfl := Except.ok.inj h
  have hpinnedLabels : pinned.AssignsLabels := by
    refine foldlM_invariant (P := NodeIdMap.AssignsLabels) ?_ ?_ hpinned
    · intro m id m' hm hm'
      unfold assignPinned at hm'
      split at hm'
      · rwa [← Except.ok.inj hm']
      · split_ifs at hm' with hlow hhigh
        split at hm'
        · cases hm'
        · rw [← Except.ok.inj hm']
          exact hm.assign id ⟨UInt32.not_lt.mp hlow, UInt32.not_lt.mp hhigh⟩
    · intro id numeric hnone
      cases hnone
  -- the next id to try never falls below the first one
  refine (foldlM_invariant (P := fun acc : NodeIdMap × UInt32 =>
    acc.1.AssignsLabels ∧ firstNodeIdNumeric ≤ acc.2) ?_
    ⟨hpinnedLabels, UInt32.le_refl _⟩ hfinal).1
  rintro ⟨m, next⟩ id acc' ⟨hm, hnext⟩ hacc
  unfold assignFree at hacc
  split_ifs at hacc
  · obtain rfl := Except.ok.inj hacc
    exact ⟨hm, hnext⟩
  · split at hacc
    · cases hacc
    · next numeric hfree =>
      obtain rfl := Except.ok.inj hacc
      obtain ⟨hlow, hhigh⟩ := nextFree_spec hfree
      have hfirst := UInt32.le_trans hnext hlow
      refine ⟨hm.assign id ⟨hfirst, hhigh⟩, ?_⟩
      rw [UInt32.le_iff_toNat_le] at hfirst hhigh ⊢
      have hmax : maxNodeIdNumeric.toNat = 0xFFFFF := rfl
      rw [UInt32.toNat_add]
      have hone : (1 : UInt32).toNat = 1 := rfl
      omega

/-- The map depends on the names and the pinned ids only. -/
theorem buildNodeIdMap_congr {H H' : Type} {c : CentralCfg H} {c' : CentralCfg H'}
    (h : c.getNodes.map (fun n => (n.id, n.numericId)) =
      c'.getNodes.map (fun n => (n.id, n.numericId))) :
    buildNodeIdMap c = buildNodeIdMap c' := by
  have hcollect : collectIds c.getNodes = collectIds c'.getNodes := by
    have hfold : ∀ (H : Type) (nodes : List (NodeCfg H)), collectIds nodes =
        (let collected := (nodes.map fun n => (n.id, n.numericId)).foldl
          (fun (acc : List NodeId × Table NodeId UInt32) n =>
            if n.1 ∈ acc.1 then acc
            else (acc.1 ++ [n.1],
              if n.2 ≠ 0 then acc.2.insert n.1 n.2 else acc.2)) ([], ∅)
        (sortNames collected.1, collected.2)) := by
      intro H nodes
      rw [List.foldl_map]
      rfl
    rw [hfold, hfold, h]
  unfold buildNodeIdMap
  rw [hcollect]

end Nylon.State
