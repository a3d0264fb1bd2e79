import Mathlib.Data.List.Perm.Basic
import Nylon.State.OfferedPrefixes

/-!
`ExpandCentralConfig` puts the addresses of a node in front of its prefixes, as
prefixes of one host. An accepted configuration stays accepted exactly if these host
prefixes differ from each other and from what is written, as far as one router offers
them.
-/

namespace Nylon.State

open Netip Lib

variable {H : Type}

/-- The host prefixes of the addresses of a node. -/
def hostPrefixes (node : NodeCfg H) : List Prefix :=
  (node.addresses.filterMap id).map addrToPrefix

def ValidAddresses (c : CentralCfg H) : Prop :=
  ∀ node ∈ c.getNodes, ∀ addr ∈ node.addresses, addr ≠ none

/-- A router and the clients among its peers. -/
def offeringNodes (c : CentralCfg H) (router : RouterCfg H) (peers : List NodeId) :
    List (NodeCfg H) :=
  router.toNodeCfg :: peers.filterMap c.getClient

/-- The host prefixes of what a router offers are distinct, and none of them is also
written as a prefix. -/
structure HostsApart (libs : ConfigLibraries) (c : CentralCfg PrefixHealth) : Prop where
  valid : ValidAddresses c
  distinct : ∀ router ∈ c.routers, ∀ peers, c.getPeers libs.toLower router.id = .ok peers →
      ((offeringNodes c router peers).flatMap hostPrefixes).Nodup
  unwritten : ∀ router ∈ c.routers, ∀ peers, c.getPeers libs.toLower router.id = .ok peers →
      ∀ p ∈ (offeringNodes c router peers).flatMap hostPrefixes,
        some p ∉ offeredPrefixes c router peers

/-- A node accepts the expansion of a configuration, at startup and when it is
applied. -/
def PassesExpanded (libs : ConfigLibraries) (c : CentralCfg PrefixHealth) : Prop :=
  ∃ expanded, expandCentralConfig c = some expanded ∧ centralConfigValidator libs expanded = .ok ()

section Expand

/-- The node with its addresses among its prefixes. -/
def NodeCfg.withHosts (node : NodeCfg PrefixHealth) : NodeCfg PrefixHealth :=
  { node with
    prefixes := ((hostPrefixes node).map fun p => PrefixHealth.static (some p) 0).reverse ++
      node.prefixes }

def RouterCfg.withHosts (router : RouterCfg PrefixHealth) : RouterCfg PrefixHealth :=
  {router with toNodeCfg := router.toNodeCfg.withHosts}

def CentralCfg.withHosts (c : CentralCfg PrefixHealth) : CentralCfg PrefixHealth :=
  {c with routers := c.routers.map (·.withHosts), clients := c.clients.map (·.withHosts)}

theorem expandPrefixes_valid {addresses : List (Option Addr)}
    (h : ∀ addr ∈ addresses, addr ≠ none) (prefixes : List PrefixHealth) :
    expandPrefixes addresses prefixes = some ((((addresses.filterMap id).map addrToPrefix).map
        fun p => PrefixHealth.static (some p) 0).reverse ++ prefixes) := by
  unfold expandPrefixes
  induction addresses generalizing prefixes with
  | nil => rfl
  | cons addr rest ih =>
    obtain ⟨hfirst, hrest⟩ := List.forall_mem_cons.mp h
    obtain ⟨a, rfl⟩ := Option.ne_none_iff_exists'.mp hfirst
    rw [List.foldlM_cons]
    refine (ih hrest _).trans ?_
    simp

theorem expandPrefixes_invalid {addresses : List (Option Addr)} (h : none ∈ addresses)
    (prefixes : List PrefixHealth) : expandPrefixes addresses prefixes = none := by
  unfold expandPrefixes
  induction addresses generalizing prefixes with
  | nil => cases h
  | cons addr rest ih =>
    rw [List.foldlM_cons]
    rcases addr with _ | a
    · rfl
    · exact ih (List.mem_of_ne_of_mem (by simp) h) _

private theorem mapM_eq_some {α β : Type} {f : α → Option β} {g : α → β} {l : List α}
    (h : ∀ x ∈ l, f x = some (g x)) : l.mapM f = some (l.map g) := by
  induction l with
  | nil => rfl
  | cons x rest ih =>
    obtain ⟨hfirst, hrest⟩ := List.forall_mem_cons.mp h
    rw [List.mapM_cons, hfirst, ih hrest]
    rfl

private theorem mapM_eq_none {α β : Type} {f : α → Option β} {l : List α} {x : α}
    (hx : x ∈ l) (h : f x = none) : l.mapM f = none := by
  induction l with
  | nil => cases hx
  | cons y rest ih =>
    rw [List.mapM_cons]
    rcases List.mem_cons.mp hx with rfl | hx
    · rw [h]
      rfl
    · rw [ih hx]
      cases f y <;> rfl

theorem expandCentralConfig_valid {c : CentralCfg PrefixHealth} (h : ValidAddresses c) :
    expandCentralConfig c = some c.withHosts := by
  have hnode : ∀ node ∈ c.getNodes, expandNode node = some node.withHosts := by
    intro node hnode
    rw [expandNode, expandPrefixes_valid (h node hnode)]
    rfl
  have hrouters : c.routers.mapM (fun router =>
      (expandNode router.toNodeCfg).map fun node => {router with toNodeCfg := node}) =
        some (c.routers.map (·.withHosts)) := by
    apply mapM_eq_some
    intro router hrouter
    rw [hnode _ (List.mem_append_left _ (List.mem_map_of_mem hrouter))]
    rfl
  have hclients : c.clients.mapM expandNode = some (c.clients.map (·.withHosts)) :=
    mapM_eq_some fun client hclient => hnode client (List.mem_append_right _ hclient)
  rw [expandCentralConfig, hrouters, hclients]
  rfl

/-- An invalid address makes the expansion panic. -/
theorem expandCentralConfig_invalid {c : CentralCfg PrefixHealth} (h : ¬ ValidAddresses c) :
    expandCentralConfig c = none := by
  simp only [ValidAddresses, not_forall, not_not] at h
  obtain ⟨node, hnode, addr, haddr, rfl⟩ := h
  have hexpand : expandNode node = none := by
    rw [expandNode, expandPrefixes_invalid haddr]
    rfl
  rcases List.mem_append.mp hnode with hmem | hclient
  · obtain ⟨router, hrouter, rfl⟩ := List.mem_map.mp hmem
    have hnone : (expandNode router.toNodeCfg).map
        (fun node => {router with toNodeCfg := node}) = none := by
      rw [hexpand]
      rfl
    rw [expandCentralConfig, mapM_eq_none hrouter hnone]
    rfl
  · simp [expandCentralConfig, mapM_eq_none hclient hexpand]

end Expand

section WithHosts

variable {libs : ConfigLibraries} (c : CentralCfg PrefixHealth)

theorem getNodes_withHosts : c.withHosts.getNodes = c.getNodes.map (·.withHosts) := by
  simp only [CentralCfg.withHosts, CentralCfg.getNodes, List.map_append, List.map_map]
  rfl

theorem getPeers_withHosts (id : NodeId) :
    c.withHosts.getPeers libs.toLower id = c.getPeers libs.toLower id := by
  unfold CentralCfg.getPeers
  rw [getNodes_withHosts, List.map_map]
  rfl

theorem getClient_withHosts (id : NodeId) :
    c.withHosts.getClient id = (c.getClient id).map (·.withHosts) := by
  unfold CentralCfg.getClient CentralCfg.withHosts
  rw [List.find?_map]
  rfl

theorem otherChecks_withHosts (h : OtherChecks libs c) : OtherChecks libs c.withHosts where
  names := by
    obtain ⟨routers, nodes, hrouters, hnodes, hgraph⟩ := h.names
    refine ⟨routers, nodes, ?_, ?_, hgraph⟩
    · rw [← hrouters, CentralCfg.withHosts, List.map_map]
      rfl
    · rw [← hnodes, CentralCfg.withHosts, List.map_map]
      rfl
  numericIds := by
    obtain ⟨m, hm⟩ := h.numericIds
    refine ⟨m, ?_⟩
    rw [← hm]
    apply buildNodeIdMap_congr
    rw [getNodes_withHosts, List.map_map]
    rfl
  repos := h.repos
  excludes := h.excludes
  health p hp := by
    have hnode : ∃ node ∈ c.getNodes, p ∈ node.withHosts.prefixes := by
      simp only [CentralCfg.withHosts, List.mem_append, List.mem_flatMap, List.mem_map] at hp
      rcases hp with ⟨_, ⟨client, hclient, rfl⟩, hp⟩ | ⟨_, ⟨router, hrouter, rfl⟩, hp⟩
      · exact ⟨client, List.mem_append_right _ hclient, hp⟩
      · exact ⟨router.toNodeCfg, List.mem_append_left _ (List.mem_map_of_mem hrouter), hp⟩
    obtain ⟨node, hnode, hp⟩ := hnode
    rcases List.mem_append.mp hp with hhost | hwritten
    · obtain ⟨q, -, rfl⟩ := List.mem_map.mp (List.mem_reverse.mp hhost)
      rfl
    · apply h.health
      rw [List.mem_append, List.mem_flatMap, List.mem_flatMap]
      rcases List.mem_append.mp hnode with hmem | hclient
      · obtain ⟨router, hrouter, rfl⟩ := List.mem_map.mp hmem
        exact .inr ⟨router, hrouter, hwritten⟩
      · exact .inl ⟨node, hclient, hwritten⟩
  static client hmem p hp := by
    obtain ⟨client, hclient, rfl⟩ := List.mem_map.mp hmem
    rcases List.mem_append.mp hp with hhost | hwritten
    · obtain ⟨q, -, rfl⟩ := List.mem_map.mp (List.mem_reverse.mp hhost)
      rfl
    · exact h.static client hclient p hwritten

theorem offeredPrefixes_eq (router : RouterCfg PrefixHealth) (peers : List NodeId) :
    offeredPrefixes c router peers =
      (offeringNodes c router peers).flatMap fun node => node.prefixes.map (·.getPrefix) := by
  rw [offeredPrefixes, offeringNodes, List.flatMap_cons, List.map_append, List.map_flatMap]

/-- After the expansion a router also offers the host prefixes. -/
theorem offeredPrefixes_withHosts (router : RouterCfg PrefixHealth) (peers : List NodeId) :
    (offeredPrefixes c.withHosts router.withHosts peers).Perm
      (((offeringNodes c router peers).flatMap hostPrefixes).map some ++
        offeredPrefixes c router peers) := by
  have hnodes : offeringNodes c.withHosts router.withHosts peers =
      (offeringNodes c router peers).map (·.withHosts) := by
    simp only [offeringNodes, List.map_cons, List.map_filterMap, getClient_withHosts]
    rfl
  have hprefixes : ∀ node : NodeCfg PrefixHealth, node.withHosts.prefixes.map (·.getPrefix) =
        ((hostPrefixes node).map some).reverse ++ node.prefixes.map (·.getPrefix) := by
    intro node
    simp only [NodeCfg.withHosts, List.map_append, List.map_reverse, List.map_map]
    rfl
  rw [offeredPrefixes_eq, offeredPrefixes_eq, hnodes, List.flatMap_map, List.map_flatMap]
  simp only [hprefixes]
  refine (List.flatMap_append_perm _ _ _).symm.trans (List.Perm.append_right _ ?_)
  exact List.Perm.flatMap_left _ fun node _ => List.reverse_perm _

end WithHosts

/-- The publisher checks a configuration before its expansion, a node after it. The
second check passes as well exactly if the host prefixes are apart. -/
theorem passesExpanded_iff {libs : ConfigLibraries} {c : CentralCfg PrefixHealth}
    (h : centralConfigValidator libs c = .ok ()) :
    PassesExpanded libs c ↔ HostsApart libs c := by
  obtain ⟨hchecks, hrouters⟩ := (centralConfigValidator_iff libs c).mp h
  by_cases hvalid : ValidAddresses c
  · have hpasses : PassesExpanded libs c ↔ ∀ router ∈ c.routers, ∀ peers,
        c.getPeers libs.toLower router.id = .ok peers →
          (((offeringNodes c router peers).flatMap hostPrefixes).map some ++
            offeredPrefixes c router peers).Nodup := by
      unfold PassesExpanded
      rw [expandCentralConfig_valid hvalid]
      simp only [Option.some.injEq, exists_eq_left']
      rw [centralConfigValidator_iff, and_iff_right (otherChecks_withHosts c hchecks)]
      simp only [CentralCfg.withHosts, List.forall_mem_map]
      refine forall₂_congr fun router _ => ?_
      constructor
      · rintro ⟨peers, hpeers, hnodup⟩ peers' hpeers'
        have hsame : peers' = peers :=
          Except.ok.inj (hpeers'.symm.trans ((getPeers_withHosts c router.id).symm.trans hpeers))
        rw [hsame]
        exact (offeredPrefixes_withHosts c router peers).nodup_iff.mp hnodup
      · intro hnodup
        obtain ⟨peers, hpeers, -⟩ := hrouters router ‹_›
        exact ⟨peers, (getPeers_withHosts c router.id).trans hpeers,
          (offeredPrefixes_withHosts c router peers).nodup_iff.mpr (hnodup peers hpeers)⟩
    rw [hpasses]
    constructor
    · intro hall
      refine ⟨hvalid, fun router hrouter peers hpeers => ?_,
        fun router hrouter peers hpeers p hp hmem => ?_⟩
      · exact (List.nodup_append.mp (hall router hrouter peers hpeers)).1.of_map
      · exact (List.nodup_append.mp (hall router hrouter peers hpeers)).2.2 (some p)
          (List.mem_map_of_mem hp) (some p) hmem rfl
    · intro hapart router hrouter peers hpeers
      obtain ⟨peers', hpeers', hwritten⟩ := hrouters router hrouter
      obtain rfl := Except.ok.inj (hpeers'.symm.trans hpeers)
      rw [List.nodup_append]
      refine ⟨(hapart.distinct router hrouter _ hpeers).map (Option.some_injective _), hwritten, ?_⟩
      rintro _ hhost q hq rfl
      obtain ⟨p, hp, rfl⟩ := List.mem_map.mp hhost
      exact hapart.unwritten router hrouter _ hpeers p hp hq
  · refine iff_of_false ?_ fun hapart => hvalid hapart.valid
    rintro ⟨expanded, hexpanded, -⟩
    rw [expandCentralConfig_invalid hvalid] at hexpanded
    cases hexpanded

end Nylon.State
