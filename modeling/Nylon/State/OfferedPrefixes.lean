import Nylon.State.Validation

/-!
What `CentralConfigValidator` requires, as conditions on the configuration. The
prefixes of a router and of the clients attached to it are compared as they are
written. `ExpandCentralConfig` adds the addresses of a node as host prefixes, and
changes nothing else that is checked.
-/

namespace Nylon.State

open Netip Lib

/-- What a router offers for itself and for the clients among its peers. -/
def offeredPrefixes (c : CentralCfg PrefixHealth) (router : RouterCfg PrefixHealth)
    (peers : List NodeId) : List (Option Prefix) :=
  (router.prefixes ++ (peers.filterMap c.getClient).flatMap (·.prefixes)).map (·.getPrefix)

section Unique

variable {seen seen' : List (Option Prefix)}

/-- The loop over prefixes collects them as long as they differ. -/
theorem foldlM_addPrefix_iff {message : PrefixHealth → String} {prefixes : List PrefixHealth}
    (hseen : seen.Nodup) :
    prefixes.foldlM (addPrefix message) seen = .ok seen' ↔
      seen' = (prefixes.map (·.getPrefix)).reverse ++ seen ∧ seen'.Nodup := by
  induction prefixes generalizing seen with
  | nil =>
    constructor
    · intro h
      obtain rfl := Except.ok.inj h
      exact ⟨rfl, hseen⟩
    · rintro ⟨rfl, -⟩
      rfl
  | cons p rest ih =>
    have hreverse : ((p :: rest).map (·.getPrefix)).reverse ++ seen =
        (rest.map (·.getPrefix)).reverse ++ p.getPrefix :: seen := by
      simp
    rw [List.foldlM_cons, hreverse]
    unfold addPrefix
    by_cases hmem : p.getPrefix ∈ seen
    · rw [if_pos hmem]
      refine iff_of_false (by rintro ⟨⟩) ?_
      rintro ⟨rfl, hnodup⟩
      exact (List.nodup_cons.mp (List.nodup_append.mp hnodup).2.1).1 hmem
    · rw [if_neg hmem]
      exact ih (hseen.cons hmem)

/-- The loop over clients goes on with what has been collected. -/
theorem foldlM_clients_iff {message : NodeCfg PrefixHealth → PrefixHealth → String}
    {clients : List (NodeCfg PrefixHealth)} (hseen : seen.Nodup) :
    clients.foldlM (fun seen client =>
        client.prefixes.foldlM (addPrefix (message client)) seen) seen = .ok seen' ↔
      seen' = ((clients.flatMap (·.prefixes)).map (·.getPrefix)).reverse ++ seen ∧
        seen'.Nodup := by
  induction clients generalizing seen with
  | nil =>
    constructor
    · intro h
      obtain rfl := Except.ok.inj h
      exact ⟨rfl, hseen⟩
    · rintro ⟨rfl, -⟩
      rfl
  | cons client rest ih =>
    have hreverse : (((client :: rest).flatMap (·.prefixes)).map (·.getPrefix)).reverse ++ seen =
        ((rest.flatMap (·.prefixes)).map (·.getPrefix)).reverse ++
          ((client.prefixes.map (·.getPrefix)).reverse ++ seen) := by
      simp
    rw [List.foldlM_cons, bind_eq_ok_iff, hreverse]
    constructor
    · rintro ⟨mid, hclient, hrest⟩
      obtain ⟨rfl, hmid⟩ := (foldlM_addPrefix_iff hseen).mp hclient
      exact (ih hmid).mp hrest
    · rintro ⟨rfl, hnodup⟩
      have hmid := (List.nodup_append.mp hnodup).2.1
      exact ⟨_, (foldlM_addPrefix_iff hseen).mpr ⟨rfl, hmid⟩, (ih hmid).mpr ⟨rfl, hnodup⟩⟩

theorem checkRouterPrefixes_iff (libs : ConfigLibraries) (c : CentralCfg PrefixHealth)
    (router : RouterCfg PrefixHealth) :
    checkRouterPrefixes libs c router = .ok () ↔
      ∃ peers, c.getPeers libs.toLower router.id = .ok peers ∧
        (offeredPrefixes c router peers).Nodup := by
  unfold checkRouterPrefixes
  rw [bind_eq_ok_iff]
  constructor
  · rintro ⟨seen, hrouter, h⟩
    obtain ⟨peers, hpeers, h⟩ := bind_eq_ok h
    obtain ⟨seen', hclients, -⟩ := bind_eq_ok h
    obtain ⟨rfl, hseen⟩ := (foldlM_addPrefix_iff List.nodup_nil).mp hrouter
    obtain ⟨rfl, hnodup⟩ := (foldlM_clients_iff hseen).mp hclients
    refine ⟨peers, hpeers, ?_⟩
    rw [List.append_nil, ← List.reverse_append, List.nodup_reverse, ← List.map_append] at hnodup
    exact hnodup
  · rintro ⟨peers, hpeers, hnodup⟩
    rw [offeredPrefixes, List.map_append, ← List.nodup_reverse, List.reverse_append,
      ← List.append_nil ((router.prefixes.map _).reverse)] at hnodup
    have hseen := (List.nodup_append.mp hnodup).2.1
    refine ⟨_, (foldlM_addPrefix_iff List.nodup_nil).mpr ⟨rfl, hseen⟩, ?_⟩
    exact bind_eq_ok_iff.mpr ⟨peers, hpeers, bind_eq_ok_iff.mpr
      ⟨_, (foldlM_clients_iff hseen).mpr ⟨rfl, hnodup⟩, rfl⟩⟩

end Unique

/-- The checks of the validator beside those of the offered prefixes. -/
structure OtherChecks (libs : ConfigLibraries) (c : CentralCfg PrefixHealth) : Prop where
  names : ∃ routers nodes, addNames "router" (c.routers.map (·.id)) [] = .ok routers ∧
    addNames "client" (c.clients.map (·.id)) routers = .ok nodes ∧
    ∃ graph, parseGraph libs.toLower c.graph nodes = .ok graph
  numericIds : ∃ m, buildNodeIdMap c = .ok m
  repos : ∀ repo ∈ (c.dist.map (·.repos)).getD [], ∃ url, libs.parseURL repo = .ok url
  excludes : ∀ p ∈ c.excludeIPs, p ≠ none
  health : ∀ p ∈ c.clients.flatMap (·.prefixes) ++ c.routers.flatMap (·.prefixes),
    checkHealth libs p = .ok ()
  static : ∀ client ∈ c.clients, ∀ p ∈ client.prefixes, checkStatic p = .ok ()

theorem centralConfigValidator_iff (libs : ConfigLibraries) (c : CentralCfg PrefixHealth) :
    centralConfigValidator libs c = .ok () ↔ OtherChecks libs c ∧ ∀ router ∈ c.routers, ∃ peers,
        c.getPeers libs.toLower router.id = .ok peers ∧
          (offeredPrefixes c router peers).Nodup := by
  unfold centralConfigValidator
  simp only [← checkRouterPrefixes_iff]
  constructor
  · intro h
    obtain ⟨routers, hrouters, h⟩ := bind_eq_ok h
    obtain ⟨nodes, hnodes, h⟩ := bind_eq_ok h
    obtain ⟨graph, hgraph, h⟩ := bind_eq_ok h
    obtain ⟨m, hm, h⟩ := bind_eq_ok h
    obtain ⟨_, hprefixes, h⟩ := bind_eq_ok h
    obtain ⟨_, hrepos, h⟩ := bind_eq_ok h
    obtain ⟨_, hexcludes, h⟩ := bind_eq_ok h
    obtain ⟨_, hhealth, hstatic⟩ := bind_eq_ok h
    refine ⟨⟨⟨routers, nodes, hrouters, hnodes, graph, hgraph⟩, ⟨m, hm⟩, ?_, ?_,
      forM_eq_ok hhealth, fun client hclient => forM_eq_ok (forM_eq_ok hstatic client hclient)⟩,
      forM_eq_ok hprefixes⟩
    · intro repo hrepo
      obtain ⟨url, hurl, -⟩ := bind_eq_ok (forM_eq_ok hrepos repo hrepo)
      exact ⟨url, hurl⟩
    · intro p hp hnone
      have hcheck := forM_eq_ok hexcludes p hp
      rw [if_pos hnone] at hcheck
      cases hcheck
  · rintro ⟨⟨⟨routers, nodes, hrouters, hnodes, graph, hgraph⟩, ⟨m, hm⟩, hrepos, hexcludes,
      hhealth, hstatic⟩, hprefixes⟩
    simp only [bind_eq_ok_iff]
    refine ⟨routers, hrouters, nodes, hnodes, graph, hgraph, m, hm, (),
      forM_eq_ok_iff.mpr hprefixes, (), forM_eq_ok_iff.mpr ?_, (), forM_eq_ok_iff.mpr ?_, (),
      forM_eq_ok_iff.mpr hhealth,
      forM_eq_ok_iff.mpr fun client hclient => forM_eq_ok_iff.mpr (hstatic client hclient)⟩
    · intro repo hrepo
      obtain ⟨url, hurl⟩ := hrepos repo hrepo
      exact bind_eq_ok_iff.mpr ⟨url, hurl, rfl⟩
    · intro p hp
      exact if_neg (hexcludes p hp)

end Nylon.State
