import Nylon.State.NodeIdMap

/-!
Validation of a central configuration (`state/validation.go`). The checks are in
the order of the source, and the first one that fails gives the error.
-/

namespace Nylon.State

open Netip Lib

/-- `opaquePart` is what follows the scheme of a URL without slashes. -/
structure URL where
  scheme : String
  opaquePart : String
  deriving DecidableEq, Repr

/-- The library functions that reading a configuration relies on: Unicode lower
case, `url.Parse`, and what `%s` prints of a prefix and of a health check. -/
structure ConfigLibraries where
  toLower : Char → Char
  parseURL : String → Except String URL
  formatPrefix : Option Prefix → String
  formatHealth : PrefixHealth → String

/-- The characters of `namePattern`: digits, lower-case letters, dot, underscore,
slash and dash. -/
def isNameChar (c : Char) : Bool :=
  ('0' ≤ c && c ≤ '9') || ('a' ≤ c && c ≤ 'z') || c == '.' || c == '_' || c == '/' || c == '-'

def nameValidator (s : String) : Except String Unit :=
  if s.toList = [] ∨ s.toList.all isNameChar = false then
    .error (s ++ " is not a valid name, must match pattern ^[0-9a-z._/" ++ "-]+$")
  else if 100 < s.length then
    .error ("len(\"" ++ s ++ "\") = " ++ toString s.length ++ " > 100 is too long")
  else .ok ()

/-- The ids of routers or clients have valid names and differ from each other
and from those before them. -/
def addNames (kind : String) (ids nodes : List NodeId) : Except String (List NodeId) :=
  ids.foldlM (fun nodes id => do
    nameValidator id
    if id ∈ nodes then .error ("duplicate " ++ kind ++ " id " ++ id)
    else .ok (nodes ++ [id])) nodes

def addPrefix (message : PrefixHealth → String) (seen : List (Option Prefix))
    (p : PrefixHealth) : Except String (List (Option Prefix)) :=
  if p.getPrefix ∈ seen then .error (message p) else .ok (p.getPrefix :: seen)

/-- The prefixes of a router and of the clients attached to it are distinct. -/
def checkRouterPrefixes (libs : ConfigLibraries) (c : CentralCfg PrefixHealth)
    (router : RouterCfg PrefixHealth) : Except String Unit := do
  let seen ← router.prefixes.foldlM (addPrefix fun p =>
    "router " ++ router.id ++ " has duplicate prefix " ++ libs.formatHealth p) []
  let peers ← c.getPeers libs.toLower router.id
  let _ ← (peers.filterMap c.getClient).foldlM (fun seen client =>
    client.prefixes.foldlM (addPrefix fun p =>
      "router " ++ router.id ++ " has duplicate prefix " ++ libs.formatHealth p ++
        " (provided by client " ++ client.id ++ ")") seen) seen
  return ()

def checkPositive (value : Option Int) (message : String) : Except String Unit :=
  if value.any (· ≤ 0) then .error message else .ok ()

def checkHealth (libs : ConfigLibraries) (p : PrefixHealth) : Except String Unit :=
  let pfx := libs.formatPrefix p.getPrefix
  if p.getPrefix = none then .error ("invalid prefix " ++ pfx)
  else match p with
    | .static _ _ => .ok ()
    | .ping _ addr maxFailures delay _ _ =>
      if addr = none then
        .error ("invalid ping address invalid IP for prefix " ++ pfx)
      else do
        checkPositive delay ("ping delay must be greater than 0 for prefix " ++ pfx)
        checkPositive maxFailures
          ("ping max_failures must be greater than 0 for prefix " ++ pfx)
    | .http _ url delay _ =>
      match libs.parseURL url with
      | .error err =>
        .error ("invalid HTTP URL " ++ url ++ " for prefix " ++ pfx ++ ": " ++ err)
      | .ok _ =>
        checkPositive delay ("HTTP delay must be greater than 0 for prefix " ++ pfx)

def checkStatic (p : PrefixHealth) : Except String Unit :=
  match p with
  | .static _ _ => .ok ()
  | _ => .error "passive clients may not advertise non-static prefixes"

def centralConfigValidator (libs : ConfigLibraries) (c : CentralCfg PrefixHealth) :
    Except String Unit := do
  let routers ← addNames "router" (c.routers.map (·.id)) []
  let nodes ← addNames "client" (c.clients.map (·.id)) routers
  let _ ← parseGraph libs.toLower c.graph nodes
  let _ ← buildNodeIdMap c
  c.routers.forM (checkRouterPrefixes libs c)
  (c.dist.map (·.repos)).getD [] |>.forM fun repo => do
    let _ ← libs.parseURL repo
  c.excludeIPs.forM fun p =>
    if p = none then .error ("invalid prefix " ++ libs.formatPrefix p) else .ok ()
  (c.clients.flatMap (·.prefixes) ++ c.routers.flatMap (·.prefixes)).forM (checkHealth libs)
  c.clients.forM fun client => client.prefixes.forM checkStatic

section Accepted

variable {α β ε : Type}

private theorem addPrefix_nodup {message : PrefixHealth → String}
    {prefixes : List PrefixHealth} {seen seen' : List (Option Prefix)}
    (hseen : seen.Nodup) (h : prefixes.foldlM (addPrefix message) seen = .ok seen') :
    (prefixes.map (·.getPrefix)).Nodup ∧ ∀ p ∈ prefixes, p.getPrefix ∉ seen := by
  induction prefixes generalizing seen with
  | nil => simp
  | cons p rest ih =>
    rw [List.foldlM_cons] at h
    obtain ⟨seen₁, hadd, hrest⟩ := bind_eq_ok h
    unfold addPrefix at hadd
    split at hadd
    · cases hadd
    · next hnew =>
      cases hadd
      obtain ⟨hnodup, hfresh⟩ := ih (hseen.cons hnew) hrest
      simp only [List.mem_cons, not_or] at hfresh
      refine ⟨?_, ?_⟩
      · rw [List.map_cons, List.nodup_cons]
        refine ⟨fun hmem => ?_, hnodup⟩
        obtain ⟨q, hq, heq⟩ := List.mem_map.mp hmem
        exact (hfresh q hq).1 heq
      · rintro q hq
        rcases List.mem_cons.mp hq with rfl | hq
        · exact hnew
        · exact (hfresh q hq).2

private theorem addNames_nodup {kind : String} {ids nodes nodes' : List NodeId}
    (hnodes : nodes.Nodup) (h : addNames kind ids nodes = .ok nodes') :
    nodes' = nodes ++ ids ∧ nodes'.Nodup := by
  unfold addNames at h
  induction ids generalizing nodes with
  | nil =>
    cases h
    exact ⟨(List.append_nil _).symm, hnodes⟩
  | cons id rest ih =>
    rw [List.foldlM_cons] at h
    obtain ⟨nodes₁, hadd, hrest⟩ := bind_eq_ok h
    obtain ⟨_, _, hadd⟩ := bind_eq_ok hadd
    split at hadd
    · cases hadd
    · next hnew =>
      cases hadd
      obtain ⟨heq, hnodup⟩ := ih
        (hnodes.append (List.nodup_singleton id) (by simpa using hnew)) hrest
      exact ⟨by rw [heq, List.append_assoc, List.singleton_append], hnodup⟩

/-- What the rest of the program relies on in an accepted configuration. -/
structure Accepted (c : CentralCfg PrefixHealth) : Prop where
  nodeIds : ∃ m, buildNodeIdMap c = .ok m
  distinctPrefixes : ∀ router ∈ c.routers, (router.prefixes.map (·.getPrefix)).Nodup
  validPrefixes : ∀ router ∈ c.routers, ∀ p ∈ router.prefixes, p.getPrefix.isSome
  distinctRouters : (c.routers.map (·.id)).Nodup
  validClients : ∀ client ∈ c.clients, ∀ p ∈ client.prefixes, p.getPrefix.isSome
  clientsApart : ∀ client ∈ c.clients, c.isRouter client.id = false

theorem centralConfigValidator_accepted {libs : ConfigLibraries}
    {c : CentralCfg PrefixHealth} (h : centralConfigValidator libs c = .ok ()) :
    Accepted c := by
  unfold centralConfigValidator at h
  obtain ⟨_, hnames, h⟩ := bind_eq_ok h
  obtain ⟨_, hclients, h⟩ := bind_eq_ok h
  obtain ⟨_, _, h⟩ := bind_eq_ok h
  obtain ⟨m, hm, h⟩ := bind_eq_ok h
  obtain ⟨_, hrouters, h⟩ := bind_eq_ok h
  obtain ⟨_, _, h⟩ := bind_eq_ok h
  obtain ⟨_, _, h⟩ := bind_eq_ok h
  obtain ⟨_, hhealth, _⟩ := bind_eq_ok h
  have hvalid : ∀ p ∈ c.clients.flatMap (·.prefixes) ++ c.routers.flatMap (·.prefixes),
      p.getPrefix.isSome := by
    intro p hp
    have hcheck := forM_eq_ok hhealth p hp
    unfold checkHealth at hcheck
    dsimp only at hcheck
    split at hcheck
    · cases hcheck
    · next hsome => exact Option.isSome_iff_ne_none.mpr hsome
  obtain ⟨hroutes, hnodup⟩ := addNames_nodup List.nodup_nil hnames
  obtain ⟨hnodes, hapart⟩ := addNames_nodup hnodup hclients
  rw [hroutes, List.nil_append] at hnodup hnodes
  refine ⟨⟨m, hm⟩, ?_, ?_, hnodup, ?_, ?_⟩
  · intro router hrouter
    have hcheck := forM_eq_ok hrouters router hrouter
    unfold checkRouterPrefixes at hcheck
    obtain ⟨_, hseen, _⟩ := bind_eq_ok hcheck
    exact (addPrefix_nodup List.nodup_nil hseen).1
  · intro router hrouter p hp
    exact hvalid p (List.mem_append_right _ (List.mem_flatMap.mpr ⟨router, hrouter, hp⟩))
  · intro client hclient p hp
    exact hvalid p (List.mem_append_left _ (List.mem_flatMap.mpr ⟨client, hclient, hp⟩))
  · intro client hclient
    rw [hnodes, List.nodup_append'] at hapart
    rw [CentralCfg.isRouter, List.any_eq_false]
    intro router hrouter hid
    rw [beq_iff_eq] at hid
    exact hapart.2.2 (List.mem_map_of_mem hrouter)
      (hid ▸ List.mem_map_of_mem (f := fun c : NodeCfg PrefixHealth => c.id) hclient)

end Accepted

end Nylon.State
