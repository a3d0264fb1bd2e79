import Nylon.Polyamide.FakeTCP

/-!
The endpoints of neighbours that come from the configuration
(`configuredEndpoints` and `reconcileConfiguredEndpoints` of
`core/nylon_apply.go`). An endpoint is an address or name from the configuration
together with the local bind and the transport to use for it; endpoints that
peers have shown themselves are remote ones.
-/

namespace Nylon.Core

open Netip Polyamide

/-- The parsers of Go's network libraries. -/
structure NetLibraries where
  parseAddrPort : String → Option AddrPort
  splitHostPort : String → Option (String × String)
  parsePort : String → Option UInt16
  parseAddr : String → Option Addr
  formatAddr : Addr → String

structure LocalBind where
  interface : String
  source : Option Addr
  deriving DecidableEq, Repr

/-- What identifies an endpoint among those of a neighbour. -/
structure EndpointIdentity where
  value : String
  bind : LocalBind
  transport : Polyamide.Transport
  deriving DecidableEq, Repr

structure NylonEndpoint extends EndpointIdentity where
  isRemote : Bool
  deriving DecidableEq, Repr

def defaultPort : UInt16 := 57175

/-- `DynamicEndpoint.Parse`: the host and the port of an endpoint. -/
def parseEndpoint (libs : NetLibraries) (value : String) : Except String (String × UInt16) :=
  match libs.parseAddrPort value with
  | some ap => .ok (libs.formatAddr ap.addr, ap.port)
  | none =>
    match libs.splitHostPort value with
    | none => .ok (value, defaultPort)
    | some (host, port) =>
      match libs.parsePort port with
      | none => .error "invalid port"
      | some p => .ok (host, p)

def sameIPFamily (a b : Option Addr) : Bool :=
  match a, b with
  | some a, some b => a.bitLen == b.bitLen
  | _, _ => true

/-- `familyReachable` is whether the host has a route for the family of an
address. Names are kept, as their family is not known yet. -/
def endpointFamilyRoutable (libs : NetLibraries) (familyReachable : Addr → Bool)
    (value : String) : Bool :=
  match parseEndpoint libs value with
  | .error _ => true
  | .ok (host, _) => ((libs.parseAddr host).map familyReachable).getD true

def bindMatchesEndpoint (libs : NetLibraries) (bind : LocalBind) (value : String) : Bool :=
  if bind.source = none then true
  else match parseEndpoint libs value with
    | .error _ => false
    | .ok (host, _) => sameIPFamily bind.source (libs.parseAddr host)

def configuredEndpoints (libs : NetLibraries) (familyReachable : Addr → Bool)
    (binds : List LocalBind) (endpoints : List String) (fakeTCPEnabled : Bool) :
    List NylonEndpoint :=
  let routable := endpointFamilyRoutable libs familyReachable
  if binds = [] then
    (endpoints.filter routable).map fun ep => ⟨⟨ep, ⟨"", none⟩, .udp⟩, false⟩
  else
    endpoints.flatMap fun ep => binds.flatMap fun bind =>
      if !bindMatchesEndpoint libs bind ep then []
      else if bind.source.isNone && !routable ep then []
      else if fakeTCPEnabled && bind.interface != "" then
        [⟨⟨ep, bind, .udp⟩, false⟩, ⟨⟨ep, bind, .fakeTCP⟩, false⟩]
      else [⟨⟨ep, bind, .udp⟩, false⟩]

/-- Whether an endpoint of a neighbour stays: a remote one unless its transport
is not allowed any more, another one if it is still desired. -/
def keepsEndpoint (desired : List NylonEndpoint) (allowRemoteFakeTCP : Bool)
    (ep : NylonEndpoint) : Bool :=
  if ep.isRemote then ep.transport != .fakeTCP || allowRemoteFakeTCP
  else desired.any (·.toEndpointIdentity == ep.toEndpointIdentity)

def hasConfigured (eps : List NylonEndpoint) (identity : EndpointIdentity) : Bool :=
  eps.any fun ep => !ep.isRemote && ep.toEndpointIdentity == identity

def reconcileConfiguredEndpoints (eps desired : List NylonEndpoint)
    (allowRemoteFakeTCP : Bool) : List NylonEndpoint :=
  let kept := eps.filter (keepsEndpoint desired allowRemoteFakeTCP)
  kept ++ desired.filter fun ep => !hasConfigured kept ep.toEndpointIdentity

theorem configuredEndpoints_isRemote {libs : NetLibraries} {familyReachable : Addr → Bool}
    {binds : List LocalBind} {endpoints : List String} {fakeTCPEnabled : Bool}
    {ep : NylonEndpoint}
    (h : ep ∈ configuredEndpoints libs familyReachable binds endpoints fakeTCPEnabled) :
    ep.isRemote = false := by
  unfold configuredEndpoints at h
  dsimp only at h
  split at h
  · obtain ⟨_, _, rfl⟩ := List.mem_map.mp h
    rfl
  · obtain ⟨_, _, h⟩ := List.mem_flatMap.mp h
    obtain ⟨_, _, h⟩ := List.mem_flatMap.mp h
    split at h
    · cases h
    · split at h
      · cases h
      · split at h
        · rcases List.mem_pair.mp h with rfl | rfl <;> rfl
        · rw [List.mem_singleton.mp h]

/-- The endpoints of a neighbour already are what the configuration asks for. -/
structure EndpointsInForce (eps desired : List NylonEndpoint) (allowRemoteFakeTCP : Bool) :
    Prop where
  kept : ∀ ep ∈ eps, keepsEndpoint desired allowRemoteFakeTCP ep = true
  present : ∀ ep ∈ desired, hasConfigured eps ep.toEndpointIdentity = true

/-- The reconciliation changes nothing exactly if nothing is to be done. -/
theorem reconcileConfiguredEndpoints_eq_iff {eps desired : List NylonEndpoint}
    {allow : Bool} (hdesired : ∀ ep ∈ desired, ep.isRemote = false) :
    reconcileConfiguredEndpoints eps desired allow = eps ↔ EndpointsInForce eps desired allow := by
  unfold reconcileConfiguredEndpoints
  dsimp only
  constructor
  · intro h
    -- an endpoint that is added would be one of the old list, and so would be kept
    have hadded : desired.filter (fun ep => !hasConfigured
        (eps.filter (keepsEndpoint desired allow)) ep.toEndpointIdentity) = [] := by
      rw [List.filter_eq_nil_iff]
      intro ep hep hnew
      have hold : ep ∈ eps := by
        rw [← h]
        exact List.mem_append_right _ (List.mem_filter.mpr ⟨hep, hnew⟩)
      have hkept : keepsEndpoint desired allow ep = true := by
        rw [keepsEndpoint, hdesired ep hep, if_neg Bool.false_ne_true, List.any_eq_true]
        exact ⟨ep, hep, beq_self_eq_true _⟩
      rw [Bool.not_eq_true', hasConfigured, List.any_eq_false] at hnew
      apply hnew ep (List.mem_filter.mpr ⟨hold, hkept⟩)
      simp [hdesired ep hep]
    rw [hadded, List.append_nil] at h
    refine ⟨List.filter_eq_self.mp h, fun ep hep => ?_⟩
    rw [List.filter_eq_nil_iff] at hadded
    have hfound := hadded ep hep
    rw [h] at hfound
    simpa using hfound
  · rintro ⟨hkept, hpresent⟩
    rw [List.filter_eq_self.mpr hkept, List.filter_eq_nil_iff.mpr, List.append_nil]
    intro ep hep
    simp [hpresent ep hep]

end Nylon.Core
