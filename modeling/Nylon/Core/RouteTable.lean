import Nylon.Core.PrefixTable
import Nylon.State.Routing

/-!
The two tables of the data plane (`TableInsertRoute` and `TableDeleteRoute` of
`core/router.go`). `ForwardTable` has an entry for every selected route,
`ExitTable` one for every finite route that ends at the local node.
-/

namespace Nylon.Core

open State Netip Lib

structure RouteTableEntry (Peer : Type) where
  nh : NodeId
  peer : Option Peer
  blackhole : Bool
  deriving DecidableEq, Repr

/-- What `TableInsertRoute` reads of the configuration and the device. `pubKey`
is undefined for a node on which `GetNode` panics, and `lookupPeer` for a key
without a peer. -/
structure TableConfig (Key Peer : Type) where
  localId : NodeId
  pubKey : NodeId → Option Key
  lookupPeer : Key → Option Peer

/-- Every node is configured, with its id as its key and as its peer. -/
def namedPeers (localId : NodeId) : TableConfig NodeId NodeId :=
  ⟨localId, some, fun key => if key = localId then none else some key⟩

structure Tables (T : Type → Type) (Peer : Type) where
  forwardTable : T (RouteTableEntry Peer)
  exitTable : T (RouteTableEntry Peer)

variable {T : Type → Type} [PrefixTable T] {Key Peer : Type}

def Tables.empty : Tables T Peer := ⟨PrefixTable.empty, PrefixTable.empty⟩

/-- `none` is a panic of `GetNode`. -/
def tableInsertRoute (cfg : TableConfig Key Peer) (tables : Tables T Peer)
    (pfx : Prefix) (route : SelRoute) : Option (Tables T Peer) :=
  if route.metric = INF then
    some
      { forwardTable := PrefixTable.insert tables.forwardTable pfx ⟨route.nh, none, true⟩
        exitTable := PrefixTable.delete tables.exitTable pfx }
  else do
    let key ← cfg.pubKey route.nh
    let entry : RouteTableEntry Peer := ⟨route.nh, cfg.lookupPeer key, false⟩
    some
      { forwardTable := PrefixTable.insert tables.forwardTable pfx entry
        exitTable := if route.nh = cfg.localId then
            PrefixTable.insert tables.exitTable pfx entry
          else PrefixTable.delete tables.exitTable pfx }

def tableDeleteRoute (tables : Tables T Peer) (pfx : Prefix) : Tables T Peer where
  forwardTable := PrefixTable.delete tables.forwardTable pfx
  exitTable := PrefixTable.delete tables.exitTable pfx

/-- Empty tables after a route has been inserted for each prefix. -/
def fillTables (cfg : TableConfig Key Peer) (routes : Table Prefix SelRoute) :
    Option (Tables T Peer) :=
  routes.entries.foldlM (fun tables entry => tableInsertRoute cfg tables entry.1 entry.2)
    Tables.empty

/-- The forwarding entry for a route: a blackhole exactly if it is unreachable. -/
def forwardEntry (cfg : TableConfig Key Peer) (route : SelRoute) : RouteTableEntry Peer :=
  if route.metric = INF then ⟨route.nh, none, true⟩
  else ⟨route.nh, (cfg.pubKey route.nh).bind cfg.lookupPeer, false⟩

/-- The exit entry for a route: there is one exactly if the route is finite and
leads to the local node. -/
def exitEntry (cfg : TableConfig Key Peer) (route : SelRoute) : Option (RouteTableEntry Peer) :=
  if route.metric ≠ INF ∧ route.nh = cfg.localId then
    some (forwardEntry cfg route) else none

/-- The tables have the entries of exactly the given routes. -/
def Mirrors (cfg : TableConfig Key Peer) (tables : Tables T Peer)
    (routes : Prefix → Option SelRoute) : Prop :=
  ∀ p : Prefix, p.Masked →
    PrefixTable.get tables.forwardTable p = (routes p).map (forwardEntry cfg) ∧
    PrefixTable.get tables.exitTable p = (routes p).bind (exitEntry cfg)

/-- What both tables have for a prefix. -/
def Tables.view (tables : Tables T Peer) (p : Prefix) :
    Option (RouteTableEntry Peer) × Option (RouteTableEntry Peer) :=
  (PrefixTable.get tables.forwardTable p, PrefixTable.get tables.exitTable p)

/-- What both tables should have for a prefix with this route. -/
def viewOf (cfg : TableConfig Key Peer) (route : Option SelRoute) :
    Option (RouteTableEntry Peer) × Option (RouteTableEntry Peer) :=
  (route.map (forwardEntry cfg), route.bind (exitEntry cfg))

theorem mirrors_iff {cfg : TableConfig Key Peer} {tables : Tables T Peer}
    {routes : Prefix → Option SelRoute} :
    Mirrors cfg tables routes ↔ ∀ p : Prefix, p.Masked → tables.view p = viewOf cfg (routes p) := by
  simp [Mirrors, Tables.view, viewOf, Prod.ext_iff]

/-- An entry depends on the next hop and on whether the route is reachable. -/
theorem viewOf_congr {cfg : TableConfig Key Peer} {r r' : SelRoute}
    (hnh : r.nh = r'.nh) (hINF : r.metric = INF ↔ r'.metric = INF) :
    viewOf cfg (some r) = viewOf cfg (some r') := by
  simp [viewOf, forwardEntry, exitEntry, hnh, hINF]

theorem tableInsertRoute_isSome (cfg : TableConfig Key Peer) (tables : Tables T Peer)
    (pfx : Prefix) {route : SelRoute} (hnh : (cfg.pubKey route.nh).isSome) :
    ∃ tables', tableInsertRoute cfg tables pfx route = some tables' := by
  obtain ⟨key, hkey⟩ := Option.isSome_iff_exists.mp hnh
  unfold tableInsertRoute
  split
  · exact ⟨_, rfl⟩
  · rw [hkey]
    exact ⟨_, rfl⟩

section Lawful

variable [LawfulPrefixTable T] {cfg : TableConfig Key Peer} {tables : Tables T Peer}

/-- An insertion sets the entries of its prefix and leaves the others alone. -/
theorem view_tableInsertRoute {tables' : Tables T Peer}
    {pfx : Prefix} {route : SelRoute} (hpfx : pfx.Masked)
    (h : tableInsertRoute cfg tables pfx route = some tables') {p : Prefix}
    (hp : p.Masked) :
    tables'.view p = if p = pfx then viewOf cfg (some route) else tables.view p := by
  have hkey : p.masked = pfx.masked ↔ p = pfx := by rw [hp, hpfx]
  unfold tableInsertRoute at h
  by_cases hINF : route.metric = INF
  · rw [if_pos hINF] at h
    cases h
    simp only [Tables.view, LawfulPrefixTable.get_insert, LawfulPrefixTable.get_delete, hkey]
    split
    · simp [viewOf, forwardEntry, exitEntry, hINF]
    · rfl
  · rw [if_neg hINF] at h
    obtain ⟨key, hpub, h⟩ := Option.bind_eq_some_iff.mp h
    cases h
    by_cases hlocal : route.nh = cfg.localId
    · simp only [Tables.view, hlocal, if_true, LawfulPrefixTable.get_insert, hkey]
      split
      · rw [hlocal] at hpub
        simp [viewOf, forwardEntry, exitEntry, hINF, hlocal, hpub]
      · rfl
    · simp only [Tables.view, if_neg hlocal, LawfulPrefixTable.get_insert,
        LawfulPrefixTable.get_delete, hkey]
      split
      · simp [viewOf, forwardEntry, exitEntry, hINF, hlocal, hpub]
      · rfl

theorem view_empty (cfg : TableConfig Key Peer) (p : Prefix) :
    (Tables.empty : Tables T Peer).view p = viewOf cfg none := by
  simp [Tables.view, Tables.empty, LawfulPrefixTable.get_empty, viewOf]

/-- The first insertion for a prefix is the only one, as each prefix has one
entry in the route table. -/
private theorem view_insertAll {tables' : Tables T Peer}
    {entries : List (Σ _ : Prefix, SelRoute)} (hmasked : ∀ entry ∈ entries, entry.1.Masked)
    (hnodup : (entries.map Sigma.fst).Nodup)
    (h : entries.foldlM (fun tables entry => tableInsertRoute cfg tables entry.1 entry.2)
      tables = some tables') {p : Prefix} (hp : p.Masked) :
    tables'.view p = match entries.dlookup p with
      | some route => viewOf cfg (some route)
      | none => tables.view p := by
  induction entries generalizing tables with
  | nil =>
    cases h
    rfl
  | cons entry rest ih =>
    obtain ⟨pfx, route⟩ := entry
    rw [List.foldlM_cons] at h
    obtain ⟨tables₁, hinsert, hrest⟩ := Option.bind_eq_some_iff.mp h
    rw [List.forall_mem_cons] at hmasked
    rw [List.map_cons, List.nodup_cons] at hnodup
    rw [ih hmasked.2 hnodup.2 hrest, view_tableInsertRoute hmasked.1 hinsert hp]
    by_cases heq : p = pfx
    · subst heq
      have hnone : rest.dlookup p = none := List.dlookup_eq_none.mpr hnodup.1
      rw [hnone, List.dlookup_cons_eq, if_pos rfl]
    · rw [List.dlookup_cons_ne _ _ heq, if_neg heq]

/-- Tables filled with a set of routes mirror them. -/
theorem fillTables_mirrors
    {routes : Table Prefix SelRoute} (hmasked : ∀ p r, routes.lookup p = some r → p.Masked)
    (h : fillTables cfg routes = some tables) : Mirrors cfg tables routes.lookup := by
  rw [mirrors_iff]
  intro p hp
  have hentries : ∀ entry ∈ routes.entries, entry.1.Masked := fun entry hentry =>
    hmasked entry.1 entry.2 ((Table.mem_entries_iff routes entry.1 entry.2).mp hentry)
  rw [view_insertAll hentries routes.nodupKeys h hp, view_empty cfg]
  change _ = viewOf cfg (routes.entries.dlookup p)
  cases routes.entries.dlookup p <;> rfl

end Lawful

end Nylon.Core
