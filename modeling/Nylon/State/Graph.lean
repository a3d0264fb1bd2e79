import Nylon.State.Config
import Mathlib.Data.List.Destutter
import Mathlib.Data.List.Sort
import Mathlib.Data.String.Basic

/-!
The graph of a central configuration (`ParseGraph` and `GetPeers` of
`state/config.go`). A line defines a group of nodes and groups, or lists names
that are connected with each other. Groups are expanded in an order in which
each one comes after the groups it refers to.

The Unicode tables of Go are not part of the model: `toLower` is any function
on characters.
-/

namespace Nylon.State

open Lib

/-- `unicode.IsSpace`. -/
def isSpace (c : Char) : Bool :=
  let n := c.toNat
  (0x9 ≤ n && n ≤ 0xD) || n == 0x20 || n == 0x85 || n == 0xA0 || n == 0x1680 ||
    (0x2000 ≤ n && n ≤ 0x200A) || n == 0x2028 || n == 0x2029 || n == 0x202F ||
    n == 0x205F || n == 0x3000

def trimSpace (s : String) : String :=
  .ofList ((s.toList.dropWhile isSpace).reverse.dropWhile isSpace).reverse

/-- `strings.Split` at a character. -/
def split (sep : Char) (s : String) : List String :=
  (s.toList.splitOn sep).map .ofList

def sortNames (names : List String) : List String :=
  names.insertionSort (· ≤ ·)

@[simp] theorem mem_sortNames {name : String} {names : List String} :
    name ∈ sortNames names ↔ name ∈ names :=
  List.mem_insertionSort _

theorem sortNames_perm (names : List String) : (sortNames names).Perm names :=
  List.perm_insertionSort _ names

theorem sortNames_eq_of_perm {names names' : List String} (h : names.Perm names') :
    sortNames names = sortNames names' :=
  List.Perm.eq_of_pairwise' (r := (· ≤ ·)) (List.pairwise_insertionSort _ _)
    (List.pairwise_insertionSort _ _)
    ((sortNames_perm names).trans (h.trans (sortNames_perm names').symm))

/-- `slices.Compact`: of equal elements in a row one is kept. -/
def compact {α : Type} [DecidableEq α] (l : List α) : List α :=
  l.destutter (· ≠ ·)

/-- What `%v` prints of a list of names. -/
def formatNames (names : List String) : String :=
  "[" ++ " ".intercalate names ++ "]"

def makeSortedPair (a b : String) : String × String :=
  if a < b then (a, b) else (b, a)

def sortPairs (pairs : List (String × String)) : List (String × String) :=
  pairs.insertionSort fun x y => x.1 < y.1 ∨ x.1 = y.1 ∧ x.2 ≤ y.2

def parseSymbolList (s : String) (validSymbols : List String) : Except String (List String) := do
  let line ← (split ',' (trimSpace s)).foldlM (fun line part =>
    let x := trimSpace part
    if x = "" then .ok line
    else if x ∈ validSymbols then .ok (line ++ [x])
    else .error ("invalid graph: " ++ x ++ " is not a valid node/group")) []
  if line = [] then
    .error "invalid graph: node/group list must not be empty"
  else .ok (sortNames line)

/-- Pass 0: the names of nodes and groups. -/
def collectSymbols (nodes lines : List String) : Except String (List String) := do
  let symbols ← lines.foldlM (fun symbols line =>
    if '=' ∈ line.toList then
      match split '=' line with
      | [grp, _] =>
        if trimSpace grp ∈ nodes then
          .error ("invalid graph: group name must not be a node name: " ++ trimSpace grp)
        else .ok (symbols ++ [trimSpace grp])
      | _ => .error ("invalid graph: " ++ line ++
          ". group definition must contain one '='")
    else .ok symbols) nodes
  return compact (sortNames symbols)

/-- What pass 1 collects. `topo` has the groups each group still depends on,
`expansion` the nodes it is known to contain. -/
structure GraphParse where
  groups : Table String (List String)
  topo : Table String (List String)
  expansion : Table String (List String)
  pairings : List (String × String)

def parseGroup (nodes symbols : List String) (parse : GraphParse) (line : String) :
    Except String GraphParse :=
  match split '=' line with
  | grp :: list :: _ =>
    if (parse.groups.lookup (trimSpace grp)).isSome then
      .error ("invalid graph: duplicate group name: " ++ trimSpace grp)
    else do
      let lst ← parseSymbolList list symbols
      let deps := compact (sortNames (lst.filter (· ∉ nodes)))
      let members := (parse.expansion.lookup (trimSpace grp)).getD [] ++ lst.filter (· ∈ nodes)
      .ok { parse with
        groups := parse.groups.insert (trimSpace grp) lst
        topo := parse.topo.insert (trimSpace grp) deps
        expansion := parse.expansion.insert (trimSpace grp) members }
  | _ => .ok parse

/-- Each name is paired with the names before it. -/
def pairUp (names : List String) : List (String × String) :=
  (names.foldl (fun acc name =>
    (acc.1 ++ acc.2.map (makeSortedPair · name), acc.2 ++ [name]))
    (([], []) : List (String × String) × List String)).1

def parsePairing (symbols : List String) (parse : GraphParse) (line : String) :
    Except String GraphParse := do
  let names ← parseSymbolList line symbols
  if names.length < 2 then
    .error ("invalid graph: invalid pairing, " ++ formatNames names)
  else .ok { parse with
    pairings := compact (sortPairs (parse.pairings ++ pairUp names)) }

/-- Pass 1. -/
def parseLines (nodes symbols lines : List String) : Except String GraphParse :=
  lines.foldlM (fun parse line =>
    if '=' ∈ line.toList then parseGroup nodes symbols parse line
    else parsePairing symbols parse line) ⟨∅, ∅, ∅, []⟩

/-- A group that depends on an expanded one takes over its nodes. -/
def resolveGroup (group : String) (topo expansion : Table String (List String)) :
    Table String (List String) × Table String (List String) :=
  topo.range (fun acc k deps =>
    if group ∈ deps then
      let nodes := (acc.2.lookup k).getD [] ++ (acc.2.lookup group).getD []
      (acc.1.insert k (deps.filter (· ≠ group)), acc.2.insert k (compact (sortNames nodes)))
    else acc) (topo, expansion)

/-- Pass 2. Every round removes a group from `topo`, so as many rounds as there
are groups are enough. A group with an empty name is taken for none at all. -/
def expandGroups : Nat → Table String (List String) → Table String (List String) →
    Except String (Table String (List String))
  | 0, _, expansion => .ok expansion
  | rounds + 1, topo, expansion =>
    if topo.entries = [] then .ok expansion
    else
      let group := ((topo.entries.find? fun entry => entry.2 = []).map (·.1)).getD ""
      if group = "" then
        .error ("invalid graph: cycle detected in graph: " ++ formatNames (sortNames topo.keys))
      else
        let resolved := resolveGroup group (topo.erase group) expansion
        expandGroups rounds resolved.1 resolved.2

def expandName (nodes : List String) (expansion : Table String (List String))
    (name : String) : List NodeId :=
  if name ∈ nodes then [name] else (expansion.lookup name).getD []

/-- Pass 3: the pairs of distinct nodes that the pairs of names stand for. -/
def expandPairings (nodes : List String) (expansion : Table String (List String))
    (pairings : List (String × String)) : List (NodeId × NodeId) :=
  pairings.foldl (fun acc pair =>
    let x := expandName nodes expansion pair.1
    let y := expandName nodes expansion pair.2
    let pairs := x.flatMap fun x1 =>
      (y.filter (x1 ≠ ·)).map fun y1 => makeSortedPair x1 y1
    compact (sortPairs (acc ++ pairs))) []

def parseGraph (toLower : Char → Char) (graph nodes : List String) :
    Except String (List (NodeId × NodeId)) := do
  let lines := graph.map fun line => String.ofList ((trimSpace line).toList.map toLower)
  let symbols ← collectSymbols nodes lines
  let parse ← parseLines nodes symbols lines
  let expansion ← expandGroups parse.topo.keys.length parse.topo parse.expansion
  return expandPairings nodes expansion parse.pairings

def neighbourOf (curId : NodeId) (edge : NodeId × NodeId) : Option NodeId :=
  let neighNode := if edge.2 = curId then edge.1
    else if edge.1 = curId then edge.2 else ""
  if neighNode ≠ curId ∧ neighNode ≠ "" then some neighNode else none

/-- An error is a panic of `GetPeers`. -/
def CentralCfg.getPeers {H : Type} (toLower : Char → Char) (c : CentralCfg H)
    (curId : NodeId) : Except String (List NodeId) := do
  let graph ← parseGraph toLower c.graph (c.getNodes.map (·.id))
  return graph.filterMap (neighbourOf curId)

section Peers

variable {H : Type} (toLower : Char → Char)

/-- The key of a peer of a node. -/
def CentralCfg.peerKey (c : CentralCfg H) (curId peer : NodeId) : Option NyPublicKey :=
  match c.getPeers toLower curId with
  | .error _ => none
  | .ok peers => if peer ∈ peers then (c.tryGetNode peer).map (·.pubKey) else none

theorem CentralCfg.tryGetNode_of_peerKey {c : CentralCfg H} {curId peer : NodeId}
    {key : NyPublicKey} (h : c.peerKey toLower curId peer = some key) :
    (c.tryGetNode peer).map (·.pubKey) = some key := by
  unfold peerKey at h
  split at h
  · cases h
  · split at h
    · exact h
    · cases h

theorem CentralCfg.peerKey_mapPrefixesOf (node : NodeId) (f : H → H) (c : CentralCfg H)
    (curId peer : NodeId) :
    (c.mapPrefixesOf node f).peerKey toLower curId peer = c.peerKey toLower curId peer := by
  unfold peerKey getPeers
  rw [getNodes_mapPrefixesOf node f c fun _ _ => rfl,
    tryGetNode_mapPrefixesOf node f c fun _ _ => rfl]
  rfl

end Peers

end Nylon.State
