import Nylon.Lib.RangeLoop
import Nylon.State.Netip
import Mathlib.Data.Rat.Defs

/-!
The routing tables of one node (`state/routing.go`, `state/constants.go` and
the routing part of `state/tunables.go`). A Go map is a `Lib.Table`, whose
entry order stands for the order in which `range` happens to walk it. Smoothed
metrics are exact rationals.

A neighbour's endpoints appear through what the router reads of them in one
run: whether `BestEndpoint` is non-nil and what `LinkCost` returns. Both are
free, so no assumption is made about how links are measured.
-/

namespace Nylon.State

open Netip Lib

abbrev NodeId := String

/-- Instants and durations in nanoseconds. -/
abbrev Time := Int

abbrev Metric := UInt32

def INF : Metric := 0xFFFFFFFF

/-- The maximum value for a metric that is not a retraction. -/
def INFM : Metric := INF - 1

/-- A pair of a router-id and a prefix (Babel Section 2.7). -/
structure Source where
  nodeId : NodeId
  pfx : Prefix
  deriving DecidableEq, Repr

structure FD where
  seqno : UInt16
  metric : Metric
  deriving DecidableEq, Repr

/-- In a neighbour table the metric is the one the neighbour advertised, in the
selected route table the one the route will be advertised with. -/
structure PubRoute extends Source, FD
  deriving DecidableEq, Repr

structure NeighRoute extends PubRoute where
  expireAt : Time
  smoothedMetric : ℚ
  deriving DecidableEq

structure SelRoute extends PubRoute where
  nh : NodeId
  expireAt : Time
  retractedBy : List NodeId
  deriving DecidableEq, Repr

/-- `metricFn` is what a call of `MetricFn` returns in the current run, or
`none` for a nil function. -/
structure Advertisement where
  nodeId : NodeId
  expiry : Time
  isPassiveHold : Bool
  metricFn : Option Metric
  deriving DecidableEq, Repr

structure Neighbour where
  id : NodeId
  routes : Table Prefix NeighRoute
  active : Bool
  linkCost : Metric
  deriving DecidableEq

structure RouterTunables where
  hopCost : Metric
  transitCost : Metric
  largeChangeThreshold : UInt32
  seqnoRequestHopCount : UInt8
  routeExpiryTime : Time
  metricSmoothingAlpha : ℚ
  clientKeepaliveInterval : Time
  deriving DecidableEq

def defaultRouterTunables : RouterTunables where
  hopCost := 5
  transitCost := 0
  largeChangeThreshold := 100 * 1000
  seqnoRequestHopCount := 64
  routeExpiryTime := 25 * 1000000000
  metricSmoothingAlpha := 33 / 100
  clientKeepaliveInterval := 3 * 1000000000

structure RouterState extends RouterTunables where
  id : NodeId
  selfSeqno : Table Prefix UInt16
  routes : Table Prefix SelRoute
  sources : Table Source FD
  neighbours : List Neighbour
  advertised : Table Prefix Advertisement
  deriving DecidableEq

namespace RouterState

/-- The state `InitRouter` creates, before it advertises the node's prefixes. -/
def init (t : RouterTunables) (id : NodeId) : RouterState :=
  { t with
    id := id
    selfSeqno := ∅
    routes := ∅
    sources := ∅
    neighbours := []
    advertised := ∅ }

def getSeqno (s : RouterState) (p : Prefix) : UInt16 :=
  (s.selfSeqno.lookup p).getD 0

def setSeqno (s : RouterState) (p : Prefix) (seqno : UInt16) : RouterState :=
  {s with selfSeqno := s.selfSeqno.insert p seqno}

def getNeighbour (s : RouterState) (node : NodeId) : Option Neighbour :=
  s.neighbours.find? (fun neigh => neigh.id == node)

/-- Applies `f` to the neighbour that `getNeighbour` returns. -/
def modifyNeighbour (s : RouterState) (node : NodeId)
    (f : Neighbour → Neighbour) : RouterState :=
  let change := fun neigh : Neighbour =>
    if neigh.id = node then some (f neigh) else none
  {s with neighbours := s.neighbours.replaceF change}

/-- A neighbour after the change is an old one, or the changed one. -/
theorem mem_modifyNeighbour {s : RouterState} {node : NodeId}
    {f : Neighbour → Neighbour} {n : Neighbour}
    (hn : n ∈ (s.modifyNeighbour node f).neighbours) :
    n ∈ s.neighbours ∨ ∃ m ∈ s.neighbours, m.id = node ∧ n = f m := by
  unfold modifyNeighbour at hn
  dsimp only at hn
  generalize s.neighbours = neighs at hn
  induction neighs with
  | nil => cases hn
  | cons m rest ih =>
    by_cases hid : m.id = node
    · simp only [List.replaceF_cons, hid, if_true] at hn
      rcases List.mem_cons.mp hn with rfl | hn
      · exact Or.inr ⟨m, by simp, hid, rfl⟩
      · exact Or.inl (by simp [hn])
    · simp only [List.replaceF_cons, hid, if_false] at hn
      rcases List.mem_cons.mp hn with rfl | hn
      · exact Or.inl (by simp)
      · rcases ih hn with h | ⟨m', hm', h⟩
        · exact Or.inl (by simp [h])
        · exact Or.inr ⟨m', by simp [hm'], h⟩

/-- Every old neighbour is still there, possibly changed. -/
theorem mem_modifyNeighbour_of_mem {s : RouterState} (node : NodeId)
    (f : Neighbour → Neighbour) {n : Neighbour} (hn : n ∈ s.neighbours) :
    n ∈ (s.modifyNeighbour node f).neighbours ∨
      n.id = node ∧ f n ∈ (s.modifyNeighbour node f).neighbours := by
  unfold modifyNeighbour
  dsimp only
  generalize s.neighbours = neighs at hn
  induction neighs with
  | nil => cases hn
  | cons m rest ih =>
    by_cases hid : m.id = node
    · simp only [List.replaceF_cons, hid, if_true]
      rcases List.mem_cons.mp hn with rfl | hn
      · exact Or.inr ⟨hid, by simp⟩
      · exact Or.inl (by simp [hn])
    · simp only [List.replaceF_cons, hid, if_false]
      rcases List.mem_cons.mp hn with rfl | hn
      · exact Or.inl (by simp)
      · rcases ih hn with h | ⟨h, h'⟩
        · exact Or.inl (by simp [h])
        · exact Or.inr ⟨h, by simp [h']⟩

/-- A property of the neighbours that the change keeps. -/
theorem map_modifyNeighbour {α : Type} (s : RouterState) (node : NodeId)
    (f : Neighbour → Neighbour) (g : Neighbour → α)
    (hg : ∀ n, n.id = node → g (f n) = g n) :
    (s.modifyNeighbour node f).neighbours.map g = s.neighbours.map g := by
  unfold modifyNeighbour
  dsimp only
  generalize s.neighbours = neighs
  induction neighs with
  | nil => rfl
  | cons m rest ih =>
    by_cases hid : m.id = node
    · simp [hid, hg m hid]
    · simp [hid, ih]

theorem getNeighbour_modifyNeighbour (s : RouterState) (id : NodeId)
    (f : Neighbour → Neighbour) (hf : ∀ n, (f n).id = n.id) :
    (s.modifyNeighbour id f).getNeighbour id = (s.getNeighbour id).map f := by
  unfold modifyNeighbour getNeighbour
  dsimp only
  induction s.neighbours with
  | nil => rfl
  | cons n rest ih =>
    by_cases hid : n.id = id
    · simp [hid, hf]
    · simp [hid, ih]

end RouterState

end Nylon.State
