import Nylon.Core.ComputeSpec

/-!
Soundness of route selection: every entry that `computeRoutes` leaves is an own
advertisement, a route learned from a connected neighbour whose stored route is
feasible, or a retraction of the previous entry.
-/

namespace Nylon.Core

open State Netip Lib

variable {s : RouterState}

/-- An entry for an own advertisement. -/
structure IsAdvertised (s : RouterState) (p : Prefix) (adv : Advertisement)
    (r : SelRoute) : Prop where
  source : r.toSource = ⟨s.id, p⟩
  seqno : r.seqno = s.getSeqno p
  metric : r.metric = advMetric adv
  nh : r.nh = adv.nodeId

/-- A finite entry for the route `st` that the neighbour `n` has announced. Its
metric is the sum of all costs, capped at `INFM`. -/
structure IsLearned (s : RouterState) (n : Neighbour) (st : NeighRoute)
    (r : SelRoute) : Prop where
  finite : r.metric ≠ INF
  nh : r.nh = n.id
  active : n.active = true
  source : r.toSource = st.toSource
  seqno : r.seqno = st.seqno
  storedFinite : st.metric ≠ INF
  feasible : checkFeasibility s st.toPubRoute = true
  metric : r.metric.toNat = min INFM.toNat
    (n.linkCost.toNat + s.hopCost.toNat + s.transitCost.toNat + st.metric.toNat)

/-- An unreachable entry that continues the entry `old`. -/
structure IsRetained (old r : SelRoute) : Prop where
  metric : r.metric = INF
  nh : r.nh = old.nh
  source : r.toSource = old.toSource
  seqno : r.seqno = old.seqno

private theorem lookup_bestEndpoints (neighs : List Neighbour) (id : NodeId) :
    (neighs.foldl (fun (eps : Table NodeId Bool) neigh =>
      eps.insert neigh.id neigh.active) ∅).lookup id =
      (neighs.reverse.find? (·.id == id)).map (·.active) := by
  induction neighs using List.reverseRecOn with
  | nil => rfl
  | append_singleton neighs n ih =>
    rw [List.foldl_append, List.reverse_append]
    simp only [List.foldl_cons, List.foldl_nil, List.reverse_singleton,
      List.singleton_append, List.find?_cons, Table.lookup_insert_eq]
    by_cases hid : id = n.id
    · simp [hid]
    · have hne : (n.id == id) = false := by simpa using fun h => hid h.symm
      simp [hid, hne, ih]

theorem hasLink_eq_true {id : NodeId} (h : hasLink s id = true) :
    ∃ n ∈ s.neighbours, n.id = id ∧ n.active = true := by
  unfold hasLink bestEndpoints at h
  rw [lookup_bestEndpoints] at h
  cases hfind : s.neighbours.reverse.find? (·.id == id) with
  | none => simp [hfind] at h
  | some n =>
    refine ⟨n, ?_, ?_, ?_⟩
    · exact List.mem_reverse.mp (List.mem_of_find?_eq_some hfind)
    · simpa using List.find?_some hfind
    · simpa [hfind] using h

/-- With distinct ids the best endpoint found for an id is the neighbour's own. -/
theorem hasLink_of_mem (hids : (s.neighbours.map (·.id)).Nodup)
    {n : Neighbour} (hmem : n ∈ s.neighbours) : hasLink s n.id = n.active := by
  unfold hasLink bestEndpoints
  rw [lookup_bestEndpoints]
  cases hfind : s.neighbours.reverse.find? (·.id == n.id) with
  | none =>
    have hnone := List.find?_eq_none.mp hfind n (List.mem_reverse.mpr hmem)
    simp at hnone
  | some m =>
    have hm := List.mem_reverse.mp (List.mem_of_find?_eq_some hfind)
    have hid : m.id = n.id := by simpa using List.find?_some hfind
    obtain rfl := List.inj_on_of_nodup_map hids hm hmem hid
    simp

theorem hasLink_iff (hids : (s.neighbours.map (·.id)).Nodup) {id : NodeId} :
    hasLink s id = true ↔ ∃ n ∈ s.neighbours, n.id = id ∧ n.active = true := by
  refine ⟨hasLink_eq_true, ?_⟩
  rintro ⟨n, hn, rfl, hactive⟩
  rw [hasLink_of_mem hids hn, hactive]

theorem hopCostTo_ne_INF {n : Neighbour} (h : hopCostTo s n ≠ INF) :
    hasLink s n.id = true ∧ (hopCostTo s n).toNat = min INFM.toNat
      (n.linkCost.toNat + s.hopCost.toNat + s.transitCost.toNat) := by
  unfold hopCostTo at h ⊢
  split at h
  · next hlink =>
    obtain ⟨hboth, htransit⟩ := (addMetric_ne_INF_iff _ _).mp h
    obtain ⟨hcost, hhop⟩ := (addMetric_ne_INF_iff _ _).mp hboth
    rw [if_pos hlink]
    refine ⟨hlink, ?_⟩
    rw [addMetric_toNat hboth htransit, addMetric_toNat hcost hhop]
    omega
  · exact absurd rfl h

/-- The candidates are the feasible finite routes of the connected neighbours. -/
theorem isLearned_of_candidate (hids : (s.neighbours.map (·.id)).Nodup) {p : Prefix} {c : Candidate}
    (hc : c ∈ candidates s p) :
    ∃ n ∈ s.neighbours, ∃ st, n.routes.lookup p = some st ∧ IsLearned s n st c.route := by
  obtain ⟨n, hn, st, hst, hcand⟩ := mem_candidates.mp hc
  obtain ⟨htotal, hfeasible, hnh, hsource, hseqno, hmetric, _⟩ :=
    candidate_eq_some hcand
  obtain ⟨hhop, hstored⟩ := (addMetric_ne_INF_iff _ _).mp htotal
  obtain ⟨hlink, hcost⟩ := hopCostTo_ne_INF hhop
  refine ⟨n, hn, st, hst, ?_⟩
  constructor
  case finite => rwa [hmetric]
  case nh => exact hnh
  case active => rwa [hasLink_of_mem hids hn] at hlink
  case source => exact hsource
  case seqno => exact hseqno
  case storedFinite => exact hstored
  case feasible => exact hfeasible
  case metric =>
    rw [hmetric, addMetric_toNat hhop hstored, hcost]
    omega

theorem isAdvertised_advertisedRoute (s : RouterState) (now : Time) (p : Prefix)
    (adv : Advertisement) : IsAdvertised s p adv (advertisedRoute s now p adv) :=
  ⟨rfl, rfl, rfl, rfl⟩

/-- Every entry a run leaves is an own advertisement, a feasible route learned
from a connected neighbour or a retraction of the entry before, and a learned
route is only left where no own advertisement is at least as good. -/
theorem computeRoutes_sound (s : RouterState) (now : Time) (hids : (s.neighbours.map (·.id)).Nodup)
    (hown : ∀ q adv, s.advertised.lookup q = some adv → ∀ n ∈ s.neighbours, n.id ≠ adv.nodeId)
    (p : Prefix) (r : SelRoute)
    (hentry : (computeRoutes s now).1.routes.lookup p = some r) :
    ((∃ adv, s.advertised.lookup p = some adv ∧ IsAdvertised s p adv r) ∨
      (∃ n ∈ s.neighbours, ∃ st, n.routes.lookup p = some st ∧ IsLearned s n st r) ∨
      (∃ old, s.routes.lookup p = some old ∧ IsRetained old r)) ∧
    ∀ n ∈ s.neighbours, ∀ st, n.routes.lookup p = some st → IsLearned s n st r →
      ∀ adv, s.advertised.lookup p = some adv → ¬ advMetric adv ≤ r.metric := by
  rw [lookup_computeRoutes] at hentry
  rcases finalRoute_cases hentry with ⟨hsel, _⟩ | ⟨old, hold, _, _, rfl⟩
  · rcases selectedRoute_cases hsel with
      ⟨adv, hadv, rfl⟩ | ⟨c, hc, rfl, hbetter⟩ | ⟨old, hold, hfree, _, rfl⟩
    · refine ⟨Or.inl ⟨adv, hadv, isAdvertised_advertisedRoute s now p adv⟩, ?_⟩
      intro n hn st _ hlearned
      exact absurd hlearned.nh.symm (hown p adv hadv n hn)
    · refine ⟨Or.inr (Or.inl (isLearned_of_candidate hids hc)), ?_⟩
      intro n hn st _ hlearned adv hadv
      rcases hbetter adv hadv with hnh | hlt
      · exact absurd (hlearned.nh.symm.trans hnh) (hown p adv hadv n hn)
      · exact not_le_of_gt hlt
    · refine ⟨Or.inr (Or.inr ⟨old, hold, rfl, rfl, rfl, rfl⟩), ?_⟩
      intro n _ st _ hlearned
      exact absurd rfl hlearned.finite
  · refine ⟨Or.inr (Or.inr ⟨old, hold, rfl, rfl, rfl, rfl⟩), ?_⟩
    intro n _ st _ hlearned
    exact absurd rfl hlearned.finite

/-- Node `a` advertises one prefix and hears of another one from `b`. -/
def learningState : RouterState :=
  let stored : NeighRoute := ⟨⟨⟨"b", ⟨.v4 0x0A000200, 24, Prefix.bits24_le⟩⟩, ⟨3, 7⟩⟩, 100, 0⟩
  { RouterState.init defaultRouterTunables "a" with
    neighbours := [⟨"b", AList.singleton stored.pfx stored, true, 20⟩]
    advertised := AList.singleton ⟨.v4 0x0A000100, 24, Prefix.bits24_le⟩ ⟨"a", 1000, false, none⟩ }

theorem computeRoutes_sound_learned : let p : Prefix := ⟨.v4 0x0A000200, 24, by decide⟩
    let r : SelRoute := ⟨⟨⟨"b", p⟩, ⟨3, 32⟩⟩, "b", 100, []⟩
    (computeRoutes learningState 0).1.routes.lookup p = some r ∧
    ((∃ adv, learningState.advertised.lookup p = some adv ∧ IsAdvertised learningState p adv r) ∨
      (∃ n ∈ learningState.neighbours, ∃ st, n.routes.lookup p = some st ∧
        IsLearned learningState n st r) ∨
      (∃ old, learningState.routes.lookup p = some old ∧ IsRetained old r)) := by
  intro p r
  have hentry : (computeRoutes learningState 0).1.routes.lookup p = some r := by
    decide +kernel
  refine ⟨hentry, ?_⟩
  have hown : ∀ q adv, learningState.advertised.lookup q = some adv →
      ∀ n ∈ learningState.neighbours, n.id ≠ adv.nodeId :=
    Table.forall_lookup (by decide)
  exact (computeRoutes_sound learningState 0 (by decide) hown p r hentry).1

end Nylon.Core
