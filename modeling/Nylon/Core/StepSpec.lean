import Nylon.Core.Events

/-!
What an event can do to the tables a node keeps besides its routes. A route
stored for a neighbour was stored before, perhaps expired since, or is the
update the event delivers; an advertisement was there before or is the one the
event makes. Invariants over whole runs are derived from these statements.
-/

namespace Nylon.Core

open State Netip Lib

variable {s t : RouterState} {e : Event} {st st' : NeighRoute} {now : Time} {id : NodeId}
  {p : Prefix} {n : Neighbour} {adv : Advertisement}

/-- What an event does that does not run `computeRoutes`: it updates source
table entries, stores an update, changes a link, changes what the node
advertises, or changes the set of neighbours. -/
theorem step_cases_of_recompute_none (h : recompute s e = none) :
    (∃ sources, (step s e).1 = {s with sources := sources}) ∨
    (∃ now neigh adv, e = .neighbourUpdate now neigh adv ∧
      (step s e).1 = s.modifyNeighbour neigh (storeUpdate s now adv)) ∨
    (∃ neigh active cost, e = .setLink neigh active cost ∧
      (step s e).1 = setLink s neigh active cost) ∨
    (∃ selfSeqno advertised,
      (step s e).1 = {s with selfSeqno := selfSeqno, advertised := advertised} ∧
      ∀ p adv, advertised.lookup p = some adv →
        s.advertised.lookup p = some adv ∨ e = .advertise p adv ∨
        ∃ now hold metricFn, e = .passiveClient now p adv.nodeId hold metricFn) ∨
    (∃ peers, e = .reconcileNeighbours peers ∧
      (step s e).1 = reconcileNeighbours s peers) := by
  cases e with
  | neighbourUpdate now neigh adv =>
    rcases (handleNeighbourUpdate_cases s now neigh adv).1 with hsame | hstored
    · exact Or.inl ⟨s.sources, hsame⟩
    · exact Or.inr (Or.inl ⟨now, neigh, adv, rfl, hstored⟩)
  | computeRoutes now => cases h
  | fullTableUpdate => exact Or.inl ⟨_, announceTable_state s _⟩
  | pushFullTable neigh => exact Or.inl ⟨_, announceTable_state s _⟩
  | seqnoRequest now fromNeigh src reqSeqno hopCnt =>
    rcases handleSeqnoRequest_cases s now fromNeigh src reqSeqno hopCnt with
      ⟨t, _, ht, _⟩ | ⟨_, ⟨_, hout⟩ | ⟨selRoute, _, _, hout, _⟩⟩
    · simp [recompute, ht] at h
    · exact Or.inl ⟨s.sources, by rw [step, hout]⟩
    · refine Or.inl ⟨(step s (.seqnoRequest now fromNeigh src reqSeqno hopCnt)).1.sources, ?_⟩
      rw [step, hout, answerRequest]
      split <;> rfl
  | ackRetract now neigh pfx =>
    simp only [recompute, Option.map_eq_none_iff] at h
    exact Or.inl ⟨s.sources, by simp [step, handleAckRetract, h]⟩
  | solveStarvation => exact Or.inl ⟨s.sources, rfl⟩
  | runGC now => cases h
  | setLink neigh active cost =>
    exact Or.inr (Or.inr (Or.inl ⟨neigh, active, cost, rfl, rfl⟩))
  | advertise pfx adv =>
    refine Or.inr (Or.inr (Or.inr (Or.inl ⟨s.selfSeqno, _, rfl, ?_⟩)))
    intro p adv' hadv'
    rw [Table.lookup_insert_eq] at hadv'
    split at hadv'
    · next heq =>
      obtain rfl := Option.some.inj hadv'
      exact Or.inr (Or.inl (by rw [heq]))
    · exact Or.inl hadv'
  | withdraw pfx =>
    refine Or.inr (Or.inr (Or.inr (Or.inl ⟨s.selfSeqno, _, rfl, ?_⟩)))
    intro p adv' hadv'
    rw [Table.lookup_erase_eq] at hadv'
    split at hadv'
    · cases hadv'
    · exact Or.inl hadv'
  | passiveClient now pfx node hold metricFn =>
    refine Or.inr (Or.inr (Or.inr (Or.inl
      ⟨(step s (.passiveClient now pfx node hold metricFn)).1.selfSeqno, s.advertised.insert pfx
          ⟨node, now + s.clientKeepaliveInterval, hold, metricFn⟩, ?_, ?_⟩)))
    · simp only [step, updatePassiveClient]
      split <;> rfl
    · intro p adv' hadv'
      rw [Table.lookup_insert_eq] at hadv'
      split at hadv'
      · next heq =>
        obtain rfl := Option.some.inj hadv'
        exact Or.inr (Or.inr ⟨now, hold, metricFn, by rw [heq]⟩)
      · exact Or.inl hadv'
  | reconcileNeighbours peers =>
    exact Or.inr (Or.inr (Or.inr (Or.inr ⟨peers, rfl, rfl⟩)))

/-- The neighbours with whether they have an active best endpoint. -/
def links (s : RouterState) : List (NodeId × Bool) :=
  s.neighbours.map fun n => (n.id, n.active)

def Stored (s : RouterState) (id : NodeId) (p : Prefix) (st : NeighRoute) : Prop :=
  ∃ n ∈ s.neighbours, n.id = id ∧ n.routes.lookup p = some st

/-- The route `st'` is what became of `st`: the same, or expired. -/
structure StoredFrom (st st' : NeighRoute) : Prop where
  source : st'.toSource = st.toSource
  seqno : st'.seqno = st.seqno
  metric : st'.metric = st.metric ∨ st'.metric = INF

theorem StoredFrom.refl (st : NeighRoute) : StoredFrom st st :=
  ⟨rfl, rfl, Or.inl rfl⟩

theorem StoredFrom.of_pub (h : st'.toPubRoute = st.toPubRoute) : StoredFrom st st' := by
  constructor
  case source => rw [h]
  case seqno => rw [h]
  case metric => rw [h]; exact Or.inl rfl

theorem StoredFrom.trans {st'' : NeighRoute} (h : StoredFrom st st')
    (h' : StoredFrom st' st'') : StoredFrom st st'' := by
  constructor
  case source => exact h'.source.trans h.source
  case seqno => exact h'.seqno.trans h.seqno
  case metric =>
    rcases h'.metric with heq | hINF
    · rw [heq]
      exact h.metric
    · exact Or.inr hINF

/-- A finite route has not expired. -/
theorem StoredFrom.pub_eq (h : StoredFrom st st')
    (hfinite : st'.metric ≠ INF) : st'.toPubRoute = st.toPubRoute := by
  obtain ⟨⟨src, ⟨seqno, metric⟩⟩, _, _⟩ := st
  obtain ⟨⟨src', ⟨seqno', metric'⟩⟩, _, _⟩ := st'
  obtain ⟨hsource, hseqno, hmetric⟩ := h
  simp only at hsource hseqno hmetric hfinite
  subst hsource hseqno
  rcases hmetric with rfl | hINF
  · rfl
  · exact absurd hINF hfinite

theorem stored_computeRoutes (h : Stored (computeRoutes s now).1 id p st') :
    ∃ st, Stored s id p st ∧ st'.toPubRoute = st.toPubRoute := by
  rw [computeRoutes_state] at h
  obtain ⟨n', hn', rfl, hst'⟩ := h
  obtain ⟨n, hn, rfl⟩ := List.mem_map.mp hn'
  rw [lookup_smoothNeighbour] at hst'
  obtain ⟨st, hst, rfl⟩ := Option.map_eq_some_iff.mp hst'
  exact ⟨st, ⟨n, hn, rfl, hst⟩, smoothRoute_toPubRoute s n st⟩

theorem lookup_expireNeighRoutes (s : RouterState) (now : Time) (n : Neighbour) (p : Prefix) :
    (expireNeighRoutes s now n).routes.lookup p =
      (n.routes.lookup p).bind fun route =>
        if route.expireAt < now then
          if route.metric = INF then none
          else some {route with metric := INF, expireAt := now + s.routeExpiryTime}
        else some route := by
  refine (Table.range_pointwise n.routes _ _ (AList.lookup p) p
    (fun route cur =>
      if route.expireAt < now then
        if route.metric = INF then none
        else some {route with metric := INF, expireAt := now + s.routeExpiryTime}
      else cur) ?_ ?_).trans ?_
  · intro routes route _
    split
    · split
      · exact AList.lookup_erase _ routes
      · exact AList.lookup_insert routes
    · rfl
  · intro routes k route _ hne
    split
    · split
      · exact AList.lookup_erase_ne hne.symm
      · exact AList.lookup_insert_ne hne.symm
    · rfl
  · cases h : n.routes.lookup p <;> simp

theorem stored_expireRoutes (h : Stored (expireRoutes s now) id p st') :
    ∃ st, Stored s id p st ∧ StoredFrom st st' := by
  obtain ⟨n', hn', rfl, hst'⟩ := h
  obtain ⟨n, hn, rfl⟩ := List.mem_map.mp hn'
  rw [lookup_expireNeighRoutes] at hst'
  obtain ⟨st, hst, hst'⟩ := Option.bind_eq_some_iff.mp hst'
  refine ⟨st, ⟨n, hn, rfl, hst⟩, ?_⟩
  split at hst'
  · split at hst'
    · cases hst'
    · obtain rfl := Option.some.inj hst'
      exact ⟨rfl, rfl, Or.inr rfl⟩
  · obtain rfl := Option.some.inj hst'
    exact StoredFrom.refl _

theorem storeUpdate_lookup {adv : PubRoute}
    (h : (storeUpdate s now adv n).routes.lookup p = some st') :
    n.routes.lookup p = some st' ∨ (p = adv.pfx ∧ st'.toPubRoute = adv) := by
  unfold storeUpdate at h
  split at h
  all_goals
    simp only [Table.lookup_insert_eq] at h
    split at h
    · next heq =>
      obtain rfl := Option.some.inj h
      exact Or.inr ⟨heq, rfl⟩
    · exact Or.inl h

theorem stored_handleNeighbourUpdate {neigh : NodeId} {adv : PubRoute}
    (h : Stored (handleNeighbourUpdate s now neigh adv).1 id p st') :
    Stored s id p st' ∨ (id = neigh ∧ p = adv.pfx ∧ st'.toPubRoute = adv) := by
  rcases (handleNeighbourUpdate_cases s now neigh adv).1 with hsame | hstored
  · rw [hsame] at h
    exact Or.inl h
  · rw [hstored] at h
    obtain ⟨n', hn', rfl, hst'⟩ := h
    rcases RouterState.mem_modifyNeighbour hn' with hold | ⟨n, hn, hid, rfl⟩
    · exact Or.inl ⟨n', hold, rfl, hst'⟩
    · have hsameId : (storeUpdate s now adv n).id = n.id := by
        unfold storeUpdate
        split <;> rfl
      rcases storeUpdate_lookup hst' with hold | hnew
      · exact Or.inl ⟨n, hn, hsameId.symm, hold⟩
      · exact Or.inr ⟨hsameId.trans hid, hnew⟩

theorem stored_setLink {neigh : NodeId} {active : Bool} {cost : Metric}
    (h : Stored (setLink s neigh active cost) id p st') : Stored s id p st' := by
  obtain ⟨n', hn', rfl, hst'⟩ := h
  rcases RouterState.mem_modifyNeighbour hn' with hold | ⟨n, hn, _, rfl⟩
  · exact ⟨n', hold, rfl, hst'⟩
  · exact ⟨n, hn, rfl, hst'⟩

theorem mem_reconcileNeighbours {peers : List NodeId}
    (hn : n ∈ (reconcileNeighbours s peers).neighbours) :
    n.id ∈ peers ∧ (n ∈ s.neighbours ∨ n.routes = ∅) := by
  rcases List.mem_append.mp hn with hkept | hadded
  · obtain ⟨hold, hpeer⟩ := List.mem_filter.mp hkept
    exact ⟨by simpa using hpeer, Or.inl hold⟩
  · obtain ⟨id, hid, rfl⟩ := List.mem_map.mp hadded
    have hmem := (List.mem_filter.mp ((List.mem_insertionSort _).mp hid)).1
    exact ⟨List.mem_dedup.mp hmem, Or.inr rfl⟩

theorem stored_reconcileNeighbours {peers : List NodeId}
    (h : Stored (reconcileNeighbours s peers) id p st') : Stored s id p st' := by
  obtain ⟨n, hn, hid, hst'⟩ := h
  rcases (mem_reconcileNeighbours hn).2 with hold | hempty
  · exact ⟨n, hold, hid, hst'⟩
  · simp [hempty] at hst'

theorem answerRequest_state (s : RouterState) (fromNeigh : NodeId) (src : Source)
    (reqSeqno : UInt16) (selRoute : SelRoute) :
    (answerRequest s fromNeigh src reqSeqno selRoute).1 =
      { s with
        sources := (answerRequest s fromNeigh src reqSeqno selRoute).1.sources } := by
  unfold answerRequest
  split <;> rfl

/-- Before a run of `computeRoutes` an event changes the routes at most in their
acknowledgements. -/
theorem routes_recompute (hrecompute : recompute s e = some (t, now)) (p : Prefix) :
    (t.routes.lookup p).map (fun r => (r.toPubRoute, r.nh, r.expireAt)) =
      (s.routes.lookup p).map (fun r => (r.toPubRoute, r.nh, r.expireAt)) := by
  rcases recompute_cases hrecompute with ⟨_, rfl⟩ |
    ⟨fromNeigh, src, reqSeqno, _, selRoute, _, _, rfl, _⟩ |
    ⟨neigh, pfx, _, hack, _⟩ | ⟨_, rfl⟩
  · rfl
  · rw [answerRequest_state]
    rfl
  · obtain ⟨rt, hrt, _, _, rfl⟩ := recordAck_eq_some hack
    simp only [Table.lookup_insert_eq]
    split
    · next heq => rw [heq, hrt, Option.map_some, Option.map_some]
    · rfl
  · rfl

theorem stored_recompute (hrecompute : recompute s e = some (t, now)) (h : Stored t id p st') :
    ∃ st, Stored s id p st ∧ StoredFrom st st' := by
  rcases recompute_cases hrecompute with ⟨_, rfl⟩ |
    ⟨fromNeigh, src, reqSeqno, _, selRoute, _, _, rfl, _⟩ |
    ⟨neigh, pfx, _, hack, _⟩ | ⟨_, rfl⟩
  · exact ⟨st', h, StoredFrom.refl st'⟩
  · rw [answerRequest_state] at h
    exact ⟨st', h, StoredFrom.refl st'⟩
  · obtain ⟨_, _, _, _, rfl⟩ := recordAck_eq_some hack
    exact ⟨st', h, StoredFrom.refl st'⟩
  · exact stored_expireRoutes h

/-- A stored route was stored before, or is the update that is delivered. -/
theorem stored_step (h : Stored (step s e).1 id p st') :
    (∃ st, Stored s id p st ∧ StoredFrom st st') ∨
      (p = st'.pfx ∧ ∃ now, e = .neighbourUpdate now id st'.toPubRoute) := by
  cases hrecompute : recompute s e with
  | some run =>
    obtain ⟨t, now⟩ := run
    rw [(step_of_recompute_some hrecompute).1] at h
    obtain ⟨st, hst, hpub⟩ := stored_computeRoutes h
    obtain ⟨st₀, hst₀, hfrom⟩ := stored_recompute hrecompute hst
    exact Or.inl ⟨st₀, hst₀, hfrom.trans (StoredFrom.of_pub hpub)⟩
  | none =>
    rcases step_cases_of_recompute_none hrecompute with ⟨_, hs⟩ |
      ⟨now, neigh, adv, rfl, _⟩ | ⟨_, _, _, _, hs⟩ | ⟨_, _, hs, _⟩ | ⟨_, _, hs⟩
    · rw [hs] at h
      exact Or.inl ⟨st', h, StoredFrom.refl st'⟩
    · rcases stored_handleNeighbourUpdate h with hold | ⟨rfl, rfl, rfl⟩
      · exact Or.inl ⟨st', hold, StoredFrom.refl st'⟩
      · exact Or.inr ⟨rfl, now, rfl⟩
    · rw [hs] at h
      exact Or.inl ⟨st', stored_setLink h, StoredFrom.refl st'⟩
    · rw [hs] at h
      exact Or.inl ⟨st', h, StoredFrom.refl st'⟩
    · rw [hs] at h
      exact Or.inl ⟨st', stored_reconcileNeighbours h, StoredFrom.refl st'⟩

theorem lookup_expireAdvertised (h : (expireAdvertised s now).lookup p = some adv) :
    s.advertised.lookup p = some adv := by
  revert p adv
  refine Table.range_invariant s.advertised _ s.advertised
    (fun table : Table Prefix Advertisement => ∀ {p adv},
      table.lookup p = some adv → s.advertised.lookup p = some adv) ?_ ?_
  · exact fun h => h
  · intro table k _ _ htable p adv h
    split at h
    · rw [Table.lookup_erase_eq] at h
      split at h
      · cases h
      · exact htable h
    · exact htable h

theorem advertised_recompute (hrecompute : recompute s e = some (t, now))
    (h : t.advertised.lookup p = some adv) :
    s.advertised.lookup p = some adv := by
  rcases recompute_cases hrecompute with ⟨_, rfl⟩ |
    ⟨fromNeigh, src, reqSeqno, _, selRoute, _, _, rfl, _⟩ |
    ⟨neigh, pfx, _, hack, _⟩ | ⟨_, rfl⟩
  · exact h
  · rw [answerRequest_state] at h
    exact h
  · obtain ⟨_, _, _, _, rfl⟩ := recordAck_eq_some hack
    exact h
  · exact lookup_expireAdvertised h

/-- An advertisement was there before, or is the one that is made. -/
theorem advertised_step (h : (step s e).1.advertised.lookup p = some adv) :
    s.advertised.lookup p = some adv ∨ e = .advertise p adv ∨
      ∃ now hold metricFn, e = .passiveClient now p adv.nodeId hold metricFn := by
  cases hrecompute : recompute s e with
  | some run =>
    obtain ⟨t, now⟩ := run
    rw [(step_of_recompute_some hrecompute).1, computeRoutes_state] at h
    exact Or.inl (advertised_recompute hrecompute h)
  | none =>
    rcases step_cases_of_recompute_none hrecompute with ⟨_, hs⟩ |
      ⟨_, _, _, _, hs⟩ | ⟨_, _, _, _, hs⟩ | ⟨_, _, hs, hadv⟩ | ⟨_, _, hs⟩
    · rw [hs] at h
      exact Or.inl h
    · rw [hs] at h
      exact Or.inl h
    · rw [hs] at h
      exact Or.inl h
    · rw [hs] at h
      exact hadv p adv h
    · rw [hs] at h
      exact Or.inl h

theorem links_modifyNeighbour (s : RouterState) (node : NodeId) (f : Neighbour → Neighbour)
    (hf : ∀ n, (f n).id = n.id ∧ (f n).active = n.active) :
    links (s.modifyNeighbour node f) = links s :=
  RouterState.map_modifyNeighbour s node f _ fun n _ => by simp [hf n]

theorem links_computeRoutes (s : RouterState) (now : Time) :
    links (computeRoutes s now).1 = links s := by
  simp [links, computeRoutes_state, Function.comp_def]

theorem links_expireRoutes (s : RouterState) (now : Time) :
    links (expireRoutes s now) = links s := by
  simp [links, expireRoutes, expireNeighRoutes, Function.comp_def]

theorem links_answerRequest (s : RouterState) (fromNeigh : NodeId) (src : Source)
    (reqSeqno : UInt16) (selRoute : SelRoute) :
    links (answerRequest s fromNeigh src reqSeqno selRoute).1 = links s := by
  rw [answerRequest_state]
  rfl

theorem storeUpdate_link (s : RouterState) (now : Time) (adv : PubRoute) (n : Neighbour) :
    (storeUpdate s now adv n).id = n.id ∧
      (storeUpdate s now adv n).active = n.active := by
  unfold storeUpdate
  split <;> exact ⟨rfl, rfl⟩

theorem links_recompute (h : recompute s e = some (t, now)) : links t = links s := by
  rcases recompute_cases h with ⟨_, rfl⟩ | ⟨fromNeigh, src, reqSeqno, _, selRoute, _, _, rfl, _⟩ |
    ⟨neigh, pfx, _, hack, _⟩ | ⟨_, rfl⟩
  · rfl
  · exact links_answerRequest s fromNeigh src reqSeqno selRoute
  · obtain ⟨_, _, _, _, rfl⟩ := recordAck_eq_some hack
    rfl
  · exact links_expireRoutes s now

/-- Links change by `setLink` and `reconcileNeighbours` only. -/
theorem links_step_cases (s : RouterState) (e : Event) :
    (∃ neigh active cost, e = .setLink neigh active cost) ∨
    (∃ peers, e = .reconcileNeighbours peers) ∨
    links (step s e).1 = links s := by
  cases hrecompute : recompute s e with
  | some run =>
    obtain ⟨t, now⟩ := run
    rw [(step_of_recompute_some hrecompute).1]
    exact Or.inr (Or.inr
      ((links_computeRoutes t now).trans (links_recompute hrecompute)))
  | none =>
    rcases step_cases_of_recompute_none hrecompute with ⟨_, hs⟩ |
      ⟨now, neigh, adv, _, hs⟩ | ⟨neigh, active, cost, he, _⟩ | ⟨_, _, hs, _⟩ |
      ⟨peers, he, _⟩
    · rw [hs]
      exact Or.inr (Or.inr rfl)
    · rw [hs]
      exact Or.inr (Or.inr
        (links_modifyNeighbour s neigh _ (storeUpdate_link s now adv)))
    · exact Or.inl ⟨neigh, active, cost, he⟩
    · rw [hs]
      exact Or.inr (Or.inr rfl)
    · exact Or.inr (Or.inl ⟨peers, he⟩)

/-- A neighbour was one before, or is a newly configured peer. -/
theorem neighbourId_step (hn : n ∈ (step s e).1.neighbours) :
    (∃ m ∈ s.neighbours, m.id = n.id) ∨ ∃ peers, e = .reconcileNeighbours peers ∧ n.id ∈ peers := by
  rcases links_step_cases s e with ⟨neigh, active, cost, rfl⟩ | ⟨peers, rfl⟩ | hlinks
  · rcases RouterState.mem_modifyNeighbour hn with hold | ⟨m, hm, _, rfl⟩
    · exact Or.inl ⟨n, hold, rfl⟩
    · exact Or.inl ⟨m, hm, rfl⟩
  · exact Or.inr ⟨peers, rfl, (mem_reconcileNeighbours hn).1⟩
  · have hmem : (n.id, n.active) ∈ links s :=
      hlinks ▸ List.mem_map_of_mem (f := fun n : Neighbour => (n.id, n.active)) hn
    obtain ⟨m, hm, heq⟩ := List.mem_map.mp hmem
    exact Or.inl ⟨m, hm, congrArg Prod.fst heq⟩

theorem ids_of_links (h : links t = links s) :
    t.neighbours.map (·.id) = s.neighbours.map (·.id) := by
  simpa [links, Function.comp_def] using congrArg (List.map Prod.fst) h

theorem ids_setLink (s : RouterState) (neigh : NodeId) (active : Bool) (cost : Metric) :
    (setLink s neigh active cost).neighbours.map (·.id) = s.neighbours.map (·.id) :=
  RouterState.map_modifyNeighbour s neigh _ (fun n => n.id) fun _ _ => rfl

theorem distinct_reconcileNeighbours (peers : List NodeId) (h : (s.neighbours.map (·.id)).Nodup) :
    ((reconcileNeighbours s peers).neighbours.map (·.id)).Nodup := by
  have hsorted := List.perm_insertionSort (· ≤ ·)
    (peers.dedup.filter fun id => id ∉ s.neighbours.map (·.id))
  simp only [reconcileNeighbours, List.map_append, List.map_map, Function.comp_def, List.map_id']
  rw [List.nodup_append]
  refine ⟨?_, ?_, ?_⟩
  · exact h.sublist (List.filter_sublist.map _)
  · exact hsorted.nodup_iff.mpr (peers.nodup_dedup.filter _)
  · intro id hkept other hadded
    have hnew := (List.mem_filter.mp (hsorted.mem_iff.mp hadded)).2
    rintro rfl
    obtain ⟨n, hn, rfl⟩ := List.mem_map.mp hkept
    have hold := List.mem_map_of_mem (f := fun n : Neighbour => n.id)
      (List.mem_filter.mp hn).1
    simp only [decide_eq_true_eq] at hnew
    exact hnew hold

/-- No two neighbours get the same id. -/
theorem distinct_step (e : Event) (h : (s.neighbours.map (·.id)).Nodup) :
    ((step s e).1.neighbours.map (·.id)).Nodup := by
  rcases links_step_cases s e with ⟨neigh, active, cost, rfl⟩ | ⟨peers, rfl⟩ | hlinks
  · exact (ids_setLink s neigh active cost).symm ▸ h
  · exact distinct_reconcileNeighbours peers h
  · exact (ids_of_links hlinks).symm ▸ h

/-- The state an event hands to `computeRoutes` has the id and the tunables of the node. -/
theorem recompute_config (h : recompute s e = some (t, now)) :
    t.id = s.id ∧ t.toRouterTunables = s.toRouterTunables := by
  rcases recompute_cases h with ⟨_, rfl⟩ | ⟨fromNeigh, src, reqSeqno, _, selRoute, _, _, rfl, _⟩ |
    ⟨neigh, pfx, _, hack, _⟩ | ⟨_, rfl⟩
  · exact ⟨rfl, rfl⟩
  · rw [answerRequest_state]
    exact ⟨rfl, rfl⟩
  · obtain ⟨_, _, _, _, rfl⟩ := recordAck_eq_some hack
    exact ⟨rfl, rfl⟩
  · exact ⟨rfl, rfl⟩

theorem step_config (s : RouterState) (e : Event) :
    (step s e).1.id = s.id ∧ (step s e).1.toRouterTunables = s.toRouterTunables := by
  cases hrecompute : recompute s e with
  | some run =>
    obtain ⟨t, now⟩ := run
    obtain ⟨hid, htunables⟩ := recompute_config hrecompute
    rw [(step_of_recompute_some hrecompute).1, computeRoutes_state]
    exact ⟨hid, htunables⟩
  | none =>
    rcases step_cases_of_recompute_none hrecompute with ⟨_, hs⟩ |
      ⟨_, _, _, _, hs⟩ | ⟨_, _, _, _, hs⟩ | ⟨_, _, hs, _⟩ | ⟨_, _, hs⟩ <;>
      exact ⟨congrArg (·.id) hs, congrArg (·.toRouterTunables) hs⟩

theorem step_id (s : RouterState) (e : Event) : (step s e).1.id = s.id :=
  (step_config s e).1

theorem step_tunables (s : RouterState) (e : Event) :
    (step s e).1.toRouterTunables = s.toRouterTunables :=
  (step_config s e).2

end Nylon.Core
