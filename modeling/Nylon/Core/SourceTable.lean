import Nylon.Core.Announce

/-!
The source table over whole runs. An entry is the distance of an update the node
has sent, so what holds of all updates that count holds of all entries. The code
wants only finite updates to count (3.7.3 of the protocol), and `announceTable`
and `answerRequest` see to that. `computeRoutes` does not: an own prefix that is
unreachable is announced like any other new entry, and its retraction is written
to the table.
-/

namespace Nylon.Core

open State Netip Lib

variable {s : RouterState} {src : Source} {d : FD}

/-- The distance after an update is the one before or that of the update. -/
theorem maintainFD_cases (entry : Option FD) (adv : FD) :
    entry = some (maintainFD entry adv) ∨ maintainFD entry adv = adv := by
  unfold maintainFD
  cases entry with
  | none => exact Or.inr rfl
  | some d =>
    dsimp only
    split
    · exact Or.inr rfl
    · split
      · next heq =>
        obtain ⟨seqno, metric⟩ := d
        obtain ⟨rfl, _⟩ := heq
        exact Or.inr rfl
      · exact Or.inl rfl

/-- A walk over routes that maintains the feasibility distances of some of them.
A source is only affected by the route of its own prefix. -/
theorem lookup_maintained (m : Table Prefix SelRoute) (sources : Table Source FD)
    (counts : Prefix → SelRoute → Prop) [∀ p r, Decidable (counts p r)]
    (hkeyed : ∀ p r, m.lookup p = some r → r.pfx = p) (src : Source) :
    (m.range (fun sources p r => if counts p r then
        sources.insert r.toSource (maintainFD (sources.lookup r.toSource) r.toFD)
      else sources) sources).lookup src =
      match m.lookup src.pfx with
      | some r => if counts src.pfx r ∧ r.toSource = src then
          some (maintainFD (sources.lookup src) r.toFD) else sources.lookup src
      | none => sources.lookup src := by
  refine (Table.range_pointwise m _ sources (AList.lookup src) src.pfx
    (fun r cur => if counts src.pfx r ∧ r.toSource = src then
      some (maintainFD cur r.toFD) else cur) ?_ ?_).trans ?_
  · intro table r _
    by_cases hcounts : counts src.pfx r
    · by_cases hsrc : r.toSource = src
      · subst hsrc
        simp [hcounts]
      · have hne : src ≠ r.toSource := fun h => hsrc h.symm
        simp [hcounts, hsrc, hne, AList.lookup_insert_ne]
    · simp [hcounts]
  · intro table p r hr hne
    split
    · apply AList.lookup_insert_ne
      rintro rfl
      exact hne (hkeyed p r hr).symm
    · rfl
  · cases m.lookup src.pfx <;> rfl

theorem lookup_announcedSources (hkeyed : Keyed s) (now : Time) (src : Source) :
    (announcedSources s now).lookup src =
      match selectedRoute s now src.pfx with
      | some r =>
        if needsUpdate s (s.routes.lookup src.pfx) r ∧ r.toSource = src then
          some (maintainFD (s.sources.lookup src) r.toFD)
        else s.sources.lookup src
      | none => s.sources.lookup src := by
  rw [← lookup_newTable]
  apply lookup_maintained (newTable s now) s.sources
    (fun p r => needsUpdate s (s.routes.lookup p) r = true)
  intro p r hr
  rw [lookup_newTable] at hr
  exact hkeyed.selectedRoute hr

theorem lookup_announceTable {announce : PubRoute → RouterCall} (hkeyed : Keyed s) (src : Source) :
    (announceTable s announce).1.sources.lookup src =
      match s.routes.lookup src.pfx with
      | some r => if r.metric ≠ INF ∧ r.toSource = src then
          some (maintainFD (s.sources.lookup src) r.toFD) else s.sources.lookup src
      | none => s.sources.lookup src := by
  rw [announceTable_state]
  exact lookup_maintained s.routes s.sources (fun _ r => r.metric ≠ INF) hkeyed.routes src

theorem lookup_collectSources
    (h : (collectSources s).lookup src = some d) : s.sources.lookup src = some d := by
  refine Table.range_invariant s.sources _ s.sources
    (fun table : Table Source FD =>
      ∀ src d, table.lookup src = some d → s.sources.lookup src = some d)
    (fun _ _ h => h) ?_ src d h
  intro table k _ _ hinv src d hd
  split at hd
  · exact hinv src d hd
  · rw [Table.lookup_erase_eq] at hd
    split at hd
    · cases hd
    · exact hinv src d hd

/-- The entries of one table that is updated for a route: old ones, and the
distance of the route. -/
theorem lookup_updateFeasibility {r : PubRoute}
    (h : (updateFeasibility s r).sources.lookup src = some d) :
    s.sources.lookup src = some d ∨ (src = r.toSource ∧ d = r.toFD) := by
  simp only [updateFeasibility, Table.lookup_insert_eq] at h
  split at h
  · next heq =>
    obtain rfl := Option.some.inj h
    rw [heq]
    exact (maintainFD_cases (s.sources.lookup r.toSource) r.toFD).imp_right fun heq => ⟨rfl, heq⟩
  · exact Or.inl h

/-- What holds of all entries and of the distances of all finite selected routes
holds of the entries after an answer to a seqno request. -/
theorem sources_answerRequest {Q : Source → FD → Prop}
    (hsources : ∀ src d, s.sources.lookup src = some d → Q src d)
    {fromNeigh : NodeId} {req : Source} {reqSeqno : UInt16} {selRoute : SelRoute}
    (hroute : selRoute.metric ≠ INF → Q selRoute.toSource selRoute.toFD)
    (h : (answerRequest s fromNeigh req reqSeqno selRoute).1.sources.lookup src = some d) :
    Q src d := by
  unfold answerRequest at h
  split at h
  · next hanswers =>
    rcases lookup_updateFeasibility h with hold | ⟨rfl, rfl⟩
    · exact hsources src d hold
    · simp only [answersRequest, Bool.and_eq_true, bne_iff_ne] at hanswers
      exact hroute hanswers.1
  · exact hsources src d h

section Invariant

variable {s : RouterState} {Q : Source → FD → Prop} {src : Source} {d : FD}

/-- The entries before the run of `computeRoutes` that an event makes. -/
theorem sources_recompute (hsources : ∀ src d, s.sources.lookup src = some d → Q src d)
    (hroutes : ∀ p r, s.routes.lookup p = some r → r.metric ≠ INF → Q r.toSource r.toFD)
    {e : Event} {t : RouterState} {now : Time}
    (hrecompute : recompute s e = some (t, now))
    (hd : t.sources.lookup src = some d) : Q src d := by
  rcases recompute_cases hrecompute with ⟨_, rfl⟩ |
    ⟨fromNeigh, req, reqSeqno, _, selRoute, _, hsel, rfl, _⟩ |
    ⟨neigh, pfx, _, hack, _⟩ | ⟨_, rfl⟩
  · exact hsources src d hd
  · exact sources_answerRequest hsources (hroutes req.pfx selRoute hsel) hd
  · obtain ⟨_, _, _, _, rfl⟩ := recordAck_eq_some hack
    exact hsources src d hd
  · exact hsources src d hd

theorem sources_computeRoutes (hkeyed : Keyed s)
    (hsources : ∀ src d, s.sources.lookup src = some d → Q src d) {now : Time}
    (hnew : ∀ p r, selectedRoute s now p = some r →
      needsUpdate s (s.routes.lookup p) r = true → Q r.toSource r.toFD)
    (hd : (computeRoutes s now).1.sources.lookup src = some d) :
    Q src d := by
  rw [computeRoutes_state, lookup_announcedSources hkeyed] at hd
  split at hd
  · next r hsel =>
    split at hd
    · next hneeds =>
      obtain rfl := Option.some.inj hd
      rcases maintainFD_cases (s.sources.lookup src) r.toFD with hold | heq
      · exact hsources src _ hold
      · rw [heq, ← hneeds.2]
        exact hnew _ r hsel hneeds.1
    · exact hsources src d hd
  · exact hsources src d hd

/-- What holds of all entries, of the distances of all finite selected routes and
of all routes a run announces holds of the entries after an event. -/
theorem sources_step (hkeyed : Keyed s)
    (hsources : ∀ src d, s.sources.lookup src = some d → Q src d)
    (hroutes : ∀ p r, s.routes.lookup p = some r → r.metric ≠ INF → Q r.toSource r.toFD)
    {e : Event}
    (hnew : ∀ t now, recompute s e = some (t, now) → ∀ p r,
      selectedRoute t now p = some r → needsUpdate t (t.routes.lookup p) r = true →
        Q r.toSource r.toFD)
    (hd : (step s e).1.sources.lookup src = some d) : Q src d := by
  have htable : ∀ announce : PubRoute → RouterCall,
      (announceTable s announce).1.sources.lookup src = some d → Q src d := by
    intro announce hd
    rw [lookup_announceTable hkeyed] at hd
    split at hd
    · next r hr =>
      split at hd
      · next hcounts =>
        obtain rfl := Option.some.inj hd
        rcases maintainFD_cases (s.sources.lookup src) r.toFD with hold | heq
        · exact hsources src _ hold
        · rw [heq, ← hcounts.2]
          exact hroutes _ r hr hcounts.1
      · exact hsources src d hd
    · exact hsources src d hd
  cases hrecompute : recompute s e with
  | some input =>
    obtain ⟨t, now⟩ := input
    have hrun : (computeRoutes t now).1.sources.lookup src = some d → Q src d :=
      sources_computeRoutes (hkeyed.recompute hrecompute)
        (fun _ _ => sources_recompute hsources hroutes hrecompute)
        (hnew t now hrecompute)
    rcases recompute_cases hrecompute with ⟨rfl, rfl⟩ |
      ⟨_, _, _, _, _, _, _, _, hout⟩ | ⟨_, _, _, _, hout⟩ | ⟨rfl, rfl⟩
    · exact hrun hd
    · rw [hout] at hd
      exact hrun hd
    · rw [hout] at hd
      exact hrun hd
    · exact hrun (lookup_collectSources hd)
  | none =>
    cases e with
    | fullTableUpdate => exact htable _ hd
    | pushFullTable neigh => exact htable _ hd
    | seqnoRequest now fromNeigh req reqSeqno hopCnt =>
      rcases handleSeqnoRequest_cases s now fromNeigh req reqSeqno hopCnt with
        ⟨t, _, ht, _⟩ | ⟨_, ⟨_, hout⟩ | ⟨selRoute, _, hsel, hout, _⟩⟩
      · simp [recompute, ht] at hrecompute
      · rw [step, hout] at hd
        exact hsources src d hd
      · rw [step, hout] at hd
        exact sources_answerRequest hsources (hroutes req.pfx selRoute hsel) hd
    | neighbourUpdate now neigh adv =>
      rcases (handleNeighbourUpdate_cases s now neigh adv).1 with hsame | hstored
      · rw [step, hsame] at hd
        exact hsources src d hd
      · rw [step, hstored] at hd
        exact hsources src d hd
    | ackRetract now neigh pfx =>
      simp only [recompute, Option.map_eq_none_iff] at hrecompute
      simp only [step, handleAckRetract, hrecompute] at hd
      exact hsources src d hd
    | passiveClient now pfx node hold metricFn =>
      simp only [step, updatePassiveClient] at hd
      split at hd <;> exact hsources src d hd
    | computeRoutes now => cases hrecompute
    | runGC now => cases hrecompute
    | _ => exact hsources src d hd

end Invariant

/-- No entry of the source table comes from a retraction. -/
def SourcesFinite (s : RouterState) : Prop :=
  ∀ src d, s.sources.lookup src = some d → d.metric ≠ INF

instance (s : RouterState) : Decidable (SourcesFinite s) :=
  inferInstanceAs (Decidable (∀ src d, s.sources.lookup src = some d → _))

/-- The state in which an event sends its updates, with the state and the calls
this leaves. A seqno request is answered before its run of `computeRoutes`, with
a finite route, and sources are collected after it. -/
def sending (s : RouterState) (e : Event) : RouterState × Out :=
  match recompute s e with
  | some (t, now) => (t, computeRoutes t now)
  | none => (s, step s e)

/-- The retractions an event sends leave the entries of their sources as they are:
none is created and none is changed. -/
def RetractionsInert (s : RouterState) (e : Event) : Prop :=
  ∀ u ∈ sentUpdates (sending s e).2.2, u.metric = INF →
    (sending s e).2.1.sources.lookup u.toSource = (sending s e).1.sources.lookup u.toSource

instance (s : RouterState) (e : Event) : Decidable (RetractionsInert s e) :=
  inferInstanceAs (Decidable (∀ u ∈ _, _))

/-- Every own prefix that is unreachable when the routes are computed is known to
be the node's own, with its present seqno. -/
def UnhealthyKnown (s : RouterState) : Prop :=
  ∀ p adv, s.advertised.lookup p = some adv → advMetric adv = INF →
    (s.routes.lookup p).any fun old => old.nodeId = s.id ∧ old.seqno = s.getSeqno p

instance (s : RouterState) : Decidable (UnhealthyKnown s) :=
  inferInstanceAs (Decidable (∀ p adv, s.advertised.lookup p = some adv → _))

def AnnouncesHealthy (s : RouterState) (e : Event) : Prop :=
  ∀ input ∈ recompute s e, UnhealthyKnown input.1

instance (s : RouterState) (e : Event) : Decidable (AnnouncesHealthy s e) :=
  inferInstanceAs (Decidable (∀ input ∈ recompute s e, _))

/-- An unreachable entry of the new table is then no news. -/
theorem UnhealthyKnown.not_needsUpdate {s : RouterState} (h : UnhealthyKnown s)
    {now : Time} {p : Prefix} {r : SelRoute} (hsel : selectedRoute s now p = some r)
    (hINF : r.metric = INF) : needsUpdate s (s.routes.lookup p) r = false := by
  rcases selectedRoute_cases hsel with
    ⟨adv, hadv, rfl⟩ | ⟨c, hc, rfl, _⟩ | ⟨old, hold, _, _, rfl⟩
  · have hknown := h p adv hadv hINF
    cases hold : s.routes.lookup p with
    | none => simp [hold] at hknown
    | some old =>
      simp only [hold, Option.any_some, decide_eq_true_eq] at hknown
      simp [needsUpdate, advertisedRoute, hknown.1, hknown.2, show advMetric adv = INF from hINF]
  · obtain ⟨n, _, st, _, hcand⟩ := mem_candidates.mp hc
    obtain ⟨hfinite, _, _, _, _, hmetric, _⟩ := candidate_eq_some hcand
    exact absurd (hmetric.symm.trans hINF) hfinite
  · simp [hold, needsUpdate]

/-- Without news of unreachable prefixes, `computeRoutes` sends retractions only
for routes it loses, and these do not touch the table. -/
theorem retractionsInert_computeRoutes {s : RouterState} (hkeyed : Keyed s)
    (hknown : UnhealthyKnown s) {now : Time} {u : PubRoute}
    (hu : u ∈ sentUpdates (computeRoutes s now).2) (hINF : u.metric = INF) :
    (computeRoutes s now).1.sources.lookup u.toSource = s.sources.lookup u.toSource := by
  rcases mem_sentUpdates_computeRoutes.mp hu with
    ⟨p, new, hsel, hneeds, rfl⟩ | ⟨p, old, hold, hlost, rfl⟩
  · rw [hknown.not_needsUpdate hsel hINF] at hneeds
    cases hneeds
  · obtain rfl := hkeyed.routes p old hold
    rw [computeRoutes_state, lookup_announcedSources hkeyed]
    dsimp only
    cases hsel : selectedRoute s now old.pfx with
    | none => rfl
    | some new =>
      have hnew : new.metric = INF := by
        simp only [losesRoute, hsel, Option.all_some, Bool.and_eq_true, beq_iff_eq] at hlost
        exact hlost.2
      simp [hknown.not_needsUpdate hsel hnew]

/-- The other updates of an event are the announced entries of its route table,
and the table walks skip unreachable ones. -/
theorem retractionsInert_of_recompute_none {s : RouterState} (hkeyed : Keyed s)
    {e : Event} (h : recompute s e = none) {u : PubRoute}
    (hu : u ∈ sentUpdates (step s e).2) (hINF : u.metric = INF) :
    (step s e).1.sources.lookup u.toSource = s.sources.lookup u.toSource := by
  have htable : ∀ announce : PubRoute → RouterCall,
      (∀ u, sentUpdate (announce u) = some u) →
      u ∈ sentUpdates (announceTable s announce).2 →
      (announceTable s announce).1.sources.lookup u.toSource = s.sources.lookup u.toSource := by
    intro announce hannounce hu
    obtain ⟨p, r, hr, rfl⟩ := (mem_sentUpdates_announceTable hannounce).mp hu
    obtain rfl := hkeyed.routes p r hr
    rw [lookup_announceTable hkeyed]
    simp only [hr, show r.metric = INF from hINF, ne_eq, not_true, false_and, if_false]
  obtain ⟨call, hcall, hsent⟩ := List.mem_filterMap.mp hu
  cases e with
  | fullTableUpdate => exact htable _ (fun _ => rfl) hu
  | pushFullTable neigh => exact htable _ (fun _ => rfl) hu
  | neighbourUpdate now neigh adv =>
    rcases (handleNeighbourUpdate_cases s now neigh adv).2 call hcall with
      ⟨rfl, _⟩ | rfl <;> cases hsent
  | seqnoRequest now fromNeigh req reqSeqno hopCnt =>
    rcases handleSeqnoRequest_cases s now fromNeigh req reqSeqno hopCnt with
      ⟨t, _, ht, _⟩ | ⟨_, ⟨_, hout⟩ | ⟨selRoute, forwarded, _, hout, hforwarded⟩⟩
    · simp [recompute, ht] at h
    · simp [step, hout] at hcall
    · rw [step, hout] at hcall
      rcases List.mem_append.mp hcall with hcall | hcall
      · unfold answerRequest at hcall
        split at hcall
        · next hanswers =>
          rw [List.mem_singleton.mp hcall] at hsent
          obtain rfl := Option.some.inj hsent
          simp only [answersRequest, Bool.and_eq_true, bne_iff_ne] at hanswers
          exact absurd hINF hanswers.1
        · cases hcall
      · obtain ⟨_, _, rfl⟩ := hforwarded call hcall
        cases hsent
  | ackRetract now neigh pfx =>
    simp only [recompute, Option.map_eq_none_iff] at h
    simp [step, handleAckRetract, h] at hcall
  | solveStarvation =>
    obtain ⟨_, _, _, rfl⟩ := mem_solveStarvation_calls s call hcall
    cases hsent
  | computeRoutes now => cases h
  | runGC now => cases h
  | _ => cases hcall

theorem retractionsInert_step {s : RouterState} (hkeyed : Keyed s) {e : Event}
    (hknown : AnnouncesHealthy s e) : RetractionsInert s e := by
  unfold RetractionsInert sending
  cases hrecompute : recompute s e with
  | none =>
    intro u hu hINF
    exact retractionsInert_of_recompute_none hkeyed hrecompute hu hINF
  | some input =>
    obtain ⟨t, now⟩ := input
    intro u hu hINF
    exact retractionsInert_computeRoutes (hkeyed.recompute hrecompute)
      (hknown (t, now) hrecompute) hu hINF

theorem sourcesFinite_step {s : RouterState} (hkeyed : Keyed s)
    (hfinite : SourcesFinite s) {e : Event} (hknown : AnnouncesHealthy s e) :
    SourcesFinite (step s e).1 := by
  intro src d hd
  refine sources_step (Q := fun _ d => d.metric ≠ INF) hkeyed hfinite
    (fun _ _ _ hfinite => hfinite) ?_ hd
  intro t now hrecompute p r hsel hneeds hINF
  rw [(hknown (t, now) hrecompute).not_needsUpdate hsel hINF] at hneeds
  cases hneeds

/-- In every run in which no news of an unreachable own prefix is announced, the
source table has finite distances only and retractions do not touch it. -/
theorem retractions_inert (tunables : RouterTunables) (id : NodeId) (events : List Event)
    (hknown : Along AnnouncesHealthy (RouterState.init tunables id) events) :
    SourcesFinite (run (RouterState.init tunables id) events) ∧
      ∀ front e back, events = front ++ e :: back →
        RetractionsInert (run (RouterState.init tunables id) front) e := by
  have hinv : ∀ events, Along AnnouncesHealthy (RouterState.init tunables id) events →
      Keyed (run (RouterState.init tunables id) events) ∧
        SourcesFinite (run (RouterState.init tunables id) events) := by
    intro events hknown
    have hstart : Keyed (RouterState.init tunables id) ∧
        SourcesFinite (RouterState.init tunables id) :=
      ⟨Keyed.init tunables id, by simp [SourcesFinite, RouterState.init]⟩
    exact Transitions.run_invariant
      (fun s e (h : Keyed s ∧ SourcesFinite s) hk =>
        ⟨h.1.step e, sourcesFinite_step h.1 h.2 hk⟩) hstart hknown
  refine ⟨(hinv events hknown).2, ?_⟩
  rintro front e back rfl
  obtain ⟨hfront, hback⟩ := Transitions.along_append.mp hknown
  exact retractionsInert_step (hinv front hfront).1 hback.1

/-- A healthy own prefix becomes unreachable: its retraction is sent and the
distance of its last finite update stays. -/
theorem retractions_inert_unhealthy : let p : Prefix := ⟨.v4 0x0A000100, 24, by decide⟩
    let healthy : Advertisement := ⟨"a", 1000, false, some 0⟩
    let s := RouterState.init defaultRouterTunables "a"
    let events := [Event.advertise p healthy, .computeRoutes 1,
      .advertise p {healthy with metricFn := some INF}, .computeRoutes 2]
    sentUpdates (step (run s (events.take 3)) (.computeRoutes 2)).2 = [⟨⟨"a", p⟩, ⟨0, INF⟩⟩] ∧
      (run s events).sources.lookup ⟨"a", p⟩ = some ⟨0, 0⟩ ∧
      SourcesFinite (run s events) ∧
      RetractionsInert (run s (events.take 3)) (.computeRoutes 2) := by
  intro p healthy s events
  have hrun := retractions_inert defaultRouterTunables "a" events (by decide +kernel)
  exact ⟨by decide +kernel, by decide +kernel, hrun.1, hrun.2 _ _ [] rfl⟩

/-- An own prefix that is unreachable from the start leaves its retraction in the
source table. -/
theorem retraction_shapes_distance : let p : Prefix := ⟨.v4 0x0A000100, 24, by decide⟩
    let s := run (RouterState.init defaultRouterTunables "a")
      [.advertise p ⟨"a", 1000, false, some INF⟩]
    ¬ SourcesFinite (step s (.computeRoutes 1)).1 ∧ ¬ RetractionsInert s (.computeRoutes 1) := by
  decide +kernel

end Nylon.Core
