import Nylon.Network.Feasibility

/-!
Every event of a node is a `LocalStep`, provided that it does not collect
sources and that the sequence numbers of the sources, of the stored routes and
of the updates it sends lie in their windows.
-/

namespace Nylon.Network

open State Netip Lib Nylon.Core

variable {base : Source → UInt16} {s s' : RouterState} {now : Time}

/-- An event that leaves the source table alone and keeps the routes. -/
theorem LocalStep.frame (hsources : s'.sources = s.sources)
    (hroutes : ∀ p r, s'.routes.lookup p = some r → ∃ r₀,
      s.routes.lookup p = some r₀ ∧ r₀.toPubRoute = r.toPubRoute ∧ r₀.nh = r.nh) :
    LocalStep base s s' [] := by
  have hfd : ∀ src, feasDist base s' src = feasDist base s src := by
    intro src
    rw [feasDist, hsources, feasDist]
  constructor
  case decreasing => exact fun src => (hfd src).le
  case announced => simp
  case selected =>
    intro p r hr _
    obtain ⟨r₀, hr₀, hpub, hnh⟩ := hroutes p r hr
    refine Or.inl ⟨r₀, hr₀, hpub, hnh, ?_⟩
    rw [hfd]
    exact min_le_left _ _

/-- An event that only announces selected routes: the distance of a source falls
at most to the rank of the route selected for it. -/
theorem LocalStep.maintain {updates : List PubRoute}
    (hkeyed : Keyed s) (hroutes : s'.routes = s.routes)
    (hfd : ∀ src, feasDist base s' src = feasDist base s src ∨
      ∃ r, s.routes.lookup src.pfx = some r ∧ r.toSource = src ∧ feasDist base s' src =
          min (feasDist base s src) (routeRank base r.toPubRoute))
    (hannounced : ∀ u ∈ updates, u.metric ≠ INF → feasDist base s' u.toSource ≤ routeRank base u) :
    LocalStep base s s' updates := by
  constructor
  case decreasing =>
    intro src
    rcases hfd src with heq | ⟨r, _, _, heq⟩
    · exact heq.le
    · exact heq.le.trans (min_le_left _ _)
  case announced => exact hannounced
  case selected =>
    intro p r hr _
    rw [hroutes] at hr
    refine Or.inl ⟨r, hr, rfl, rfl, ?_⟩
    rcases hfd r.toSource with heq | ⟨r', hr', _, heq⟩
    · rw [heq]
      exact min_le_left _ _
    · rw [hkeyed.routes p r hr, hr] at hr'
      obtain rfl := Option.some.inj hr'
      exact heq.ge

/-- Two steps in a row. The first must not make up routes or advertisements that
the second could select. -/
theorem LocalStep.trans {s'' : RouterState} {updates updates' : List PubRoute}
    (h : LocalStep base s s' updates) (h' : LocalStep base s' s'' updates')
    (hid : s'.id = s.id)
    (hadvertised : ∀ p adv, s'.advertised.lookup p = some adv → s.advertised.lookup p = some adv)
    (hstored : ∀ id p st', Stored s' id p st' → ∃ st, Stored s id p st ∧ StoredFrom st st') :
    LocalStep base s s'' (updates ++ updates') := by
  constructor
  case decreasing =>
    intro src
    exact (h'.decreasing src).trans (h.decreasing src)
  case announced =>
    intro u hu hfinite
    rcases List.mem_append.mp hu with hu | hu
    · exact (h'.decreasing _).trans (h.announced u hu hfinite)
    · exact h'.announced u hu hfinite
  case selected =>
    intro p r hr hfinite
    rcases h'.selected p r hr hfinite with ⟨r₁, hr₁, hpub, hnh, hmin⟩ |
      ⟨adv, hadv, hnode, hnh⟩ | ⟨st', hst', hstfinite, hsource, hseqno, hle, hlt, hge⟩
    · have hfinite₁ : r₁.metric ≠ INF := by rwa [hpub]
      rcases h.selected p r₁ hr₁ hfinite₁ with ⟨r₀, hr₀, hpub₀, hnh₀, hmin₀⟩ |
        ⟨adv, hadv, hnode, hnh'⟩ | ⟨st, hst, hstfinite, hsource, hseqno, hle, hlt, hge⟩
      · rw [hpub] at hmin₀
        refine Or.inl ⟨r₀, hr₀, hpub₀.trans hpub, hnh₀.trans hnh, ?_⟩
        exact (le_min hmin₀ (min_le_right _ _)).trans hmin
      · rw [hpub] at hnode
        exact Or.inr (Or.inl ⟨adv, hadv, hnode, hnh.symm.trans hnh'⟩)
      · rw [hpub] at hsource hseqno hle hlt hge
        rw [hnh] at hst
        refine Or.inr (Or.inr ⟨st, hst, hstfinite, hsource, hseqno, hle, hlt, ?_⟩)
        refine (le_min hge ?_).trans hmin
        rw [WithTop.coe_le_coe, routeRank, routeRank, hsource]
        exact rank_le_of_metric hseqno.symm hle
    · exact Or.inr (Or.inl ⟨adv, hadvertised p adv hadv, hnode.trans hid, hnh⟩)
    · obtain ⟨st, hst, hfrom⟩ := hstored _ p st' hst'
      have hpub := hfrom.pub_eq hstfinite
      rw [hpub] at hstfinite hsource hseqno hle hlt hge
      exact Or.inr (Or.inr ⟨st, hst, hstfinite, hsource, hseqno, hle,
        hlt.trans_le (h.decreasing _), hge⟩)

theorem maintainFD_within {base : UInt16} {entry : Option FD} {d : FD}
    (hentry : ∀ e ∈ entry, InWindow base e.seqno) (hd : InWindow base d.seqno) :
    InWindow base (maintainFD entry d).seqno := by
  unfold maintainFD
  cases entry with
  | none => exact hd
  | some e =>
    dsimp only
    split_ifs
    · exact hd
    · exact hentry e rfl
    · exact hentry e rfl

/-- The sequence numbers a node has stored for its neighbours. -/
def StoredWithin (base : Source → UInt16) (s : RouterState) : Prop :=
  ∀ id p st, Stored s id p st → Within base st.toPubRoute

theorem feasDist_computeRoutes (hkeyed : Keyed s) (hsources : SourcesWithin base s)
    (hsent : ∀ u ∈ sentUpdates (computeRoutes s now).2, Within base u)
    (src : Source) :
    feasDist base (computeRoutes s now).1 src = feasDist base s src ∨
      ∃ r, selectedRoute s now src.pfx = some r ∧ r.toSource = src ∧
        feasDist base (computeRoutes s now).1 src =
          min (feasDist base s src) (routeRank base r.toPubRoute) := by
  unfold feasDist
  rw [computeRoutes_state, lookup_announcedSources hkeyed]
  cases hsel : selectedRoute s now src.pfx with
  | none => exact Or.inl rfl
  | some r =>
    by_cases hcounts : needsUpdate s (s.routes.lookup src.pfx) r = true ∧ r.toSource = src
    · refine Or.inr ⟨r, rfl, hcounts.2, ?_⟩
      have hwithin := hsent r.toPubRoute
        (mem_sentUpdates_computeRoutes.mpr (Or.inl ⟨_, r, hsel, hcounts.1, rfl⟩))
      unfold Within at hwithin
      rw [hcounts.2] at hwithin
      rw [routeRank, hcounts.2]
      simp only [hcounts, and_self, if_true]
      exact entryRank_maintainFD (fun d hd => hsources src d hd) hwithin
    · simp only [hcounts, if_false]
      exact Or.inl trivial

theorem sourcesWithin_computeRoutes (hkeyed : Keyed s) (hsources : SourcesWithin base s)
    (hsent : ∀ u ∈ sentUpdates (computeRoutes s now).2, Within base u) :
    SourcesWithin base (computeRoutes s now).1 := by
  intro src d hd
  rw [computeRoutes_state, lookup_announcedSources hkeyed] at hd
  split at hd
  · next r hsel =>
    split at hd
    · next hcounts =>
      obtain rfl := Option.some.inj hd
      have hwithin := hsent r.toPubRoute
        (mem_sentUpdates_computeRoutes.mpr (Or.inl ⟨_, r, hsel, hcounts.1, rfl⟩))
      unfold Within at hwithin
      rw [hcounts.2] at hwithin
      exact maintainFD_within (fun e he => hsources src e he) hwithin
    · exact hsources src d hd
  · exact hsources src d hd

theorem localStep_computeRoutes (hkeyed : Keyed s)
    (hsources : SourcesWithin base s) (hstored : StoredWithin base s)
    (hsent : ∀ u ∈ sentUpdates (computeRoutes s now).2, Within base u) :
    LocalStep base s (computeRoutes s now).1
      (sentUpdates (computeRoutes s now).2) := by
  have hfd := feasDist_computeRoutes hkeyed hsources hsent
  constructor
  case decreasing =>
    intro src
    rcases hfd src with heq | ⟨r, _, _, heq⟩
    · exact heq.le
    · exact heq.le.trans (min_le_left _ _)
  case announced =>
    intro u hu hfinite
    have hwithin := hsent u hu
    rcases mem_sentUpdates_computeRoutes.mp hu with
      ⟨p, new, hsel, hneeds, rfl⟩ | ⟨p, old, _, _, rfl⟩
    · have hpfx := hkeyed.selectedRoute hsel
      have hlookup := lookup_announcedSources hkeyed now new.toSource
      rw [hpfx, hsel] at hlookup
      simp only [hneeds, and_self, if_true] at hlookup
      unfold feasDist
      rw [computeRoutes_state, hlookup]
      rw [entryRank_maintainFD (fun d hd => hsources _ d hd) hwithin]
      exact min_le_right _ _
    · exact absurd rfl hfinite
  case selected =>
    intro p r hr hfinite
    rw [lookup_computeRoutes] at hr
    rcases finalRoute_cases hr with ⟨hsel, _⟩ | ⟨_, _, _, _, rfl⟩
    · rcases selectedRoute_cases hsel with
        ⟨adv, hadv, rfl⟩ | ⟨c, hc, rfl, _⟩ | ⟨old, _, _, _, rfl⟩
      · exact Or.inr (Or.inl ⟨adv, hadv, rfl, rfl⟩)
      · obtain ⟨n, hn, st, hst, hcand⟩ := mem_candidates.mp hc
        obtain ⟨htotal, hfeasible, hnh, hsource, hseqno, hmetric, _⟩ :=
          candidate_eq_some hcand
        have hst' : Stored s n.id p st := ⟨n, hn, rfl, hst⟩
        have hstfinite := ((addMetric_ne_INF_iff _ _).mp htotal).2
        have hle : st.metric ≤ c.route.metric := by
          rw [hmetric]
          exact le_addMetric_right _ _
        have hlt := routeRank_lt_feasDist hsources (hstored _ p st hst') hfeasible hstfinite
        rw [← hsource] at hlt
        refine Or.inr (Or.inr ⟨st, by rwa [hnh], hstfinite, hsource, hseqno, hle, hlt, ?_⟩)
        -- the distance stays, or falls to the rank of the selected route
        rcases hfd c.route.toSource with heq | ⟨r', hr', _, heq⟩
        · rw [heq]
          exact hlt.le
        · rw [hkeyed.selectedRoute hsel, hsel] at hr'
          obtain rfl := Option.some.inj hr'
          rw [heq]
          refine le_min hlt.le ?_
          rw [WithTop.coe_le_coe, routeRank, routeRank, hsource]
          exact rank_le_of_metric hseqno.symm hle
      · exact absurd rfl hfinite
    · exact absurd rfl hfinite

theorem feasDist_updateFeasibility {r : PubRoute}
    (hsources : SourcesWithin base s) (hr : Within base r) (src : Source) :
    feasDist base (updateFeasibility s r) src =
      if r.toSource = src then min (feasDist base s src) (routeRank base r)
      else feasDist base s src := by
  unfold feasDist updateFeasibility
  rw [Table.lookup_insert_eq]
  by_cases hsrc : src = r.toSource
  · subst hsrc
    simp only [if_true]
    exact entryRank_maintainFD (fun d hd => hsources _ d hd) hr
  · have hne : r.toSource ≠ src := fun h => hsrc h.symm
    simp [hsrc, hne]

theorem sourcesWithin_updateFeasibility {r : PubRoute}
    (hsources : SourcesWithin base s) (hr : Within base r) :
    SourcesWithin base (updateFeasibility s r) := by
  intro src d hd
  unfold updateFeasibility at hd
  rw [Table.lookup_insert_eq] at hd
  split at hd
  · next heq =>
    obtain rfl := Option.some.inj hd
    rw [heq]
    exact maintainFD_within (fun e he => hsources _ e he) hr
  · exact hsources src d hd

theorem sourcesWithin_answerRequest {fromNeigh : NodeId}
    {src : Source} {reqSeqno : UInt16} {selRoute : SelRoute}
    (hsources : SourcesWithin base s)
    (hsent : ∀ u ∈ sentUpdates (answerRequest s fromNeigh src reqSeqno selRoute).2, Within base u) :
    SourcesWithin base (answerRequest s fromNeigh src reqSeqno selRoute).1 := by
  unfold answerRequest at hsent ⊢
  split
  · next hanswers =>
    rw [if_pos hanswers] at hsent
    exact sourcesWithin_updateFeasibility hsources
      (hsent _ (by simp [sentUpdates, sentUpdate]))
  · exact hsources

theorem localStep_answerRequest {fromNeigh : NodeId}
    {src : Source} {reqSeqno : UInt16} {selRoute : SelRoute} (hkeyed : Keyed s)
    (hsources : SourcesWithin base s)
    (hsel : s.routes.lookup src.pfx = some selRoute)
    (hsent : ∀ u ∈ sentUpdates (answerRequest s fromNeigh src reqSeqno selRoute).2, Within base u) :
    LocalStep base s (answerRequest s fromNeigh src reqSeqno selRoute).1
      (sentUpdates (answerRequest s fromNeigh src reqSeqno selRoute).2) := by
  unfold answerRequest at hsent ⊢
  by_cases hanswers : answersRequest selRoute src reqSeqno = true
  · simp only [hanswers, if_true] at hsent ⊢
    have hwithin : Within base selRoute.toPubRoute :=
      hsent _ (by simp [sentUpdates, sentUpdate])
    have hfd := feasDist_updateFeasibility hsources hwithin
    have hpfx := hkeyed.routes _ _ hsel
    have hroutes : (updateFeasibility s selRoute.toPubRoute).routes = s.routes := rfl
    apply LocalStep.maintain hkeyed hroutes
    · intro src'
      rw [hfd]
      split
      · next heq => exact Or.inr ⟨selRoute, by rw [← heq, hpfx, hsel], heq, rfl⟩
      · exact Or.inl rfl
    · intro u hu _
      obtain rfl : u = selRoute.toPubRoute := by
        simpa [sentUpdates, sentUpdate] using hu
      rw [hfd, if_pos rfl]
      exact min_le_right _ _
  · simp only [hanswers, if_false, Bool.false_eq_true]
    exact LocalStep.frame rfl fun p r hr => ⟨r, hr, rfl, rfl⟩

section AnnounceTable

variable {s : RouterState} {announce : PubRoute → RouterCall}

theorem sourcesWithin_announceTable
    (hannounce : ∀ u, sentUpdate (announce u) = some u) (hkeyed : Keyed s)
    (hsources : SourcesWithin base s)
    (hsent : ∀ u ∈ sentUpdates (announceTable s announce).2, Within base u) :
    SourcesWithin base (announceTable s announce).1 := by
  intro src d hd
  rw [lookup_announceTable hkeyed] at hd
  split at hd
  · next r hr =>
    split at hd
    · next hcounts =>
      obtain rfl := Option.some.inj hd
      have hwithin := hsent r.toPubRoute
        ((mem_sentUpdates_announceTable hannounce).mpr ⟨_, r, hr, rfl⟩)
      unfold Within at hwithin
      rw [hcounts.2] at hwithin
      exact maintainFD_within (fun e he => hsources src e he) hwithin
    · exact hsources src d hd
  · exact hsources src d hd

theorem localStep_announceTable
    (hannounce : ∀ u, sentUpdate (announce u) = some u) (hkeyed : Keyed s)
    (hsources : SourcesWithin base s)
    (hsent : ∀ u ∈ sentUpdates (announceTable s announce).2, Within base u) :
    LocalStep base s (announceTable s announce).1
      (sentUpdates (announceTable s announce).2) := by
  have hfd : ∀ p r, s.routes.lookup p = some r → r.metric ≠ INF →
      feasDist base (announceTable s announce).1 r.toSource =
        min (feasDist base s r.toSource) (routeRank base r.toPubRoute) := by
    intro p r hr hfinite
    have hwithin := hsent r.toPubRoute
      ((mem_sentUpdates_announceTable hannounce).mpr ⟨p, r, hr, rfl⟩)
    unfold feasDist
    rw [lookup_announceTable hkeyed, hkeyed.routes p r hr, hr]
    simp only [hfinite, ne_eq, not_false_eq_true, and_self, if_true]
    exact entryRank_maintainFD (fun d hd => hsources _ d hd) hwithin
  apply LocalStep.maintain hkeyed (by rw [announceTable_state])
  · intro src
    cases hr : s.routes.lookup src.pfx with
    | none =>
      refine Or.inl ?_
      unfold feasDist
      rw [lookup_announceTable hkeyed, hr]
    | some r =>
      by_cases hcounts : r.metric ≠ INF ∧ r.toSource = src
      · refine Or.inr ⟨r, rfl, hcounts.2, ?_⟩
        rw [← hcounts.2]
        exact hfd _ r hr hcounts.1
      · refine Or.inl ?_
        unfold feasDist
        rw [lookup_announceTable hkeyed, hr]
        simp only [hcounts, if_false]
  · intro u hu hfinite
    obtain ⟨p, r, hr, rfl⟩ := (mem_sentUpdates_announceTable hannounce).mp hu
    rw [hfd p r hr hfinite]
    exact min_le_right _ _

end AnnounceTable

/-- `RunGC` removes no entry of the source table. -/
def KeepsSources (s : RouterState) : Event → Prop
  | .runGC now => collectSources (computeRoutes (expireRoutes s now) now).1 =
      (computeRoutes (expireRoutes s now) now).1.sources
  | _ => True

instance (s : RouterState) (e : Event) : Decidable (KeepsSources s e) := by
  unfold KeepsSources
  split <;> infer_instance

theorem storedWithin_recompute {s t : RouterState} {e : Event} {now : Time}
    (h : StoredWithin base s) (hrecompute : recompute s e = some (t, now)) :
    StoredWithin base t := by
  intro id p st' hst'
  obtain ⟨st, hst, hfrom⟩ := stored_recompute hrecompute hst'
  have hwithin := h id p st hst
  unfold Within at hwithin ⊢
  rwa [hfrom.source, hfrom.seqno]

theorem step_eq_computeRoutes {s t : RouterState} {e : Event} {now : Time}
    (hrecompute : recompute s e = some (t, now)) (hkeeps : KeepsSources s e) :
    (step s e).1 = (computeRoutes t now).1 := by
  rcases recompute_cases hrecompute with ⟨rfl, rfl⟩ |
    ⟨_, _, _, _, _, _, _, _, hout⟩ | ⟨_, _, _, _, hout⟩ | ⟨rfl, rfl⟩
  · rfl
  · rw [hout]
  · rw [hout]
  · simp only [step, runGC]
    rw [show collectSources _ = _ from hkeeps]

/-- What an event does before it runs `computeRoutes`. -/
theorem localStep_before {s t : RouterState} {e : Event} {now : Time}
    (hrecompute : recompute s e = some (t, now)) (hkeyed : Keyed s)
    (hsources : SourcesWithin base s)
    (hsent : ∀ u ∈ sentUpdates (step s e).2, Within base u) :
    ∃ updates, LocalStep base s t updates ∧ SourcesWithin base t ∧
      sentUpdates (step s e).2 = updates ++ sentUpdates (computeRoutes t now).2 := by
  rcases recompute_cases hrecompute with ⟨rfl, rfl⟩ |
    ⟨fromNeigh, src, reqSeqno, _, selRoute, _, hsel, rfl, hout⟩ |
    ⟨neigh, pfx, rfl, hack, hout⟩ | ⟨rfl, rfl⟩
  · exact ⟨[], .frame rfl fun p r hr => ⟨r, hr, rfl, rfl⟩, hsources, rfl⟩
  · rw [hout, sentUpdates_append] at hsent
    have hanswer : ∀ u ∈ sentUpdates
        (answerRequest s fromNeigh src reqSeqno selRoute).2, Within base u :=
      fun u hu => hsent u (List.mem_append_left _ hu)
    have hstep := localStep_answerRequest hkeyed hsources hsel hanswer
    refine ⟨_, ⟨hstep.decreasing, hstep.announced, hstep.selected⟩,
      sourcesWithin_answerRequest hsources hanswer, ?_⟩
    rw [hout, sentUpdates_append]
  · obtain ⟨rt, hrt, _, _, rfl⟩ := recordAck_eq_some hack
    refine ⟨[], .frame rfl fun p r hr => ?_, hsources, by rw [hout]; rfl⟩
    simp only [Table.lookup_insert_eq] at hr
    split at hr
    · next heq =>
      obtain rfl := Option.some.inj hr
      exact ⟨rt, by rw [heq, hrt], rfl, rfl⟩
    · exact ⟨r, hr, rfl, rfl⟩
  · exact ⟨[], .frame rfl fun p r hr => ⟨r, hr, rfl, rfl⟩, hsources, rfl⟩

theorem id_recompute {s t : RouterState} {e : Event} {now : Time}
    (hrecompute : recompute s e = some (t, now)) : t.id = s.id := by
  have hstep := step_id s e
  rwa [(step_of_recompute_some hrecompute).1, computeRoutes_state] at hstep

/-- Every event is a local step and keeps the source table in its window. -/
theorem localStep_step {s : RouterState} {e : Event} (hkeyed : Keyed s)
    (hsources : SourcesWithin base s) (hstored : StoredWithin base s)
    (hkeeps : KeepsSources s e)
    (hsent : ∀ u ∈ sentUpdates (step s e).2, Within base u) :
    LocalStep base s (step s e).1 (sentUpdates (step s e).2) ∧ SourcesWithin base (step s e).1 := by
  cases hrecompute : recompute s e with
  | some run =>
    obtain ⟨t, now⟩ := run
    obtain ⟨updates, hbefore, ht, hupdates⟩ :=
      localStep_before hrecompute hkeyed hsources hsent
    rw [hupdates] at hsent ⊢
    rw [step_eq_computeRoutes hrecompute hkeeps]
    have hsent' : ∀ u ∈ sentUpdates (computeRoutes t now).2, Within base u :=
      fun u hu => hsent u (List.mem_append_right _ hu)
    have htkeyed := hkeyed.recompute hrecompute
    refine ⟨hbefore.trans (localStep_computeRoutes htkeyed ht
      (storedWithin_recompute hstored hrecompute) hsent') (id_recompute hrecompute)
      (fun p adv => advertised_recompute hrecompute)
      (fun id p st' => stored_recompute hrecompute), ?_⟩
    exact sourcesWithin_computeRoutes htkeyed ht hsent'
  | none =>
    have hquiet : (step s e).1.sources = s.sources → sentUpdates (step s e).2 = [] →
        LocalStep base s (step s e).1 (sentUpdates (step s e).2) ∧
          SourcesWithin base (step s e).1 := by
      intro hsame hnone
      rw [hnone]
      refine ⟨.frame hsame fun p r hr => ?_, fun src d hd => ?_⟩
      · rw [(step_of_recompute_none hrecompute).1] at hr
        exact ⟨r, hr, rfl, rfl⟩
      · rw [hsame] at hd
        exact hsources src d hd
    cases e with
    | neighbourUpdate now neigh adv =>
      apply hquiet
      · rcases (handleNeighbourUpdate_cases s now neigh adv).1 with h | h
        · rw [step, h]
        · rw [step, h]
          rfl
      · refine List.filterMap_eq_nil_iff.mpr fun call hcall => ?_
        rcases (handleNeighbourUpdate_cases s now neigh adv).2 call hcall with
          ⟨rfl, _⟩ | rfl <;> rfl
    | computeRoutes now => cases hrecompute
    | fullTableUpdate =>
      exact ⟨localStep_announceTable (fun _ => rfl) hkeyed hsources hsent,
        sourcesWithin_announceTable (fun _ => rfl) hkeyed hsources hsent⟩
    | pushFullTable neigh =>
      exact ⟨localStep_announceTable (fun _ => rfl) hkeyed hsources hsent,
        sourcesWithin_announceTable (fun _ => rfl) hkeyed hsources hsent⟩
    | seqnoRequest now fromNeigh src reqSeqno hopCnt =>
      rcases handleSeqnoRequest_cases s now fromNeigh src reqSeqno hopCnt with
        ⟨t, _, ht, _⟩ | ⟨_, ⟨_, hout⟩ | ⟨selRoute, fwd, hsel, hout, hfwd⟩⟩
      · simp [recompute, ht] at hrecompute
      · apply hquiet <;> simp [step, hout, sentUpdates]
      · have hnone : sentUpdates fwd = [] :=
          List.filterMap_eq_nil_iff.mpr fun call hcall => by
            obtain ⟨_, _, rfl⟩ := hfwd call hcall
            rfl
        simp only [step, hout, sentUpdates_append, hnone, List.append_nil]
          at hsent ⊢
        exact ⟨localStep_answerRequest hkeyed hsources hsel hsent,
          sourcesWithin_answerRequest hsources hsent⟩
    | ackRetract now neigh pfx =>
      simp only [recompute, Option.map_eq_none_iff] at hrecompute
      apply hquiet <;> simp [step, handleAckRetract, hrecompute, sentUpdates]
    | solveStarvation =>
      refine hquiet rfl (List.filterMap_eq_nil_iff.mpr fun call hcall => ?_)
      obtain ⟨_, _, _, rfl⟩ := mem_solveStarvation_calls s call hcall
      rfl
    | runGC now => cases hrecompute
    | setLink neigh active cost => exact hquiet rfl rfl
    | advertise pfx adv => exact hquiet rfl rfl
    | withdraw pfx => exact hquiet rfl rfl
    | passiveClient now pfx node hold metricFn =>
      refine hquiet ?_ rfl
      simp only [step, updatePassiveClient]
      split <;> rfl
    | reconcileNeighbours peers => exact hquiet rfl rfl

end Nylon.Network
