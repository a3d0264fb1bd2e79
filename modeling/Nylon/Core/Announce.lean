import Nylon.Core.StepSpec

/-!
What a node tells its neighbours. The tables are keyed by the prefix of the
route they hold, so that an update for a prefix can be traced to the entry for
that prefix; every call an event makes on its neighbours is an announcement of
an entry, an acknowledgement of a received retraction, or a seqno request.
-/

namespace Nylon.Core

open State Netip Lib

variable {s : RouterState} {now : Time} {p : Prefix} {r : SelRoute} {e : Event} {u : PubRoute}

/-- Every table stores a route under the prefix of its source. -/
structure Keyed (s : RouterState) : Prop where
  routes : ∀ p r, s.routes.lookup p = some r → r.pfx = p
  stored : ∀ id p st, Stored s id p st → st.pfx = p

theorem Keyed.selectedRoute (h : Keyed s) (hsel : selectedRoute s now p = some r) : r.pfx = p := by
  rcases selectedRoute_cases hsel with
    ⟨adv, _, rfl⟩ | ⟨c, hc, rfl, _⟩ | ⟨old, hold, _, _, rfl⟩
  · rfl
  · obtain ⟨n, hn, st, hst, hcand⟩ := mem_candidates.mp hc
    rw [(candidate_eq_some hcand).2.2.2.1]
    exact h.stored n.id p st ⟨n, hn, rfl, hst⟩
  · exact h.routes p old hold

theorem Keyed.finalRoute (h : Keyed s) (hfinal : finalRoute s now p = some r) : r.pfx = p := by
  rcases finalRoute_cases hfinal with ⟨hsel, _⟩ | ⟨old, hold, _, _, rfl⟩
  · exact h.selectedRoute hsel
  · exact h.routes p old hold

theorem Keyed.recompute {t : RouterState} (h : Keyed s)
    (hrecompute : recompute s e = some (t, now)) : Keyed t := by
  constructor
  case routes =>
    intro p r hr
    have hsame := routes_recompute hrecompute p
    rw [hr, Option.map_some] at hsame
    obtain ⟨r₀, hr₀, heq⟩ := Option.map_eq_some_iff.mp hsame.symm
    simp only [Prod.mk.injEq] at heq
    rw [← heq.1]
    exact h.routes p r₀ hr₀
  case stored =>
    intro id p st hst
    obtain ⟨st₀, hst₀, hfrom⟩ := stored_recompute hrecompute hst
    rw [hfrom.source]
    exact h.stored id p st₀ hst₀

theorem Keyed.step (h : Keyed s) (e : Event) : Keyed (step s e).1 := by
  constructor
  case routes =>
    intro p r hr
    rcases route_step hr with hold | ⟨t, now, hrecompute, hfinal⟩
    · exact h.routes p r hold
    · exact (h.recompute hrecompute).finalRoute hfinal
  case stored =>
    intro id p st hst
    rcases stored_step hst with ⟨st₀, hst₀, hfrom⟩ | ⟨rfl, _, _⟩
    · rw [hfrom.source]
      exact h.stored id p st₀ hst₀
    · rfl

theorem Keyed.init (tunables : RouterTunables) (id : NodeId) :
    Keyed (RouterState.init tunables id) := by
  constructor
  case routes => simp [RouterState.init]
  case stored => simp [RouterState.init, Stored]

theorem Keyed.run (tunables : RouterTunables) (id : NodeId) (events : List Event) :
    Keyed (run (RouterState.init tunables id) events) :=
  Transitions.run_invariant (fun s e (h : Keyed s) _ => h.step e) (Keyed.init tunables id)
    Transitions.along_true

/-- The updates among the calls of an event. -/
def sentUpdate : RouterCall → Option PubRoute
  | .sendRouteUpdate _ u => some u
  | .broadcastSendRouteUpdate u => some u
  | _ => none

def sentUpdates (calls : List RouterCall) : List PubRoute :=
  calls.filterMap sentUpdate

theorem sentUpdates_append (calls calls' : List RouterCall) :
    sentUpdates (calls ++ calls') = sentUpdates calls ++ sentUpdates calls' :=
  List.filterMap_append

theorem mem_sentUpdates_computeRoutes : u ∈ sentUpdates (computeRoutes s now).2 ↔
      (∃ p new, selectedRoute s now p = some new ∧
        needsUpdate s (s.routes.lookup p) new = true ∧ u = new.toPubRoute) ∨
      (∃ p old, s.routes.lookup p = some old ∧ losesRoute s now p = true ∧
        u = {old.toPubRoute with metric := INF}) := by
  simp only [sentUpdates, List.mem_filterMap, mem_computeRoutes_calls]
  constructor
  · rintro ⟨call, ⟨p, new, hsel, hcall⟩ | ⟨p, old, hold, hcall⟩, hu⟩
    · rcases List.mem_append.mp hcall with hcall | hcall
      · split at hcall
        · rw [List.mem_singleton.mp hcall] at hu
          cases hu
        · cases hcall
      · split at hcall
        · next hneeds =>
          rw [List.mem_singleton.mp hcall] at hu
          exact Or.inl ⟨p, new, hsel, hneeds, (Option.some.inj hu).symm⟩
        · cases hcall
    · unfold retractions at hcall
      split at hcall
      · next hlost =>
        rcases List.mem_cons.mp hcall with rfl | hcall
        · exact Or.inr ⟨p, old, hold, hlost, (Option.some.inj hu).symm⟩
        · rw [List.mem_singleton.mp hcall] at hu
          cases hu
      · cases hcall
  · rintro (⟨p, new, hsel, hneeds, rfl⟩ | ⟨p, old, hold, hlost, rfl⟩)
    · refine ⟨.broadcastSendRouteUpdate new.toPubRoute, Or.inl ⟨p, new, hsel, ?_⟩, rfl⟩
      simp [announcements, hneeds]
    · refine ⟨.broadcastSendRouteUpdate {old.toPubRoute with metric := INF},
        Or.inr ⟨p, old, hold, ?_⟩, rfl⟩
      simp [retractions, hlost]

theorem mem_sentUpdates_announceTable {announce : PubRoute → RouterCall}
    (hannounce : ∀ u, sentUpdate (announce u) = some u) :
    u ∈ sentUpdates (announceTable s announce).2 ↔
      ∃ p r, s.routes.lookup p = some r ∧ u = r.toPubRoute := by
  simp only [sentUpdates, List.mem_filterMap, announceTable_calls,
    Table.mem_flatMap_entries s.routes fun _ r => [announce r.toPubRoute]]
  constructor
  · rintro ⟨call, ⟨p, r, hr, hcall⟩, hu⟩
    rw [List.mem_singleton.mp hcall, hannounce] at hu
    exact ⟨p, r, hr, (Option.some.inj hu).symm⟩
  · rintro ⟨p, r, hr, rfl⟩
    exact ⟨_, ⟨p, r, hr, List.mem_singleton_self _⟩, hannounce _⟩

/-- The calls of an event that `computeRoutes` does not make. -/
theorem step_call_cases {call : RouterCall} (hcall : call ∈ (step s e).2) :
    (∃ t now, recompute s e = some (t, now) ∧ call ∈ (computeRoutes t now).2) ∨
    (∃ p r, s.routes.lookup p = some r ∧ sentUpdate call = some r.toPubRoute) ∨
    (∃ now neigh adv, e = .neighbourUpdate now neigh adv ∧ adv.metric = INF ∧
      call = .sendAckRetract neigh adv.pfx) ∨
    (∃ neigh src seqno hops, call = .requestSeqno neigh src seqno hops) ∨
    ∃ src seqno hops, call = .broadcastRequestSeqno src seqno hops := by
  have hannounce : ∀ announce : PubRoute → RouterCall,
      (∀ u, sentUpdate (announce u) = some u) →
      call ∈ (announceTable s announce).2 →
      ∃ p r, s.routes.lookup p = some r ∧ sentUpdate call = some r.toPubRoute := by
    intro announce hsent hmem
    rw [announceTable_calls] at hmem
    obtain ⟨p, r, hr, hmem⟩ := (Table.mem_flatMap_entries s.routes
      (fun _ r => [announce r.toPubRoute]) _).mp hmem
    rw [List.mem_singleton.mp hmem]
    exact ⟨p, r, hr, hsent _⟩
  have hanswer : ∀ fromNeigh src reqSeqno selRoute, s.routes.lookup src.pfx = some selRoute →
      call ∈ (answerRequest s fromNeigh src reqSeqno selRoute).2 →
      ∃ p r, s.routes.lookup p = some r ∧ sentUpdate call = some r.toPubRoute := by
    intro fromNeigh src reqSeqno selRoute hsel hmem
    unfold answerRequest at hmem
    split at hmem
    · rw [List.mem_singleton.mp hmem]
      exact ⟨_, selRoute, hsel, rfl⟩
    · cases hmem
  cases e with
  | neighbourUpdate now neigh adv =>
    rcases (handleNeighbourUpdate_cases s now neigh adv).2 call hcall with
      ⟨rfl, hINF⟩ | rfl
    · exact Or.inr (Or.inr (Or.inl ⟨now, neigh, adv, rfl, hINF, rfl⟩))
    · exact Or.inr (Or.inr (Or.inr (Or.inl ⟨_, _, _, _, rfl⟩)))
  | computeRoutes now => exact Or.inl ⟨s, now, rfl, hcall⟩
  | fullTableUpdate => exact Or.inr (Or.inl (hannounce _ (fun _ => rfl) hcall))
  | pushFullTable neigh => exact Or.inr (Or.inl (hannounce _ (fun _ => rfl) hcall))
  | seqnoRequest now fromNeigh src reqSeqno hopCnt =>
    rcases handleSeqnoRequest_cases s now fromNeigh src reqSeqno hopCnt with
      ⟨t, selRoute, ht, hsel, _, hout⟩ |
      ⟨_, ⟨_, hout⟩ | ⟨selRoute, forwarded, hsel, hout, hforwarded⟩⟩
    · simp only [step, hout] at hcall
      rcases List.mem_append.mp hcall with hcall | hcall
      · exact Or.inr (Or.inl (hanswer fromNeigh src reqSeqno selRoute hsel hcall))
      · exact Or.inl ⟨t, now, by simp [recompute, ht], hcall⟩
    · simp [step, hout] at hcall
    · simp only [step, hout] at hcall
      rcases List.mem_append.mp hcall with hcall | hcall
      · exact Or.inr (Or.inl (hanswer fromNeigh src reqSeqno selRoute hsel hcall))
      · obtain ⟨neigh, hops, rfl⟩ := hforwarded call hcall
        exact Or.inr (Or.inr (Or.inr (Or.inl ⟨_, _, _, _, rfl⟩)))
  | ackRetract now neigh pfx =>
    simp only [step, handleAckRetract] at hcall
    cases hack : recordAck s neigh pfx with
    | none => simp [hack] at hcall
    | some t =>
      simp only [hack] at hcall
      exact Or.inl ⟨t, now, by simp [recompute, hack], hcall⟩
  | solveStarvation =>
    exact Or.inr (Or.inr (Or.inr (Or.inr (mem_solveStarvation_calls s call hcall))))
  | runGC now => exact Or.inl ⟨expireRoutes s now, now, rfl, hcall⟩
  | setLink neigh active linkCost => cases hcall
  | advertise pfx adv => cases hcall
  | withdraw pfx => cases hcall
  | passiveClient now pfx node passiveHold metricFn => cases hcall
  | reconcileNeighbours peers => cases hcall

/-- While an entry stays unreachable, all updates for its prefix retract it. -/
theorem sent_unreachable (hkeyed : Keyed s) {r' : SelRoute} (hr : s.routes.lookup p = some r)
    (hINF : r.metric = INF) (hr' : (step s e).1.routes.lookup p = some r')
    (hINF' : r'.metric = INF) {call : RouterCall} (hcall : call ∈ (step s e).2)
    (hu : sentUpdate call = some u) (hpfx : u.pfx = p) :
    u.metric = INF := by
  rcases step_call_cases hcall with ⟨t, now, hrecompute, hcall⟩ | ⟨q, r₀, hr₀, hsent⟩ |
    ⟨_, _, _, _, _, rfl⟩ | ⟨_, _, _, _, rfl⟩ | ⟨_, _, _, rfl⟩
  · have hmem : u ∈ sentUpdates (computeRoutes t now).2 :=
      List.mem_filterMap.mpr ⟨call, hcall, hu⟩
    rcases mem_sentUpdates_computeRoutes.mp hmem with
      ⟨q, new, hsel, _, rfl⟩ | ⟨_, _, _, _, rfl⟩
    · obtain rfl : q = p :=
        ((hkeyed.recompute hrecompute).selectedRoute hsel).symm.trans hpfx
      rw [step_routes_of_recompute_some hrecompute, lookup_computeRoutes] at hr'
      rcases finalRoute_cases hr' with ⟨hsel', _⟩ | ⟨_, _, _, hlost, _⟩
      · rw [hsel] at hsel'
        rwa [Option.some.inj hsel']
      · simp only [losesRoute, hsel, Option.all_some, Bool.and_eq_true, beq_iff_eq] at hlost
        exact hlost.2
    · rfl
  · rw [hu] at hsent
    obtain rfl := Option.some.inj hsent
    obtain rfl : q = p := (hkeyed.routes q r₀ hr₀).symm.trans hpfx
    rw [hr] at hr₀
    rwa [← Option.some.inj hr₀]
  · cases hu
  · cases hu
  · cases hu

/-- A retraction is acknowledged when it is received, and at no other time. -/
theorem ack_of_call {neigh : NodeId} (hcall : RouterCall.sendAckRetract neigh p ∈ (step s e).2) :
    ∃ now adv, e = .neighbourUpdate now neigh adv ∧ adv.metric = INF ∧ adv.pfx = p := by
  rcases step_call_cases hcall with ⟨t, now, _, hcall⟩ | ⟨_, _, _, hsent⟩ |
    ⟨now, _, adv, he, hINF, heq⟩ | ⟨_, _, _, _, heq⟩ | ⟨_, _, _, heq⟩
  · rcases mem_computeRoutes_calls.mp hcall with ⟨q, new, _, hcall⟩ | ⟨q, old, _, hcall⟩
    · unfold announcements at hcall
      split_ifs at hcall <;> simp at hcall
    · unfold retractions at hcall
      split_ifs at hcall <;> simp at hcall
  · cases hsent
  · obtain ⟨rfl, rfl⟩ := RouterCall.sendAckRetract.inj heq
    exact ⟨now, adv, he, hINF, rfl⟩
  · cases heq
  · cases heq

end Nylon.Core
