import Nylon.Core.Announce

/-!
Retractions at both ends. At the node that retracts, an entry turns unreachable
and a hold begins, without any acknowledgement; while the hold goes on, an event
adds at most the acknowledgement it delivers. At the node that receives a
retraction, nothing finite stays stored for the neighbour, and after the next
recomputation no route leads through it.
-/

namespace Nylon.Core

open State Netip Lib

variable {s : RouterState} {now : Time} {p : Prefix} {r : SelRoute} {e : Event} {neigh : NodeId}

/-- A run keeps acknowledgements of an entry only while it stays unreachable. -/
theorem retractedBy_finalRoute (hr : finalRoute s now p = some r) :
    r.retractedBy = [] ∨ r.metric = INF ∧ ∃ old, s.routes.lookup p = some old ∧
      old.metric = INF ∧ r.retractedBy = old.retractedBy := by
  rcases finalRoute_cases hr with ⟨hsel, hkept⟩ | ⟨old, _, _, _, rfl⟩
  · rcases selectedRoute_cases hsel with
      ⟨adv, _, rfl⟩ | ⟨c, hc, rfl, _⟩ | ⟨old, hold, _, _, rfl⟩
    · exact Or.inl rfl
    · obtain ⟨n, _, st, _, hcand⟩ := mem_candidates.mp hc
      exact Or.inl (candidate_eq_some hcand).2.2.2.2.2.2.1
    · simp only [losesRoute, hold, hsel, Option.any_some, Option.all_some,
        beq_self_eq_true, Bool.and_true, bne_eq_false_iff_eq] at hkept
      exact Or.inr ⟨rfl, old, hold, hkept, rfl⟩
  · exact Or.inl rfl

/-- Whether a run begins a hold of the prefix: a reachable entry is lost, or a
new entry is unreachable. -/
def startsHold (s : RouterState) (now : Time) (p : Prefix) : Bool :=
  match s.routes.lookup p with
  | none => (selectedRoute s now p).any (·.metric == INF)
  | some _ => losesRoute s now p

/-- An unreachable entry after a run: its hold begins in the run, without any
acknowledgement, or the entry was unreachable before. -/
theorem unreachable_finalRoute (hr : finalRoute s now p = some r) (hINF : r.metric = INF) :
    (startsHold s now p = true ∧ r.retractedBy = []) ∨
    (startsHold s now p = false ∧ ∃ old, s.routes.lookup p = some old ∧
      old.metric = INF ∧ r.retractedBy ⊆ old.retractedBy) := by
  unfold startsHold
  cases hold : s.routes.lookup p with
  | none =>
    have hsel : selectedRoute s now p = some r := by simpa [finalRoute, hold] using hr
    rcases retractedBy_finalRoute hr with hnil | ⟨_, old, hsome, _⟩
    · exact Or.inl ⟨by simp [hsel, hINF], hnil⟩
    · rw [hold] at hsome
      cases hsome
  | some old =>
    dsimp only
    rcases finalRoute_cases hr with ⟨hsel, hkept⟩ | ⟨_, _, _, hlost, rfl⟩
    · have hold' : old.metric = INF := by
        simpa [losesRoute, hold, hsel, hINF] using hkept
      refine Or.inr ⟨hkept, old, rfl, hold', ?_⟩
      rcases retractedBy_finalRoute hr with hnil | ⟨_, old', hsome, _, hsame⟩
      · simp [hnil]
      · rw [hold] at hsome
        rw [hsame, ← Option.some.inj hsome]
        exact List.Subset.refl _
    · exact Or.inl ⟨hlost, rfl⟩

/-- An event adds at most the acknowledgement it delivers before it recomputes
the routes. -/
theorem retractedBy_recompute {t : RouterState} (hrecompute : recompute s e = some (t, now))
    (hr : t.routes.lookup p = some r) :
    ∃ r₀, s.routes.lookup p = some r₀ ∧ r₀.metric = r.metric ∧
      ∀ id ∈ r.retractedBy, id ∈ r₀.retractedBy ∨ e = .ackRetract now id p := by
  rcases recompute_cases hrecompute with ⟨_, rfl⟩ |
    ⟨fromNeigh, src, reqSeqno, _, selRoute, _, _, rfl, _⟩ |
    ⟨neigh, pfx, he, hack, _⟩ | ⟨_, rfl⟩
  · exact ⟨r, hr, rfl, fun id hid => Or.inl hid⟩
  · rw [answerRequest_state] at hr
    exact ⟨r, hr, rfl, fun id hid => Or.inl hid⟩
  · obtain ⟨rt, hrt, _, _, rfl⟩ := recordAck_eq_some hack
    rw [Table.lookup_insert_eq] at hr
    split at hr
    · next heq =>
      obtain rfl := Option.some.inj hr
      refine ⟨rt, heq ▸ hrt, rfl, fun id hid => ?_⟩
      rcases List.mem_append.mp hid with hid | hid
      · exact Or.inl hid
      · rw [List.mem_singleton.mp hid, heq]
        exact Or.inr he
    · exact ⟨r, hr, rfl, fun id hid => Or.inl hid⟩
  · exact ⟨r, hr, rfl, fun id hid => Or.inl hid⟩

/-- An unreachable entry after an event: its hold begins with the event, or it
goes on and has at most one more acknowledgement. -/
theorem unreachable_step {r' : SelRoute} (hr' : (step s e).1.routes.lookup p = some r')
    (hINF : r'.metric = INF) :
    (∃ t now, recompute s e = some (t, now) ∧ startsHold t now p = true ∧ r'.retractedBy = []) ∨
    ((∀ t now, recompute s e = some (t, now) → startsHold t now p = false) ∧
      ∃ r, s.routes.lookup p = some r ∧ r.metric = INF ∧ ∀ id ∈ r'.retractedBy, id ∈ r.retractedBy ∨
          ∃ now, e = .ackRetract now id p) := by
  cases hrecompute : recompute s e with
  | none =>
    rw [(step_of_recompute_none hrecompute).1] at hr'
    exact Or.inr ⟨by simp, r', hr', hINF, fun id hid => Or.inl hid⟩
  | some run =>
    obtain ⟨t, now⟩ := run
    rw [step_routes_of_recompute_some hrecompute, lookup_computeRoutes] at hr'
    rcases unreachable_finalRoute hr' hINF with
      ⟨hstarts, hnil⟩ | ⟨hgoes, old, hold, holdINF, hsub⟩
    · exact Or.inl ⟨t, now, rfl, hstarts, hnil⟩
    · obtain ⟨r, hr, hmetric, hacks⟩ := retractedBy_recompute hrecompute hold
      refine Or.inr ⟨?_, r, hr, hmetric.trans holdINF, fun id hid => ?_⟩
      · rintro t' now' heq
        obtain ⟨rfl, rfl⟩ := Prod.mk.inj (Option.some.inj heq)
        exact hgoes
      · exact (hacks id (hsub hid)).imp_right fun he => ⟨now, he⟩

/-- The node has no finite route for the prefix through `neigh`. -/
def NotVia (neigh : NodeId) (s : RouterState) (p : Prefix) : Prop :=
  ∀ r, s.routes.lookup p = some r → r.metric ≠ INF → r.nh ≠ neigh

/-- All that is stored for the prefix of `neigh` is a retraction. -/
def StoredRetracted (neigh : NodeId) (s : RouterState) (p : Prefix) : Prop :=
  ∀ st, Stored s neigh p st → st.metric = INF

def Unreachable (s : RouterState) (p : Prefix) : Prop :=
  ∃ r, s.routes.lookup p = some r ∧ r.metric = INF

theorem stored_iff (hids : (s.neighbours.map (·.id)).Nodup) {id : NodeId} {st : NeighRoute} :
    Stored s id p st ↔ ∃ n, s.getNeighbour id = some n ∧ n.routes.lookup p = some st := by
  constructor
  · rintro ⟨n, hn, rfl, hst⟩
    cases hfind : s.getNeighbour n.id with
    | none => exact absurd (List.find?_eq_none.mp hfind n hn) (by simp)
    | some m =>
      have hid : m.id = n.id := by simpa using List.find?_some hfind
      obtain rfl := List.inj_on_of_nodup_map hids
        (List.mem_of_find?_eq_some hfind) hn hid
      exact ⟨m, rfl, hst⟩
  · rintro ⟨n, hn, hst⟩
    exact ⟨n, List.mem_of_find?_eq_some hn, by simpa using List.find?_some hn, hst⟩

/-- A retraction always replaces what is stored. -/
theorem storedRetracted_of_retraction
    (hids : (s.neighbours.map (·.id)).Nodup) (now : Time) (neigh : NodeId)
    {adv : PubRoute} (hINF : adv.metric = INF) :
    StoredRetracted neigh (step s (.neighbourUpdate now neigh adv)).1 adv.pfx := by
  intro st hst
  have hfeasible : checkFeasibility s adv = true := by
    unfold checkFeasibility
    split <;> simp [hINF]
  rw [stored_iff (distinct_step _ hids)] at hst
  obtain ⟨n', hn', hst⟩ := hst
  unfold step handleNeighbourUpdate at hn'
  cases hn : s.getNeighbour neigh with
  | none => simp [hn] at hn'
  | some n =>
    cases hentry : n.routes.lookup adv.pfx with
    | none =>
      simp only [hn, hentry, hfeasible, Bool.not_true, Bool.false_eq_true,
        if_false, hINF, if_true, Option.some.injEq] at hn'
      rw [← hn', hentry] at hst
      cases hst
    | some old =>
      simp only [hn, hentry, hfeasible, Bool.not_true, Bool.false_eq_true, if_false] at hn'
      rw [RouterState.getNeighbour_modifyNeighbour _ _ _ fun n =>
        (storeUpdate_link s now adv n).1, hn] at hn'
      obtain rfl := Option.some.inj hn'
      simp only [storeUpdate, hentry, AList.lookup_insert] at hst
      rw [← Option.some.inj hst]
      exact hINF

/-- Other events do not turn a stored retraction into a finite route. -/
theorem StoredRetracted.step (h : StoredRetracted neigh s p)
    (he : ∀ now adv, adv.metric ≠ INF → adv.pfx = p → e ≠ .neighbourUpdate now neigh adv) :
    StoredRetracted neigh (step s e).1 p := by
  intro st' hst'
  by_contra hfinite
  rcases stored_step hst' with ⟨st, hst, hfrom⟩ | ⟨hpfx, now, heq⟩
  · apply hfinite
    rw [hfrom.pub_eq hfinite]
    exact h st hst
  · exact he now st'.toPubRoute hfinite hpfx.symm heq

/-- A finite route through a neighbour that is no own advertisement rests on a
finite route that the neighbour has announced. -/
theorem notVia_computeRoutes (h : StoredRetracted neigh s p)
    (hown : ∀ q adv, s.advertised.lookup q = some adv → adv.nodeId ≠ neigh)
    (now : Time) : NotVia neigh (computeRoutes s now).1 p := by
  intro r hr hfinite hnh
  rw [lookup_computeRoutes] at hr
  rcases finalRoute_cases hr with ⟨hsel, _⟩ | ⟨_, _, _, _, rfl⟩
  · rcases selectedRoute_cases hsel with
      ⟨adv, hadv, rfl⟩ | ⟨c, hc, rfl, _⟩ | ⟨_, _, _, _, rfl⟩
    · exact hown p adv hadv hnh
    · obtain ⟨n, hn, st, hst, hcand⟩ := mem_candidates.mp hc
      obtain ⟨htotal, _, hid, _⟩ := candidate_eq_some hcand
      have hINF := h st ⟨n, hn, hid.symm.trans hnh, hst⟩
      exact ((addMetric_ne_INF_iff _ _).mp htotal).2 hINF
    · exact hfinite rfl
  · exact hfinite rfl

theorem NotVia.step (h : NotVia neigh s p) (hstored : StoredRetracted neigh s p)
    (hown : ∀ q adv, s.advertised.lookup q = some adv → adv.nodeId ≠ neigh)
    (e : Event) : NotVia neigh (step s e).1 p := by
  unfold NotVia
  cases hrecompute : recompute s e with
  | none =>
    rw [(step_of_recompute_none hrecompute).1]
    exact h
  | some run =>
    obtain ⟨t, now⟩ := run
    rw [step_routes_of_recompute_some hrecompute]
    apply notVia_computeRoutes
    · intro st' hst'
      obtain ⟨st, hst, hfrom⟩ := stored_recompute hrecompute hst'
      rcases hfrom.metric with heq | hINF
      · rw [heq]
        exact hstored st hst
      · exact hINF
    · intro q adv hadv
      exact hown q adv (advertised_recompute hrecompute hadv)

end Nylon.Core
