import Nylon.Core.Hysteresis
import Nylon.Core.Announce

/-!
Which changes of the route table a run tells the neighbours about. The updates of
a run for one prefix are those of its new entry and of its lost one. A prefix that
becomes reachable, becomes unreachable or gets another origin is announced by one
update with the values of the entry the run leaves, except in two situations: a
route returns with a metric so close to `INF` that the difference does not count as
a large change, and an own advertisement with metric `INF` takes the place of a
finite route of another origin, which is then retracted twice.
-/

namespace Nylon.Core

open State Netip Lib

/-- The broadcast update for a prefix, if the call is one. -/
def broadcastFor (p : Prefix) : RouterCall → Option PubRoute
  | .broadcastSendRouteUpdate u => if u.pfx = p then some u else none
  | _ => none

def reachable (entry : Option SelRoute) : Bool :=
  entry.any (·.metric != INF)

/-- An entry becomes reachable or unreachable, or gets another router-id or seqno
while it is reachable. -/
def ChangesReachability (old new : Option SelRoute) : Prop :=
  reachable old ≠ reachable new ∨ ∃ o ∈ old, ∃ n ∈ new, o.metric ≠ INF ∧ n.metric ≠ INF ∧
      (o.nodeId ≠ n.nodeId ∨ o.seqno ≠ n.seqno)

/-- If a run changes the reachability or the origin of a prefix, it broadcasts one
update for it, with the values of the entry it leaves. -/
def AnnouncesChange (s : RouterState) (now : Time) (p : Prefix) : Prop :=
  let out := computeRoutes s now
  ChangesReachability (s.routes.lookup p) (out.1.routes.lookup p) →
    ∃ entry, out.1.routes.lookup p = some entry ∧
      out.2.filterMap (broadcastFor p) = [entry.toPubRoute]

/-- The usable route that continues the entry of a prefix. -/
def returningRoute (s : RouterState) (p : Prefix) : Option (Neighbour × NeighRoute) :=
  (s.routes.lookup p).bind fun prev =>
    ((usableRoutes s p).filter fun route => Continues prev route).getLast?

/-- What the cheapest usable route has to beat, with its smoothed metric: the own
advertisement or the held entry, or else the returning route. -/
def defender (s : RouterState) (now : Time) (p : Prefix) : Option (SelRoute × ℚ) :=
  match incumbent s now p, returningRoute s p with
  | some inc, some route =>
    some (inc, if Continues inc route then smoothedCost s route else inc.metric.toNat)
  | some inc, none => some (inc, inc.metric.toNat)
  | none, some route => some ((candidateOf s route).route, smoothedCost s route)
  | none, none => none

/-- The cheapest usable route is the defending one itself, or beats it in both
metrics. -/
def Displaces (s : RouterState) (cheapest : Neighbour × NeighRoute)
    (defending : SelRoute × ℚ) : Prop :=
  Continues defending.1 cheapest ∨
    (totalCost s cheapest < defending.1.metric ∧ smoothedCost s cheapest < defending.2)

instance (s : RouterState) (cheapest : Neighbour × NeighRoute)
    (defending : SelRoute × ℚ) : Decidable (Displaces s cheapest defending) :=
  inferInstanceAs (Decidable (_ ∨ _))

/-- The tables put a route first for a prefix: it is the cheapest usable one and
displaces the defending route, or it defends itself. -/
def Prevails (s : RouterState) (now : Time) (p : Prefix) (r : SelRoute) : Prop :=
  (∃ cheapest ∈ (usableRoutes s p).argmin (totalCost s), r = (candidateOf s cheapest).route ∧
      ∀ defending ∈ defender s now p, Displaces s cheapest defending) ∨
  (∃ defending ∈ defender s now p, r = defending.1 ∧
    ∀ cheapest ∈ (usableRoutes s p).argmin (totalCost s), ¬ Displaces s cheapest defending)

/-- The route that prevails has the origin of an unreachable entry, and its metric
is within the threshold for large changes of `INF`. -/
def ReturnsQuietly (s : RouterState) (now : Time) (p : Prefix) : Prop :=
  ∃ prev, s.routes.lookup p = some prev ∧ prev.metric = INF ∧
    ∃ r, Prevails s now p r ∧ r.metric ≠ INF ∧ r.nodeId = prev.nodeId ∧ r.seqno = prev.seqno ∧
      INF.toNat - r.metric.toNat ≤ s.largeChangeThreshold.toNat

/-- An own advertisement with metric `INF` prevails over a finite entry that has
another router-id or seqno. -/
def RetractsTwice (s : RouterState) (now : Time) (p : Prefix) : Prop :=
  ∃ prev, s.routes.lookup p = some prev ∧ prev.metric ≠ INF ∧
    ∃ adv, s.advertised.lookup p = some adv ∧ advMetric adv = INF ∧
      Prevails s now p (advertisedRoute s now p adv) ∧
      (prev.nodeId ≠ s.id ∨ prev.seqno ≠ s.getSeqno p)

theorem prevCandidate_eq_returningRoute (s : RouterState) (p : Prefix) :
    prevCandidate s p = (returningRoute s p).map (candidateOf s) := by
  cases hprev : s.routes.lookup p with
  | none =>
    have hnone : prevCandidate s p = none := by
      by_contra hsome
      obtain ⟨c, hc⟩ := Option.ne_none_iff_exists'.mp hsome
      obtain ⟨_, prev, hentry, _⟩ := prevCandidate_spec hc
      rw [hprev] at hentry
      cases hentry
    simp [hnone, returningRoute, hprev]
  | some prev => simp [prevCandidate_eq_map hprev, returningRoute, hprev]

theorem sameRoute_candidateOf (s : RouterState) (inc : SelRoute) (route : Neighbour × NeighRoute) :
    sameRoute inc (candidateOf s route).route = decide (Continues inc route) := by
  simp only [sameRoute, candidateOf, Continues, beq_eq_decide]
  exact (Bool.decide_and _ _).symm

theorem sameRoute_comm (a b : SelRoute) : sameRoute a b = sameRoute b a := by
  unfold sameRoute
  rw [BEq.comm (a := a.nh), BEq.comm (a := a.toSource)]

theorem hysteresis_candidateOf (s : RouterState) (cheapest : Neighbour × NeighRoute)
    (defending : SelRoute × ℚ) :
    hysteresis defending.1 defending.2 (candidateOf s cheapest) =
      if Displaces s cheapest defending then (candidateOf s cheapest).route
      else defending.1 := by
  unfold hysteresis Displaces
  rw [sameRoute_comm, sameRoute_candidateOf]
  by_cases hsame : Continues defending.1 cheapest
  · simp [hsame]
  · simp only [hsame, decide_false, Bool.false_eq_true, if_false, false_or]
    rfl

theorem selectRoute_eq_hysteresis (s : RouterState) (now : Time) (p : Prefix) (best : Candidate) :
    selectRoute (incumbent s now p) (prevCandidate s p) best =
      match defender s now p with
      | none => best.route
      | some defending => hysteresis defending.1 defending.2 best := by
  rw [prevCandidate_eq_returningRoute]
  unfold selectRoute defender
  cases incumbent s now p with
  | none => cases returningRoute s p <;> rfl
  | some inc =>
    cases returningRoute s p with
    | none => rfl
    | some route =>
      simp only [Option.map_some, sameRoute_candidateOf, decide_eq_true_eq]
      rfl

/-- Without a usable route there is none that returns. -/
theorem defender_of_no_routes {s : RouterState} {now : Time} {p : Prefix}
    (h : (usableRoutes s p).argmin (totalCost s) = none) :
    (defender s now p).map Prod.fst = incumbent s now p := by
  have hnil : usableRoutes s p = [] := List.argmin_eq_none.mp h
  have hreturning : returningRoute s p = none := by
    unfold returningRoute
    rw [hnil]
    cases s.routes.lookup p <;> rfl
  unfold defender
  rw [hreturning]
  cases incumbent s now p <;> rfl

/-- The selection of the code takes the route that prevails. -/
theorem selectedRoute_eq_some_iff {s : RouterState} {now : Time} {p : Prefix}
    {r : SelRoute} : selectedRoute s now p = some r ↔ Prevails s now p r := by
  unfold selectedRoute Prevails
  rw [bestCandidate_eq_map]
  cases hcheapest : (usableRoutes s p).argmin (totalCost s) with
  | none =>
    simp only [Option.map_none, ← defender_of_no_routes hcheapest]
    cases defender s now p <;> simp [eq_comm]
  | some cheapest =>
    simp only [Option.map_some, selectRoute_eq_hysteresis, Option.some.injEq]
    cases defender s now p with
    | none => simp [eq_comm]
    | some defending =>
      simp only [hysteresis_candidateOf, Option.mem_def, Option.some.injEq]
      by_cases hdisplaces : Displaces s cheapest defending
      · simp [hdisplaces, eq_comm]
      · simp [hdisplaces, eq_comm]

/-- The updates a run broadcasts for a prefix, in order. -/
theorem computeRoutes_broadcasts {s : RouterState} (hkeyed : Keyed s) (now : Time) (p : Prefix) :
    (computeRoutes s now).2.filterMap (broadcastFor p) =
      (match selectedRoute s now p with
        | some new => if needsUpdate s (s.routes.lookup p) new then
            [new.toPubRoute] else []
        | none => []) ++
      (match s.routes.lookup p with
        | some old => if losesRoute s now p then
            [{old.toPubRoute with metric := INF}] else []
        | none => []) := by
  have hannounce : ∀ k new, (newTable s now).lookup k = some new → k ≠ p →
      (announcements s k new).filterMap (broadcastFor p) = [] := by
    intro k new hnew hne
    rw [lookup_newTable] at hnew
    have hpfx := hkeyed.selectedRoute hnew
    unfold announcements
    split <;> split <;> simp [broadcastFor, hpfx, hne]
  have hretract : ∀ k old, s.routes.lookup k = some old → k ≠ p →
      (retractions s now k old).filterMap (broadcastFor p) = [] := by
    intro k old hold hne
    have hpfx := hkeyed.routes k old hold
    unfold retractions
    split <;> simp [broadcastFor, hpfx, hne]
  rw [computeRoutes_calls, List.filterMap_append, Table.filterMap_flatMap_entries _ _ _ p hannounce,
    Table.filterMap_flatMap_entries _ _ _ p hretract, lookup_newTable]
  congr 1
  · cases hsel : selectedRoute s now p with
    | none => rfl
    | some new =>
      have hpfx := hkeyed.selectedRoute hsel
      simp only [announcements]
      split <;> split <;> simp [List.filterMap_cons, broadcastFor, hpfx]
  · cases hold : s.routes.lookup p with
    | none => rfl
    | some old =>
      have hpfx := hkeyed.routes p old hold
      cases hlost : losesRoute s now p <;> simp [retractions, hlost, broadcastFor, hpfx]

/-- An unreachable new entry is announced only for its origin. -/
theorem needsUpdate_of_unreachable (s : RouterState) (prev : SelRoute) {new : SelRoute}
    (hINF : new.metric = INF) :
    needsUpdate s (some prev) new = true ↔ prev.nodeId ≠ new.nodeId ∨ prev.seqno ≠ new.seqno := by
  simp [needsUpdate, hINF]

/-- The difference to `INF` has to be a large change for a returning route. -/
theorem needsUpdate_of_return (s : RouterState) {prev new : SelRoute}
    (hprev : prev.metric = INF) (hfinite : new.metric ≠ INF) :
    needsUpdate s (some prev) new = false ↔ new.nodeId = prev.nodeId ∧ new.seqno = prev.seqno ∧
        INF.toNat - new.metric.toNat ≤ s.largeChangeThreshold.toNat := by
  have hbelow : new.metric.toNat ≤ INF.toNat :=
    UInt32.le_iff_toNat_le.mp ((lt_INF_iff _).mpr hfinite).le
  have hdistance : ((new.metric.toNat : Int) - INF.toNat).natAbs =
      INF.toNat - new.metric.toNat := by
    omega
  have hdiffers : (new.metric != INF) = true := by
    simpa using hfinite
  simp only [needsUpdate, hprev, hdistance, hdiffers, Bool.and_true, Bool.or_eq_false_iff,
    bne_eq_false_iff_eq, decide_eq_false_iff_not, gt_iff_lt, not_lt, and_assoc]
  rw [eq_comm (a := prev.nodeId), eq_comm (a := prev.seqno)]

section OnePrefix

variable {s : RouterState} {now : Time} {p : Prefix} {prev : SelRoute}

/-- A new prefix is announced whenever it has an entry. -/
theorem announcesChange_of_absent (hkeyed : Keyed s) (hprev : s.routes.lookup p = none) :
    AnnouncesChange s now p := by
  intro hchange
  rw [lookup_computeRoutes] at hchange ⊢
  simp only [computeRoutes_broadcasts hkeyed, hprev, List.append_nil]
  simp only [finalRoute, hprev] at hchange ⊢
  cases hsel : selectedRoute s now p with
  | none => simp [ChangesReachability, reachable, hsel] at hchange
  | some new => exact ⟨new, rfl, by simp [needsUpdate]⟩

/-- A lost route is retracted, once more than that if the entry it lost its place
to has another origin. -/
theorem announcesChange_of_lost (hkeyed : Keyed s) (hprev : s.routes.lookup p = some prev)
    (hlost : losesRoute s now p = true) :
    AnnouncesChange s now p ↔ ∀ new, selectedRoute s now p = some new →
        prev.nodeId = new.nodeId ∧ prev.seqno = new.seqno := by
  have hfinite : prev.metric ≠ INF := by
    simp only [losesRoute, hprev, Option.any_some, Bool.and_eq_true] at hlost
    simpa using hlost.1
  have hfinal : finalRoute s now p = some {prev with metric := INF, retractedBy := []} := by
    simp [finalRoute, hprev, hlost]
  have hchange : ChangesReachability (some prev)
      (some {prev with metric := INF, retractedBy := []}) := by
    refine Or.inl ?_
    simp [reachable, hfinite]
  unfold AnnouncesChange
  simp only [lookup_computeRoutes, hfinal, computeRoutes_broadcasts hkeyed, hprev, hlost,
    if_true, hchange, true_implies, Option.some.injEq, exists_eq_left']
  cases hsel : selectedRoute s now p with
  | none => simp
  | some new =>
    have hINF : new.metric = INF := by
      simp only [losesRoute, hsel, Option.all_some, Bool.and_eq_true, beq_iff_eq] at hlost
      exact hlost.2
    have hneeds := needsUpdate_of_unreachable s prev hINF
    by_cases hsame : prev.nodeId = new.nodeId ∧ prev.seqno = new.seqno
    · have hquiet : needsUpdate s (some prev) new = false := by
        rw [Bool.eq_false_iff, ne_eq, hneeds]
        tauto
      simp [hquiet, hsame]
    · have hneeds' : needsUpdate s (some prev) new = true := by
        rw [hneeds]
        tauto
      simp [hneeds', hsame]

/-- An entry that is not lost is announced if the code finds that it needs an
update, and it is not silent about a finite one. -/
theorem announcesChange_of_kept (hkeyed : Keyed s) (hprev : s.routes.lookup p = some prev)
    (hkept : losesRoute s now p = false) :
    AnnouncesChange s now p ↔
      ∀ new, selectedRoute s now p = some new → prev.metric = INF → new.metric ≠ INF →
        needsUpdate s (some prev) new = true := by
  have hfinal : finalRoute s now p = selectedRoute s now p := by
    simp [finalRoute, hprev, hkept]
  unfold AnnouncesChange
  simp only [lookup_computeRoutes, hfinal, computeRoutes_broadcasts hkeyed, hprev, hkept,
    Bool.false_eq_true, if_false, List.append_nil]
  cases hsel : selectedRoute s now p with
  | none =>
    have hINF : prev.metric = INF := by
      simpa [losesRoute, hprev, hsel] using hkept
    simp [ChangesReachability, reachable, hINF]
  | some new =>
    simp only [Option.some.injEq, exists_eq_left', forall_eq']
    constructor
    · intro hannounces hINF hfinite
      by_contra hquiet
      have hchange : ChangesReachability (some prev) (some new) := by
        refine Or.inl ?_
        simp [reachable, hINF, hfinite]
      simpa [hquiet] using hannounces hchange
    · intro hneeds hchange
      have hupdate : needsUpdate s (some prev) new = true := by
        by_cases hINF : prev.metric = INF
        · refine hneeds hINF ?_
          rintro hINF'
          simp [ChangesReachability, reachable, hINF, hINF'] at hchange
        · have hnew : new.metric ≠ INF := by
            simpa [losesRoute, hprev, hsel, hINF] using hkept
          have horigin : prev.nodeId ≠ new.nodeId ∨ prev.seqno ≠ new.seqno := by
            rcases hchange with hreach | ⟨o, ho, n, hn, _, _, horigin⟩
            · simp [reachable, bne_iff_ne.mpr hINF, bne_iff_ne.mpr hnew] at hreach
            · obtain rfl := Option.some.inj ho
              obtain rfl := Option.some.inj hn
              exact horigin
          rcases horigin with h | h <;> simp [needsUpdate, h]
      simp [hupdate]

/-- A run replaces a finite entry by an unreachable one of another origin exactly if
an own advertisement prevails. -/
theorem retractsTwice_iff (hprev : s.routes.lookup p = some prev) (hfinite : prev.metric ≠ INF) :
    RetractsTwice s now p ↔ ∃ new, selectedRoute s now p = some new ∧ new.metric = INF ∧
      ¬ (prev.nodeId = new.nodeId ∧ prev.seqno = new.seqno) := by
  constructor
  · rintro ⟨prev', hprev', _, adv, hadv, hINF, hprevails, horigin⟩
    obtain rfl : prev = prev' := by simpa [hprev] using hprev'
    refine ⟨_, selectedRoute_eq_some_iff.mpr hprevails, hINF, ?_⟩
    rintro ⟨hid, hseqno⟩
    exact horigin.elim (fun h => h hid) (fun h => h hseqno)
  · rintro ⟨new, hsel, hINF, horigin⟩
    rcases selectedRoute_cases hsel with
      ⟨adv, hadv, rfl⟩ | ⟨c, hc, rfl, _⟩ | ⟨old, hold, _, _, rfl⟩
    · refine ⟨prev, hprev, hfinite, adv, hadv, hINF, selectedRoute_eq_some_iff.mp hsel, ?_⟩
      exact not_and_or.mp horigin
    · obtain ⟨n, _, st, _, hcand⟩ := mem_candidates.mp hc
      obtain ⟨htotal, _, _, _, _, hmetric, _⟩ := candidate_eq_some hcand
      exact absurd (hmetric.symm.trans hINF) htotal
    · obtain rfl : prev = old := by simpa [hprev] using hold
      exact absurd ⟨rfl, rfl⟩ horigin

end OnePrefix

/-- A change at a prefix is announced exactly if no route returns quietly and none
is retracted twice. -/
theorem announcesChange_iff {s : RouterState} (hkeyed : Keyed s) (now : Time) (p : Prefix) :
    AnnouncesChange s now p ↔ ¬ ReturnsQuietly s now p ∧ ¬ RetractsTwice s now p := by
  cases hprev : s.routes.lookup p with
  | none =>
    refine iff_of_true (announcesChange_of_absent hkeyed hprev) ⟨?_, ?_⟩
    · rintro ⟨prev, hentry, _⟩
      simp [hprev] at hentry
    · rintro ⟨prev, hentry, _⟩
      simp [hprev] at hentry
  | some prev =>
    by_cases hINF : prev.metric = INF
    · have hkept : losesRoute s now p = false := by
        simp [losesRoute, hprev, hINF]
      have hnotTwice : ¬ RetractsTwice s now p := by
        rintro ⟨prev', hentry, hfinite, _⟩
        obtain rfl : prev = prev' := by simpa [hprev] using hentry
        exact hfinite hINF
      rw [announcesChange_of_kept hkeyed hprev hkept, and_iff_left hnotTwice]
      constructor
      · rintro hneeds ⟨prev', hentry, _, r, hprevails, hfinite, hquiet⟩
        obtain rfl : prev = prev' := by simpa [hprev] using hentry
        have hupdate := hneeds r (selectedRoute_eq_some_iff.mpr hprevails) hINF hfinite
        rw [(needsUpdate_of_return s hINF hfinite).mpr hquiet] at hupdate
        cases hupdate
      · intro hloud new hsel _ hfinite
        by_contra hquiet
        rw [Bool.not_eq_true, needsUpdate_of_return s hINF hfinite] at hquiet
        exact hloud ⟨prev, hprev, hINF, new, selectedRoute_eq_some_iff.mp hsel, hfinite, hquiet⟩
    · have hloud : ¬ ReturnsQuietly s now p := by
        rintro ⟨prev', hentry, hINF', _⟩
        obtain rfl : prev = prev' := by simpa [hprev] using hentry
        exact hINF hINF'
      rw [and_iff_right hloud, retractsTwice_iff hprev hINF]
      cases hlost : losesRoute s now p with
      | true =>
        rw [announcesChange_of_lost hkeyed hprev hlost]
        constructor
        · rintro hsame ⟨new, hsel, _, horigin⟩
          exact horigin (hsame new hsel)
        · intro hnone new hsel
          by_contra horigin
          refine hnone ⟨new, hsel, ?_, horigin⟩
          simpa [losesRoute, hprev, hINF, hsel] using hlost
      | false =>
        rw [announcesChange_of_kept hkeyed hprev hlost]
        refine iff_of_true (fun _ _ h => absurd h hINF) ?_
        rintro ⟨new, hsel, hnew, _⟩
        simp [losesRoute, hprev, hINF, hsel, hnew] at hlost

/-- Whenever an event in a run recomputes the routes, the change at a prefix is
announced exactly if no route returns quietly and none is retracted twice. -/
theorem reachability_announced_iff (tunables : RouterTunables) (id : NodeId)
    (events : List Event) (e : Event) (s : RouterState) (now : Time) (p : Prefix)
    (hrecompute : recompute (run (RouterState.init tunables id) events) e = some (s, now)) :
    AnnouncesChange s now p ↔ ¬ ReturnsQuietly s now p ∧ ¬ RetractsTwice s now p :=
  announcesChange_iff ((Keyed.run tunables id events).recompute hrecompute) now p

/-- Node `a` learns a prefix from `b` and also advertises it with the given metrics,
the second one after `b` has retracted its route. -/
def sharedPrefixRun (own : List Metric) : List Event :=
  let p : Prefix := ⟨.v4 0x0A000200, 24, Prefix.bits24_le⟩
  let advertise := fun m => Event.advertise p ⟨"a", 1000, false, some m⟩
  [.reconcileNeighbours ["b"], .setLink "b" true 10,
    .neighbourUpdate 0 "b" ⟨⟨"d", p⟩, ⟨0, 10⟩⟩] ++ (own.take 1).map advertise ++
    [.computeRoutes 1, .neighbourUpdate 1 "b" ⟨⟨"d", p⟩, ⟨0, INF⟩⟩] ++
    (own.drop 1).map advertise

/-- The learned route is lost and nothing takes its place: one retraction. -/
theorem reachability_announced_iff_lost : let p : Prefix := ⟨.v4 0x0A000200, 24, by decide⟩
    let s := run (RouterState.init defaultRouterTunables "a") (sharedPrefixRun [])
    (s.routes.lookup p).map (·.metric) = some 25 ∧
      (computeRoutes s 2).2.filterMap (broadcastFor p) = [⟨⟨"d", p⟩, ⟨0, INF⟩⟩] ∧
      AnnouncesChange s 2 p := by
  intro p s
  have hmetric : (s.routes.lookup p).map (·.metric) = some 25 := by decide +kernel
  have hadvertised : s.advertised.lookup p = none := by decide +kernel
  refine ⟨hmetric, by decide +kernel, ?_⟩
  apply (reachability_announced_iff defaultRouterTunables "a" (sharedPrefixRun [])
    (.computeRoutes 2) s 2 p rfl).mpr
  constructor
  · rintro ⟨prev, hprev, hINF, _⟩
    rw [hprev, Option.map_some, hINF] at hmetric
    exact absurd hmetric (by decide)
  · rintro ⟨_, _, _, adv, hadv, _⟩
    rw [hadvertised] at hadv
    cases hadv

/-- Node `a` advertises a prefix whose metric goes from 0 to `INF` and on to the
largest finite one. -/
def recoveringRun : List Event :=
  let p : Prefix := ⟨.v4 0x0A000200, 24, Prefix.bits24_le⟩
  let advertise := fun m => Event.advertise p ⟨"a", 1000, false, some m⟩
  [advertise 0, .computeRoutes 1, advertise INF, .computeRoutes 2, advertise INFM]

/-- The prefix of `recoveringRun` becomes reachable and nobody is told. In
`sharedPrefixRun` the prefix is retracted twice, for two sources, when the learned
route is lost while the own prefix is unhealthy. -/
theorem reachability_change_unannounced : let p : Prefix := ⟨.v4 0x0A000200, 24, by decide⟩
    let s := run (RouterState.init defaultRouterTunables "a") recoveringRun
    let t := run (RouterState.init defaultRouterTunables "a") (sharedPrefixRun [100, INF])
    ((s.routes.lookup p).map (·.metric) = some INF ∧
      ((computeRoutes s 3).1.routes.lookup p).map (·.metric) = some INFM ∧
      (computeRoutes s 3).2.filterMap (broadcastFor p) = [] ∧
      ¬ AnnouncesChange s 3 p) ∧
    (t.routes.lookup p).map (·.metric) = some 25 ∧
      (computeRoutes t 2).2.filterMap (broadcastFor p) =
        [⟨⟨"a", p⟩, ⟨0, INF⟩⟩, ⟨⟨"d", p⟩, ⟨0, INF⟩⟩] ∧
      ¬ AnnouncesChange t 2 p := by
  intro p s t
  have hsilent : (computeRoutes s 3).2.filterMap (broadcastFor p) = [] := by
    decide +kernel
  have htwice : (computeRoutes t 2).2.filterMap (broadcastFor p) =
      [⟨⟨"a", p⟩, ⟨0, INF⟩⟩, ⟨⟨"d", p⟩, ⟨0, INF⟩⟩] := by
    decide +kernel
  refine ⟨⟨by decide +kernel, by decide +kernel, hsilent, ?_⟩, by decide +kernel, htwice, ?_⟩
  · intro h
    obtain ⟨entry, _, hone⟩ := h (Or.inl (by decide +kernel))
    rw [hsilent] at hone
    cases hone
  · intro h
    obtain ⟨entry, _, hone⟩ := h (Or.inl (by decide +kernel))
    rw [htwice] at hone
    simp at hone

end Nylon.Core
