import Nylon.Network.HoldInvariant

/-!
What an acknowledgement says. It carries only the prefix, so an acknowledgement
of a retraction from an earlier hold also counts for the present one. As long as
no hold of a prefix begins while a retraction or an acknowledgement of the prefix
is still under way, `B` is listed in `RetractedBy` only after it has processed a
retraction that was sent in the present hold, and has then no route through `A`.
-/

namespace Nylon.Network.Pair

open State Netip Lib Nylon.Core

/-- Whenever `B` is listed for a hold in progress, it has processed a retraction
that was sent in this hold, and has no route through `A`. -/
def Answered (A B : NodeId) (pair : Pair) (s : RouterState) : Prop :=
  ∀ p r, s.routes.lookup p = some r → r.metric = INF → B ∈ r.retractedBy →
    pair.seen p = pair.holds p ∧ NotVia A pair.b.router p

variable {A B : NodeId} {pair : Pair} {ev : NodeEvent}

/-- An acknowledgement of the other node comes out of the channel. -/
theorem ack_underway (hadm : FromElsewhere B ev) {now : Time} {p : Prefix}
    (hinput : pair.a.input B pair.ba.head? ev = some (.ackRetract now B p)) :
    .ackRetractOp p ∈ pair.ba := by
  rcases Node.input_cases hinput with
    ⟨rfl, _⟩ | ⟨_, pkt, _, hpkt, _, he⟩ | ⟨_, _, he⟩
  · exact absurd rfl hadm
  · cases pkt with
    | routeOp u => cases he
    | ackRetractOp q =>
      obtain ⟨_, _, rfl⟩ := Event.ackRetract.inj he
      exact List.mem_of_mem_head? hpkt
  · cases he

theorem Invariant.stepA (h : Invariant A B pair)
    (hadm : FromElsewhere B ev) (hfresh : pair.BeginsFresh B (.atA ev)) :
    Invariant A B (pair.step A B (.atA ev)) := by
  have hchannel : channelAfter pair.ba ev ⊆ pair.ba := by
    unfold channelAfter
    split
    · exact List.tail_subset _
    · exact List.Subset.refl _
  cases hinput : pair.a.input B pair.ba.head? ev with
  | some e =>
    obtain ⟨hrouter, hio, hsent⟩ := Node.next_of_input_some hinput
    have hacted := h.actA (e := e) ?_ ?_ (pair.holdsAfter B (.atA ev)) hrouter hio ?_
    · have hdropped := hacted.drop (List.Sublist.refl _) hchannel
      simpa only [step, hsent, List.map_nil, List.append_nil] using hdropped
    · rintro now p rfl
      exact ack_underway hadm hinput
    · intro t now hrecompute p hp
      exact hfresh (t, now) (by simp [runA, hinput, hrecompute]) p hp
    · intro p
      simp [holdsAfter, runA, hinput]
  | none =>
    have hholds : pair.holdsAfter B (.atA ev) = pair.holds := by
      funext p
      simp [holdsAfter, runA, hinput]
    have hdropped := h.drop (List.Sublist.refl _) hchannel
    cases ev with
    | flush pkt =>
      by_cases hflushes : pair.a.Flushes B pkt
      · have hflushed := h.flushA hflushes.2.2
        simpa only [step, hholds, Node.next, Node.sent, if_pos hflushes,
          channelAfter, List.map_cons, List.map_nil] using hflushed
      · simpa only [step, hholds, Node.next, Node.sent, if_neg hflushes,
          channelAfter, List.map_nil, List.append_nil] using h
    | act e =>
      simpa only [step, hholds, Node.next, hinput, Node.sent, List.map_nil,
        List.append_nil] using hdropped
    | deliver now =>
      simpa only [step, hholds, Node.next, hinput, Node.sent, List.map_nil,
        List.append_nil] using hdropped
    | finish now =>
      simpa only [step, hholds, Node.next, hinput, Node.sent, List.map_nil,
        List.append_nil] using hdropped

theorem seenAfter_routeOp {u : PubRoute} {stamp : Nat}
    (hm : pair.ab.head? = some ⟨.routeOp u, stamp⟩)
    (hneigh : A ∈ pair.b.router.neighbours.map (·.id)) (now : Time) (p : Prefix) :
    pair.seenAfter A (.deliver now) p =
      if u.metric = INF ∧ u.pfx = p then stamp else pair.seen p := by
  by_cases hINF : u.metric = INF
  · by_cases hp : u.pfx = p
    · subst hp
      simp only [seenAfter, hm, Packet.retracted, hINF, if_true, hneigh,
        Function.update_self, and_self]
    · simp only [seenAfter, hm, Packet.retracted, hINF, if_true, hneigh,
        Function.update_of_ne (Ne.symm hp), hp, and_false, if_false]
  · simp only [seenAfter, hm, Packet.retracted, hINF, if_false, false_and]

/-- A packet from a node that is no neighbour is not processed. -/
theorem seenAfter_refused {now : Time}
    (hinput : pair.b.input A (pair.ab.head?.map (·.packet)) (.deliver now) = none) :
    pair.seenAfter A (.deliver now) = pair.seen := by
  unfold seenAfter
  dsimp only
  cases hm : pair.ab.head? with
  | none => rfl
  | some m =>
    have hunknown : A ∉ pair.b.router.neighbours.map (·.id) := by
      intro hneigh
      simp [Node.input, hneigh, hm] at hinput
    dsimp only
    split
    · rfl
    · rw [if_neg hunknown]

theorem Invariant.stepB (h : Invariant A B pair)
    (hadm : FromElsewhere A ev) (hclient : NoClient A ev) :
    Invariant A B (pair.step A B (.atB ev)) := by
  have hchannel : (channelAfter pair.ab ev).Sublist pair.ab := by
    unfold channelAfter
    split
    · exact List.tail_sublist _
    · exact List.Sublist.refl _
  cases hinput : pair.b.input A (pair.ab.head?.map (·.packet)) ev with
  | some e =>
    obtain ⟨hrouter, hio, hsent⟩ := Node.next_of_input_some hinput
    rcases Node.input_cases hinput with
      ⟨rfl, hidle⟩ | ⟨now, pkt, rfl, hpkt, hneigh, rfl⟩ | ⟨now, rfl, rfl⟩
    · have hacted := h.actB ?_ (h.own_step hclient) hrouter hio
        (Or.inl (by simp [Node.next, hinput, hidle]))
      simpa only [step, hsent, List.append_nil, channelAfter, seenAfter] using hacted
      · rintro now adv rfl
        exact hadm rfl
    · obtain ⟨m, hm, rfl⟩ := Option.map_eq_some_iff.mp hpkt
      obtain ⟨rest, hab⟩ : ∃ rest, pair.ab = m :: rest := by
        cases hlist : pair.ab with
        | nil => simp [hlist] at hm
        | cons m' rest =>
          obtain rfl : m' = m := by simpa [hlist] using hm
          exact ⟨rest, rfl⟩
      obtain ⟨pkt, stamp⟩ := m
      cases pkt with
      | routeOp u =>
        have hreceived := h.receive hab hrouter hio
          (by simp [Node.next, hinput, Packet.event])
          (pair.seenAfter A (.deliver now)) (seenAfter_routeOp hm hneigh now)
        simpa only [step, hsent, List.append_nil, channelAfter, hab, List.tail_cons] using hreceived
      | ackRetractOp p =>
        have hacted := h.actB (e := .ackRetract now A p) (by simp)
          (h.own_step trivial) hrouter hio
          (Or.inl (by simp [Node.next, hinput, Packet.event]))
        have hdropped := hacted.drop hchannel (List.Subset.refl _)
        simpa only [step, hsent, List.append_nil, seenAfter, hm, Packet.retracted] using hdropped
    · have hacted := h.actB (e := .computeRoutes now) (by simp)
        (h.own_step trivial) hrouter hio (Or.inr ⟨now, rfl⟩)
      simpa only [step, hsent, List.append_nil, channelAfter, seenAfter] using hacted
  | none =>
    have hdropped := h.drop hchannel (List.Subset.refl _)
    cases ev with
    | flush pkt =>
      by_cases hflushes : pair.b.Flushes A pkt
      · have hflushed := h.flushB hflushes
        simpa only [step, Node.next, Node.sent, if_pos hflushes, channelAfter,
          seenAfter] using hflushed
      · simpa only [step, Node.next, Node.sent, if_neg hflushes, channelAfter,
          seenAfter, List.append_nil] using h
    | act e =>
      simpa only [step, Node.next, hinput, Node.sent, seenAfter, List.append_nil] using hdropped
    | deliver now =>
      simpa only [step, Node.next, hinput, Node.sent, seenAfter_refused hinput,
        List.append_nil] using hdropped
    | finish now =>
      simpa only [step, Node.next, hinput, Node.sent, seenAfter, List.append_nil] using hdropped

theorem Invariant.answered (h : Invariant A B pair) {ev : PairEvent}
    (hadm : Admissible A B ev) {t : RouterState} {now : Time}
    (hrun : pair.runA B ev = some (t, now)) : Answered A B pair t := by
  intro p r hr hINF hB
  cases ev with
  | atB ev => cases hrun
  | atA ev =>
    obtain ⟨e, hinput, hrecompute⟩ := Option.bind_eq_some_iff.mp hrun
    obtain ⟨r₀, hr₀, hmetric, hacks⟩ := retractedBy_recompute hrecompute hr
    have hhold := h.hold p ⟨r₀, hr₀, hmetric.trans hINF⟩
    rcases hacks B hB with hold | rfl
    · exact hhold.recorded r₀ hr₀ hold
    · exact hhold.ackSent (ack_underway hadm hinput)

/-- In every run in which no hold begins while a retraction or an acknowledgement
of its prefix is under way, a node is listed in `RetractedBy` only after it has
processed a retraction sent in the present hold, and has no route through the
holding node, also when its acknowledgement ends the hold. -/
theorem acks_answer_hold (A B : NodeId) (tunablesA tunablesB : RouterTunables)
    (events : List PairEvent)
    (hmeets : Transitions.Along (step A B)
      (fun pair ev => Admissible A B ev ∧ pair.BeginsFresh B ev)
      (init A B tunablesA tunablesB) events) :
    let pair := Transitions.run (step A B) (init A B tunablesA tunablesB) events
    Answered A B pair pair.a.router ∧
    ∀ ev t now, Admissible A B ev → pair.runA B ev = some (t, now) → Answered A B pair t := by
  intro pair
  have hinv : Invariant A B pair := by
    apply Transitions.run_invariant _ (invariant_init A B tunablesA tunablesB) hmeets
    rintro pair ev h ⟨hadm, hfresh⟩
    cases ev with
    | atA ev => exact h.stepA hadm hfresh
    | atB ev => exact h.stepB hadm.1 hadm.2
  refine ⟨fun p r hr hINF hB => ?_, fun ev t now hadm hrun => hinv.answered hadm hrun⟩
  exact (hinv.hold p ⟨r, hr, hINF⟩).recorded r hr hB

/-- Node `a` has a route through `c`, announces it to `b` and loses it; the
retraction is on its way. -/
def retractedRun : List PairEvent :=
  let p : Prefix := ⟨.v4 0x0A000200, 24, Prefix.bits24_le⟩
  [.atA (.act (.reconcileNeighbours ["b", "c"])), .atA (.act (.setLink "b" true 10)),
    .atA (.act (.setLink "c" true 10)), .atB (.act (.reconcileNeighbours ["a"])),
    .atB (.act (.setLink "a" true 10)),
    .atA (.act (.neighbourUpdate 0 "c" ⟨⟨"c", p⟩, ⟨0, 0⟩⟩)),
    .atA (.act (.computeRoutes 1)), .atA (.flush (.routeOp ⟨⟨"c", p⟩, ⟨0, 15⟩⟩)),
    .atB (.deliver 2), .atB (.finish 2), .atA (.act (.setLink "c" false INF)),
    .atA (.act (.computeRoutes 3)), .atA (.flush (.routeOp ⟨⟨"c", p⟩, ⟨0, INF⟩⟩))]

def ackedRun : List PairEvent :=
  retractedRun ++ [.atB (.deliver 4), .atB (.finish 4),
    .atB (.flush (.ackRetractOp ⟨.v4 0x0A000200, 24, Prefix.bits24_le⟩))]

/-- Before `b` acknowledges, `a` has its route again, announces it and loses it
again. The update between the two holds reaches `b` after the acknowledgement. -/
def staleAckRun : List PairEvent :=
  let p : Prefix := ⟨.v4 0x0A000200, 24, Prefix.bits24_le⟩
  retractedRun ++ [.atA (.act (.setLink "c" true 10)), .atA (.act (.computeRoutes 4)),
    .atA (.flush (.routeOp ⟨⟨"c", p⟩, ⟨0, 15⟩⟩)), .atA (.act (.setLink "c" false INF)),
    .atA (.act (.computeRoutes 5)), .atB (.deliver 6), .atB (.finish 6),
    .atB (.flush (.ackRetractOp p)), .atB (.deliver 7), .atB (.finish 7)]

def startedPair : Pair := init "a" "b" defaultRouterTunables defaultRouterTunables

theorem acks_answer_hold_acked : let p : Prefix := ⟨.v4 0x0A000200, 24, by decide⟩
    let pair := Transitions.run (step "a" "b") startedPair ackedRun
    (pair.runA "b" (.atA (.deliver 5))).any (fun run =>
      (run.1.routes.lookup p).any fun r => r.metric == INF && "b" ∈ r.retractedBy) ∧
    ∀ t now, pair.runA "b" (.atA (.deliver 5)) = some (t, now) → Answered "a" "b" pair t := by
  intro p pair
  refine ⟨by decide +kernel, fun t now hrun => ?_⟩
  exact (acks_answer_hold "a" "b" _ _ ackedRun (by decide +kernel)).2
    (.atA (.deliver 5)) t now (by decide) hrun

/-- The acknowledgement of the first hold ends the second one, although `b` has
seen no retraction of the second hold and has a route through `a`. -/
theorem stale_ack_ends_hold : let p : Prefix := ⟨.v4 0x0A000200, 24, by decide⟩
    let pair := Transitions.run (step "a" "b") startedPair staleAckRun
    (∀ ev ∈ staleAckRun, Admissible "a" "b" ev) ∧
    pair.seen p = 1 ∧ pair.holds p = 2 ∧
    (pair.b.router.routes.lookup p).map (fun r => (r.metric, r.nh)) = some (30, "a") ∧
    ∃ t, pair.runA "b" (.atA (.deliver 8)) = some (t, 8) ∧
      (t.routes.lookup p).map (fun r => (r.metric, r.retractedBy)) = some (INF, ["b"]) ∧
      (computeRoutes t 8).1.routes.lookup p = none ∧ ¬ Answered "a" "b" pair t := by
  intro p pair
  have hseen : pair.seen p = 1 := by decide +kernel
  have hholds : pair.holds p = 2 := by decide +kernel
  refine ⟨by decide +kernel, hseen, hholds, by decide +kernel, ?_⟩
  have hrun : (pair.runA "b" (.atA (.deliver 8))).map (fun run => (run.2,
      (run.1.routes.lookup p).map (fun r => (r.metric, r.retractedBy)),
      (computeRoutes run.1 run.2).1.routes.lookup p)) =
      some (8, some (INF, ["b"]), none) := by
    decide +kernel
  obtain ⟨⟨t, now⟩, hrun, heq⟩ := Option.map_eq_some_iff.mp hrun
  simp only [Prod.mk.injEq] at heq
  obtain ⟨rfl, hentry, hdropped⟩ := heq
  refine ⟨t, hrun, hentry, hdropped, fun hanswered => ?_⟩
  obtain ⟨r, hr, hpair⟩ := Option.map_eq_some_iff.mp hentry
  obtain ⟨hINF, hacks⟩ := Prod.mk.inj hpair
  have hanswer := (hanswered p r hr hINF (by simp [hacks])).1
  omega

end Nylon.Network.Pair
