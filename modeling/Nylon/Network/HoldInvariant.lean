import Nylon.Network.Exchange

/-!
What holds between the two nodes during a hold of a prefix, and that every event
keeps it. The retractions under way were sent in this hold; once one has left
`A`, no finite update follows it; once `B` has processed one, it stores nothing
finite of `A`; and an acknowledgement is only queued, sent or recorded after
that. The beginning of a hold keeps this if nothing of the prefix is under way.
-/

namespace Nylon.Network

open State Netip Lib Nylon.Core

namespace Pair

variable (A B : NodeId)

/-- The prefixes of which a retraction of `A` or an acknowledgement of `B` is
under way. -/
def underway (pair : Pair) : List Prefix :=
  pair.ab.filterMap (·.packet.retracted) ++ pair.b.io.acks.keys ++ pair.ba.filterMap Packet.acked

/-- No hold begins while a retraction or an acknowledgement of its prefix is
under way. -/
def BeginsFresh (pair : Pair) (ev : PairEvent) : Prop :=
  ∀ run ∈ pair.runA B ev, ∀ p ∈ pair.underway, startsHold run.1 run.2 p = false

/-- Packets of the other node come over the link only. -/
def FromElsewhere (other : NodeId) : NodeEvent → Prop
  | .act (.neighbourUpdate _ neigh _) => neigh ≠ other
  | .act (.ackRetract _ neigh _) => neigh ≠ other
  | _ => True

/-- Nothing is advertised for the other node, which is no client of this one. -/
def NoClient (other : NodeId) : NodeEvent → Prop
  | .act (.advertise _ adv) => adv.nodeId ≠ other
  | .act (.passiveClient _ _ node _ _) => node ≠ other
  | _ => True

def Admissible : PairEvent → Prop
  | .atA ev => FromElsewhere B ev
  | .atB ev => FromElsewhere A ev ∧ NoClient A ev

instance (pair : Pair) (ev : PairEvent) : Decidable (pair.BeginsFresh B ev) :=
  inferInstanceAs (Decidable (∀ run ∈ pair.runA B ev, _))

instance (other : NodeId) (ev : NodeEvent) : Decidable (FromElsewhere other ev) := by
  unfold FromElsewhere
  split <;> infer_instance

instance (other : NodeId) (ev : NodeEvent) : Decidable (NoClient other ev) := by
  unfold NoClient
  split <;> infer_instance

instance (ev : PairEvent) : Decidable (Admissible A B ev) := by
  unfold Admissible
  split <;> infer_instance

/-- What holds for a prefix during a hold. Retractions under way are of this
hold; once one has left `A`, no finite update is queued or sent behind it. -/
structure HoldInvariant (pair : Pair) (p : Prefix) : Prop where
  stamped : ∀ m ∈ pair.ab, m.packet.retracted = some p → m.hold = pair.holds p
  ordered : pair.ab.Pairwise fun m m' =>
    m.packet.retracted = some p → m'.packet.announced ≠ some p
  queued : (pair.seen p = pair.holds p ∨ ∃ m ∈ pair.ab, m.packet.retracted = some p) →
    ∀ u, pair.a.io.updates.lookup p = some u → u.metric = INF
  flying : pair.seen p = pair.holds p → ∀ m ∈ pair.ab, m.packet.announced ≠ some p
  stored : pair.seen p = pair.holds p → StoredRetracted A pair.b.router p
  ackQueued : p ∈ pair.b.io.acks → pair.seen p = pair.holds p ∧
    (pair.b.routeUpdated = true ∨ NotVia A pair.b.router p)
  ackSent : .ackRetractOp p ∈ pair.ba → pair.seen p = pair.holds p ∧ NotVia A pair.b.router p
  recorded : ∀ r, pair.a.router.routes.lookup p = some r → B ∈ r.retractedBy →
    pair.seen p = pair.holds p ∧ NotVia A pair.b.router p

structure Invariant (pair : Pair) : Prop where
  keyed : Keyed pair.a.router
  queueKeyed : ∀ p u, pair.a.io.updates.lookup p = some u → u.pfx = p
  distinct : (pair.b.router.neighbours.map (·.id)).Nodup
  own : ∀ q adv, pair.b.router.advertised.lookup q = some adv → adv.nodeId ≠ A
  seen_le : ∀ p, pair.seen p ≤ pair.holds p
  stamp_le : ∀ m ∈ pair.ab, ∀ p, m.packet.retracted = some p → m.hold ≤ pair.holds p
  hold : ∀ p, Unreachable pair.a.router p → HoldInvariant A B pair p

theorem invariant_init (tunablesA tunablesB : RouterTunables) :
    Invariant A B (init A B tunablesA tunablesB) := by
  constructor
  case keyed => constructor <;> simp [init, RouterState.init, Stored]
  case hold =>
    rintro p ⟨r, hr, _⟩
    simp [init, RouterState.init] at hr
  all_goals simp [init, RouterState.init]

variable {A B} {pair : Pair} {e : Event} {node : Node}

theorem mem_underway {p : Prefix} :
    p ∈ pair.underway ↔ (∃ m ∈ pair.ab, m.packet.retracted = some p) ∨
      p ∈ pair.b.io.acks ∨ .ackRetractOp p ∈ pair.ba := by
  have hacked : ∀ pkt : Packet, pkt.acked = some p ↔ pkt = .ackRetractOp p := by
    intro pkt
    cases pkt <;> simp [Packet.acked]
  simp [underway, hacked, AList.mem_keys]

/-- The hold of a prefix in the state after an event of `A`: a new one, of which
nothing is under way, or the one of before. -/
theorem Invariant.hold_act (h : Invariant A B pair) {p : Prefix} {r' : SelRoute}
    (hack : ∀ now, e = .ackRetract now B p → .ackRetractOp p ∈ pair.ba)
    (hr' : (Core.step pair.a.router e).1.routes.lookup p = some r')
    (hINF : r'.metric = INF) :
    (∃ t now, recompute pair.a.router e = some (t, now) ∧
      startsHold t now p = true ∧ r'.retractedBy = []) ∨
    ((∀ t now, recompute pair.a.router e = some (t, now) →
        startsHold t now p = false) ∧ HoldInvariant A B pair p ∧
      (∀ u, (pair.a.act B e).io.updates.lookup p = some u →
        pair.a.io.updates.lookup p = some u ∨ u.metric = INF) ∧
      (B ∈ r'.retractedBy → pair.seen p = pair.holds p ∧ NotVia A pair.b.router p)) := by
  rcases unreachable_step hr' hINF with hstarts | ⟨hgoes, r, hr, hrINF, hacks⟩
  · exact Or.inl hstarts
  · have hhold := h.hold p ⟨r, hr, hrINF⟩
    refine Or.inr ⟨hgoes, hhold, fun u hu => ?_, fun hB => ?_⟩
    · rcases Node.lookup_updates_act hu with hold | ⟨c, hc, hsent, hpfx⟩
      · exact Or.inl hold
      · exact Or.inr (sent_unreachable h.keyed hr hrINF hr' hINF hc hsent hpfx)
    · rcases hacks B hB with hold | ⟨now, he⟩
      · exact hhold.recorded r hr hold
      · exact hhold.ackSent (hack now he)

/-- The advertisements of `B` never name `A`. -/
theorem Invariant.own_step (h : Invariant A B pair) {e : Event} (hclient : NoClient A (.act e)) :
    ∀ q adv, (Core.step pair.b.router e).1.advertised.lookup q = some adv → adv.nodeId ≠ A := by
  intro q adv hadv
  rcases advertised_step hadv with hold | rfl | ⟨now, hold, metricFn, rfl⟩
  · exact h.own q adv hold
  · exact hclient
  · exact hclient

/-- Packets may get lost on the way. -/
theorem Invariant.drop (h : Invariant A B pair) {ab' : List Sent}
    {ba' : List Packet} (hab : ab'.Sublist pair.ab) (hba : ba' ⊆ pair.ba) :
    Invariant A B {pair with ab := ab', ba := ba'} := by
  refine { h with
    stamp_le := fun m hm => h.stamp_le m (hab.subset hm)
    hold := fun p hp => ?_ }
  have hhold := h.hold p hp
  exact { hhold with
    stamped := fun m hm => hhold.stamped m (hab.subset hm)
    ordered := hhold.ordered.sublist hab
    queued := fun hsent => hhold.queued (hsent.imp_right
      fun ⟨m, hm, hretracted⟩ => ⟨m, hab.subset hm, hretracted⟩)
    flying := fun hseen m hm => hhold.flying hseen m (hab.subset hm)
    ackSent := fun hmem => hhold.ackSent (hba hmem) }

theorem Invariant.actA (h : Invariant A B pair)
    (hack : ∀ now p, e = .ackRetract now B p → .ackRetractOp p ∈ pair.ba)
    (hfresh : ∀ t now, recompute pair.a.router e = some (t, now) →
      ∀ p ∈ pair.underway, startsHold t now p = false)
    (holds' : Prefix → Nat)
    (hrouter : node.router = (Core.step pair.a.router e).1)
    (hio : node.io = (pair.a.act B e).io)
    (hholds : ∀ p, holds' p = if (recompute pair.a.router e).any
      (fun run => startsHold run.1 run.2 p) then pair.holds p + 1 else pair.holds p) :
    Invariant A B {pair with a := node, holds := holds'} := by
  have hle : ∀ p, pair.holds p ≤ holds' p := by
    intro p
    rw [hholds]
    split <;> omega
  refine { h with
    keyed := hrouter ▸ h.keyed.step e
    queueKeyed := fun p u hu => ?_
    seen_le := fun p => (h.seen_le p).trans (hle p)
    stamp_le := fun m hm p hp => (h.stamp_le m hm p hp).trans (hle p)
    hold := ?_ }
  · rw [hio] at hu
    rcases Node.lookup_updates_act hu with hold | ⟨_, _, _, hpfx⟩
    · exact h.queueKeyed p u hold
    · exact hpfx
  · rintro p ⟨r', hr', hINF⟩
    rw [hrouter] at hr'
    rcases h.hold_act (fun now he => hack now p he) hr' hINF with
      ⟨t, now, hrecompute, hstarts, hnil⟩ | ⟨hgoes, hhold, hqueue, hrecorded⟩
    · -- a new hold: nothing of the prefix is under way
      have hidle : p ∉ pair.underway := by
        intro hp
        rw [hfresh t now hrecompute p hp] at hstarts
        cases hstarts
      rw [mem_underway] at hidle
      push Not at hidle
      have hnew : pair.seen p ≠ holds' p := by
        have hseen := h.seen_le p
        rw [hholds, hrecompute, Option.any_some, if_pos hstarts]
        omega
      constructor
      case stamped => exact fun m hm hp => absurd hp (hidle.1 m hm)
      case ordered =>
        exact List.pairwise_of_forall_mem_list fun m hm _ _ hp =>
          absurd hp (hidle.1 m hm)
      case queued =>
        rintro (hseen | ⟨m, hm, hp⟩)
        · exact absurd hseen hnew
        · exact absurd hp (hidle.1 m hm)
      case flying => exact fun hseen => absurd hseen hnew
      case stored => exact fun hseen => absurd hseen hnew
      case ackQueued => exact fun hp => absurd hp hidle.2.1
      case ackSent => exact fun hp => absurd hp hidle.2.2
      case recorded =>
        intro r hr hB
        rw [hrouter, hr'] at hr
        rw [← Option.some.inj hr, hnil] at hB
        cases hB
    · -- the hold goes on, and so does its number
      have hsame : holds' p = pair.holds p := by
        rw [hholds]
        cases hrecompute : recompute pair.a.router e with
        | none => rfl
        | some run => simp [hgoes run.1 run.2 hrecompute]
      refine { hhold with
        stamped := fun m hm hp => (hhold.stamped m hm hp).trans hsame.symm
        queued := fun hsent u hu => ?_
        flying := fun hseen => hhold.flying (hseen.trans hsame)
        stored := fun hseen => hhold.stored (hseen.trans hsame)
        ackQueued := fun hp => (hhold.ackQueued hp).imp_left (·.trans hsame.symm)
        ackSent := fun hp => (hhold.ackSent hp).imp_left (·.trans hsame.symm)
        recorded := fun r hr hB => ?_ }
      · rw [hio] at hu
        rcases hqueue u hu with hold | hretract
        · exact hhold.queued (hsent.imp_left (·.trans hsame)) u hold
        · exact hretract
      · rw [hrouter, hr'] at hr
        exact (hrecorded (Option.some.inj hr ▸ hB)).imp_left (·.trans hsame.symm)

theorem Invariant.flushA (h : Invariant A B pair) {pkt : Packet} (hqueued : pair.a.io.Queued pkt) :
    Invariant A B { pair with
      a := {pair.a with io := pair.a.io.remove pkt}
      ab := pair.ab ++ [pair.stamp pkt] } := by
  -- what leaves the queue for a prefix is the update that was queued for it
  have hleaves : ∀ p u, (pair.a.io.remove pkt).updates.lookup p = some u →
      pair.a.io.updates.lookup p = some u ∧ pkt.retracted ≠ some p := by
    intro p u hu
    cases pkt with
    | routeOp v =>
      simp only [PendingUpdates.remove, Table.lookup_erase_eq] at hu
      split at hu
      · cases hu
      · next hne =>
        refine ⟨hu, fun hp => hne ?_⟩
        simp only [Packet.retracted] at hp
        split at hp
        · exact (Option.some.inj hp).symm
        · cases hp
    | ackRetractOp q => exact ⟨hu, by simp [Packet.retracted]⟩
  have hannounced : ∀ p, pkt.announced = some p →
      ∃ u, pair.a.io.updates.lookup p = some u ∧ u.metric ≠ INF := by
    intro p hp
    cases pkt with
    | routeOp v =>
      simp only [Packet.announced] at hp
      split at hp
      · cases hp
      · next hfinite => exact ⟨v, Option.some.inj hp ▸ hqueued, hfinite⟩
    | ackRetractOp q => cases hp
  have hstamp : ∀ p, pkt.retracted = some p →
      (pair.stamp pkt).hold = pair.holds p := by
    intro p hp
    simp [stamp, hp]
  -- a packet on the way is an earlier one or the one that leaves
  have hsplit : ∀ P : Sent → Prop, (∀ m ∈ pair.ab, P m) → P (pair.stamp pkt) →
      ∀ m ∈ pair.ab ++ [pair.stamp pkt], P m := by
    intro P hold hnew m hm
    rcases List.mem_append.mp hm with hm | hm
    · exact hold m hm
    · exact List.mem_singleton.mp hm ▸ hnew
  refine { h with
    queueKeyed := fun p u hu => h.queueKeyed p u (hleaves p u hu).1
    stamp_le := hsplit _ h.stamp_le fun p hp => (hstamp p hp).le
    hold := fun p hp => ?_ }
  have hhold := h.hold p hp
  refine { hhold with
    stamped := hsplit _ hhold.stamped (hstamp p)
    ordered := List.pairwise_append.mpr
      ⟨hhold.ordered, List.pairwise_singleton _ _, fun m hm m' hm' hretracted hp' => ?_⟩
    queued := fun hsent u hu => ?_
    flying := fun hseen => hsplit _ (hhold.flying hseen) fun hp' => ?_ }
  · rw [List.mem_singleton.mp hm'] at hp'
    obtain ⟨u, hu, hfinite⟩ := hannounced p hp'
    exact hfinite (hhold.queued (Or.inr ⟨m, hm, hretracted⟩) u hu)
  · obtain ⟨hold, hother⟩ := hleaves p u hu
    refine hhold.queued (hsent.imp_right ?_) u hold
    rintro ⟨m, hm, hretracted⟩
    revert hretracted
    exact hsplit (fun m => m.packet.retracted = some p →
      ∃ m ∈ pair.ab, m.packet.retracted = some p) (fun m hm hr => ⟨m, hm, hr⟩)
      (fun hr => absurd hr hother) m hm
  · obtain ⟨u, hu, hfinite⟩ := hannounced p hp'
    exact hfinite (hhold.queued (Or.inl hseen) u hu)

theorem Invariant.flushB (h : Invariant A B pair) {pkt : Packet} (hflushes : pair.b.Flushes A pkt) :
    Invariant A B { pair with
      b := {pair.b with io := pair.b.io.remove pkt}
      ba := pair.ba ++ [pkt] } := by
  obtain ⟨hidle, _, hqueued⟩ := hflushes
  refine { h with hold := fun p hp => ?_ }
  have hhold := h.hold p hp
  refine { hhold with ackQueued := fun hmem => ?_, ackSent := fun hmem => ?_ }
  · apply hhold.ackQueued
    cases pkt with
    | routeOp u => exact hmem
    | ackRetractOp q => exact (AList.mem_erase.mp hmem).2
  · rcases List.mem_append.mp hmem with hmem | hmem
    · exact hhold.ackSent hmem
    · obtain rfl := (List.mem_singleton.mp hmem).symm
      obtain ⟨hseen, hbusy | hvia⟩ := hhold.ackQueued hqueued
      · rw [hidle] at hbusy
        cases hbusy
      · exact ⟨hseen, hvia⟩

theorem Invariant.actB (h : Invariant A B pair) (hother : ∀ now adv, e ≠ .neighbourUpdate now A adv)
    (hown : ∀ q adv, (Core.step pair.b.router e).1.advertised.lookup q = some adv → adv.nodeId ≠ A)
    (hrouter : node.router = (Core.step pair.b.router e).1)
    (hio : node.io = (pair.b.act A e).io)
    (hupdated : node.routeUpdated = pair.b.routeUpdated ∨ ∃ now, e = .computeRoutes now) :
    Invariant A B {pair with b := node} := by
  refine { h with
    distinct := hrouter ▸ distinct_step e h.distinct
    own := hrouter ▸ hown
    hold := fun p hp => ?_ }
  have hhold := h.hold p hp
  have hvia : pair.seen p = pair.holds p ∧ NotVia A pair.b.router p →
      pair.seen p = pair.holds p ∧ NotVia A node.router p := by
    rintro ⟨hseen, hvia⟩
    rw [hrouter]
    exact ⟨hseen, hvia.step (hhold.stored hseen) h.own e⟩
  refine { hhold with
    stored := fun hseen => hrouter ▸ (hhold.stored hseen).step fun now adv _ _ => hother now adv
    ackQueued := fun hmem => ?_
    ackSent := fun hmem => hvia (hhold.ackSent hmem)
    recorded := fun r hr hB => hvia (hhold.recorded r hr hB) }
  rw [hio] at hmem
  have hold : p ∈ pair.b.io.acks := by
    rcases Node.mem_acks_act hmem with hold | hcall
    · exact hold
    · obtain ⟨now, adv, he, _⟩ := ack_of_call hcall
      exact absurd he (hother now adv)
  obtain ⟨hseen, hbusy⟩ := hhold.ackQueued hold
  refine ⟨hseen, ?_⟩
  rcases hupdated with hsame | ⟨now, rfl⟩
  · exact hbusy.imp (hsame.trans ·) fun hnot => (hvia ⟨hseen, hnot⟩).2
  · rw [hrouter]
    exact Or.inr (notVia_computeRoutes (hhold.stored hseen) h.own now)

/-- `B` takes the first update out of the channel. -/
theorem Invariant.receive (h : Invariant A B pair) {now : Time}
    {u : PubRoute} {stamp : Nat} {rest : List Sent}
    (hab : pair.ab = ⟨.routeOp u, stamp⟩ :: rest)
    (hrouter : node.router =
      (Core.step pair.b.router (.neighbourUpdate now A u)).1)
    (hio : node.io = (pair.b.act A (.neighbourUpdate now A u)).io)
    (hupdated : node.routeUpdated = true) (seen' : Prefix → Nat)
    (hseen' : ∀ p, seen' p =
      if u.metric = INF ∧ u.pfx = p then stamp else pair.seen p) :
    Invariant A B {pair with b := node, ab := rest, seen := seen'} := by
  have hhead : ⟨.routeOp u, stamp⟩ ∈ pair.ab := hab ▸ List.mem_cons_self
  have htail : ∀ m ∈ rest, m ∈ pair.ab := fun m hm => hab ▸ List.mem_cons_of_mem _ hm
  have hretracted : ∀ p, u.metric = INF ∧ u.pfx = p →
      (Packet.routeOp u).retracted = some p := by
    rintro p ⟨hINF, rfl⟩
    simp [Packet.retracted, hINF]
  refine { h with
    distinct := hrouter ▸ distinct_step _ h.distinct
    own := hrouter ▸ h.own_step trivial
    seen_le := fun p => ?_
    stamp_le := fun m hm => h.stamp_le m (htail m hm)
    hold := fun p hp => ?_ }
  · change seen' p ≤ pair.holds p
    rw [hseen']
    split
    · next hu => exact h.stamp_le _ hhead p (hretracted p hu)
    · exact h.seen_le p
  · have hhold := h.hold p hp
    have hroutes : node.router.routes = pair.b.router.routes := by
      rw [hrouter]
      exact handleNeighbourUpdate_routes pair.b.router now A u
    have hvia : NotVia A pair.b.router p → NotVia A node.router p := by
      unfold NotVia
      rw [hroutes]
      exact id
    by_cases hu : u.metric = INF ∧ u.pfx = p
    · -- the update retracts the prefix, in the present hold
      have hnow : seen' p = pair.holds p := by
        rw [hseen', if_pos hu]
        exact hhold.stamped _ hhead (hretracted p hu)
      have hordered := List.pairwise_cons.mp (hab ▸ hhold.ordered)
      refine { hhold with
        stamped := fun m hm => hhold.stamped m (htail m hm)
        ordered := hordered.2
        queued := fun _ => hhold.queued (Or.inr ⟨_, hhead, hretracted p hu⟩)
        flying := fun _ m hm => hordered.1 m hm (hretracted p hu)
        stored := fun _ => ?_
        ackQueued := fun _ => ⟨hnow, Or.inl hupdated⟩
        ackSent := fun hmem => ⟨hnow, hvia (hhold.ackSent hmem).2⟩
        recorded := fun r hr hB => ⟨hnow, hvia (hhold.recorded r hr hB).2⟩ }
      rw [hrouter, ← hu.2]
      exact storedRetracted_of_retraction h.distinct now A hu.1
    · have hsame : seen' p = pair.seen p := by rw [hseen', if_neg hu]
      refine { hhold with
        stamped := fun m hm => hhold.stamped m (htail m hm)
        ordered := (List.pairwise_cons.mp (hab ▸ hhold.ordered)).2
        queued := fun hsent => hhold.queued (hsent.imp (hsame.symm.trans ·)
          fun ⟨m, hm, hp'⟩ => ⟨m, htail m hm, hp'⟩)
        flying := fun hseen m hm => hhold.flying (hsame.symm.trans hseen) m (htail m hm)
        stored := fun hseen => ?_
        ackQueued := fun hmem => ?_
        ackSent := fun hmem => (hhold.ackSent hmem).imp (hsame.trans ·) hvia
        recorded := fun r hr hB =>
          (hhold.recorded r hr hB).imp (hsame.trans ·) hvia }
      · -- once a retraction of this hold is processed, no finite update comes
        have hseen₀ := hsame.symm.trans hseen
        rw [hrouter]
        refine (hhold.stored hseen₀).step ?_
        rintro _ adv hfinite hpfx heq
        obtain ⟨_, _, rfl⟩ := Event.neighbourUpdate.inj heq
        exact hhold.flying hseen₀ _ hhead (by simp [Packet.announced, hfinite, hpfx])
      · rw [hio] at hmem
        rcases Node.mem_acks_act hmem with hold | hcall
        · exact ⟨hsame.trans (hhold.ackQueued hold).1, Or.inl hupdated⟩
        · obtain ⟨_, adv, heq, hINF, hpfx⟩ := ack_of_call hcall
          obtain ⟨_, _, rfl⟩ := Event.neighbourUpdate.inj heq
          exact absurd ⟨hINF, hpfx⟩ hu

end Pair

end Nylon.Network
