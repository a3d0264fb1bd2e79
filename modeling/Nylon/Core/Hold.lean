import Nylon.Core.Retraction

/-!
The end of a hold. `isHeldRoute` compares the number of acknowledgements with
the number of connected neighbours, not the two sets. The comparison means what
it should as long as every recorded acknowledgement comes from a neighbour that
is connected and stays so: the acknowledgements are then a set of connected
neighbours, and there are only as many as there are neighbours if it is all of
them.
-/

namespace Nylon.Core

open State Netip Lib

variable {s t : RouterState} {neigh : NodeId}

def Connected (s : RouterState) (id : NodeId) : Prop := (id, true) ∈ links s

instance (s : RouterState) (id : NodeId) : Decidable (Connected s id) :=
  inferInstanceAs (Decidable (_ ∈ _))

/-- An unreachable entry of another node that a run drops before it expires has
been acknowledged by every connected neighbour. -/
def HoldEndsAcked (s : RouterState) (now : Time) : Prop :=
  ∀ p r, s.routes.lookup p = some r → r.metric = INF → r.nh ≠ s.id →
    now < r.expireAt → (computeRoutes s now).1.routes.lookup p = none →
    ∀ n ∈ s.neighbours, n.active = true → n.id ∈ r.retractedBy

instance (s : RouterState) (now : Time) : Decidable (HoldEndsAcked s now) :=
  inferInstanceAs (Decidable (∀ p r, s.routes.lookup p = some r → _))

/-- Acknowledgements come from connected neighbours, and a neighbour that has
acknowledged a hold in progress is neither disconnected nor removed. -/
def KeepsAckers (s : RouterState) : Event → Prop
  | .ackRetract _ neigh _ => Connected s neigh
  | .setLink neigh active _ => active = true ∨
      ∀ p r, s.routes.lookup p = some r → r.metric = INF → neigh ∉ r.retractedBy
  | .reconcileNeighbours peers =>
    ∀ p r, s.routes.lookup p = some r → r.metric = INF → ∀ id ∈ r.retractedBy, id ∈ peers
  | _ => True

instance (s : RouterState) : (e : Event) → Decidable (KeepsAckers s e)
  | .ackRetract _ _ _ => inferInstanceAs (Decidable (Connected _ _))
  | .setLink _ _ _ => inferInstanceAs (Decidable (_ ∨ _))
  | .reconcileNeighbours _ =>
    inferInstanceAs (Decidable (∀ p r, s.routes.lookup p = some r → _))
  | .neighbourUpdate .. | .computeRoutes _ | .fullTableUpdate | .pushFullTable _
  | .seqnoRequest .. | .solveStarvation | .runGC _ | .advertise .. | .withdraw _
  | .passiveClient .. => instDecidableTrue

/-- The acknowledgements of an entry are a set of connected neighbours, and a
finite entry has none. -/
structure AckersConnected (s : RouterState) : Prop where
  distinct : (s.neighbours.map (·.id)).Nodup
  nodup : ∀ p r, s.routes.lookup p = some r → r.retractedBy.Nodup
  connected : ∀ p r, s.routes.lookup p = some r → ∀ id ∈ r.retractedBy, Connected s id
  finite : ∀ p r, s.routes.lookup p = some r → r.metric ≠ INF → r.retractedBy = []

theorem connected_of_mem {n : Neighbour}
    (hn : n ∈ s.neighbours) (hactive : n.active = true) : Connected s n.id :=
  List.mem_map.mpr ⟨n, hn, by rw [hactive]⟩

theorem connected_iff {id : NodeId} :
    Connected s id ↔ ∃ n ∈ s.neighbours, n.id = id ∧ n.active = true := by
  simp [Connected, links]

theorem AckersConnected.congr (h : AckersConnected s)
    (hlinks : links t = links s) (hroutes : t.routes = s.routes) :
    AckersConnected t := by
  constructor
  case distinct => rw [ids_of_links hlinks]; exact h.distinct
  case nodup => rw [hroutes]; exact h.nodup
  case connected =>
    unfold Connected
    rw [hroutes, hlinks]
    exact h.connected
  case finite => rw [hroutes]; exact h.finite

theorem AckersConnected.computeRoutes (h : AckersConnected s)
    (now : Time) : AckersConnected (computeRoutes s now).1 := by
  have hentry : ∀ p r, (Core.computeRoutes s now).1.routes.lookup p = some r →
      r.retractedBy = [] ∨ r.metric = INF ∧ ∃ old, s.routes.lookup p = some old ∧
        old.metric = INF ∧ r.retractedBy = old.retractedBy := by
    intro p r hr
    rw [lookup_computeRoutes] at hr
    exact retractedBy_finalRoute hr
  have hlinks := links_computeRoutes s now
  constructor
  case distinct =>
    rw [ids_of_links hlinks]
    exact h.distinct
  case nodup =>
    intro p r hr
    rcases hentry p r hr with hnil | ⟨_, old, hold, _, hsame⟩
    · rw [hnil]
      exact List.nodup_nil
    · rw [hsame]
      exact h.nodup p old hold
  case connected =>
    intro p r hr id hid
    unfold Connected
    rw [hlinks]
    rcases hentry p r hr with hnil | ⟨_, old, hold, _, hsame⟩
    · simp [hnil] at hid
    · rw [hsame] at hid
      exact h.connected p old hold id hid
  case finite =>
    intro p r hr hfinite
    rcases hentry p r hr with hnil | ⟨hINF, _⟩
    · exact hnil
    · exact absurd hINF hfinite

theorem AckersConnected.recordAck (h : AckersConnected s)
    {pfx : Prefix} (hconnected : Connected s neigh)
    (hack : recordAck s neigh pfx = some t) : AckersConnected t := by
  obtain ⟨rt, hrt, hINF, hnew, rfl⟩ := recordAck_eq_some hack
  -- only the acknowledged entry differs from an entry of `s`
  have hentry : ∀ p r, (s.routes.insert pfx
      {rt with retractedBy := rt.retractedBy ++ [neigh]}).lookup p = some r →
      s.routes.lookup p = some r ∨ r = {rt with retractedBy := rt.retractedBy ++ [neigh]} := by
    intro p r hr
    rw [Table.lookup_insert_eq] at hr
    split at hr
    · exact Or.inr (Option.some.inj hr).symm
    · exact Or.inl hr
  constructor
  case distinct => exact h.distinct
  case nodup =>
    intro p r hr
    rcases hentry p r hr with hold | rfl
    · exact h.nodup p r hold
    · simpa using List.Nodup.concat hnew (h.nodup pfx rt hrt)
  case connected =>
    intro p r hr id hid
    rcases hentry p r hr with hold | rfl
    · exact h.connected p r hold id hid
    · rcases List.mem_append.mp hid with hid | hid
      · exact h.connected pfx rt hrt id hid
      · rw [List.mem_singleton.mp hid]
        exact hconnected
  case finite =>
    intro p r hr hfinite
    rcases hentry p r hr with hold | rfl
    · exact h.finite p r hold hfinite
    · exact absurd hINF hfinite

/-- The state handed to `computeRoutes` has the invariant too. -/
theorem AckersConnected.recompute {e : Event} {now : Time}
    (h : AckersConnected s) (hkeeps : KeepsAckers s e)
    (hrecompute : recompute s e = some (t, now)) : AckersConnected t := by
  have hlinks := links_recompute hrecompute
  rcases recompute_cases hrecompute with ⟨_, rfl⟩ |
    ⟨fromNeigh, src, reqSeqno, _, selRoute, _, _, rfl, _⟩ |
    ⟨neigh, pfx, rfl, hack, _⟩ | ⟨_, rfl⟩
  · exact h
  · exact h.congr hlinks (answerRequest_routes s fromNeigh src reqSeqno selRoute)
  · exact h.recordAck hkeeps hack
  · exact h.congr hlinks rfl

/-- A changed link keeps every other neighbour connected. -/
theorem connected_setLink {id : NodeId} {active : Bool}
    {cost : Metric} (h : Connected s id) (hid : active = true ∨ neigh ≠ id) :
    Connected (setLink s neigh active cost) id := by
  obtain ⟨n, hn, rfl, hactive⟩ := connected_iff.mp h
  rcases RouterState.mem_modifyNeighbour_of_mem neigh
    (fun n => {n with active := active, linkCost := cost}) hn with
    hsame | ⟨hneigh, hchanged⟩
  · exact connected_of_mem hsame hactive
  · rcases hid with hup | hother
    · exact connected_iff.mpr ⟨_, hchanged, rfl, hup⟩
    · exact absurd hneigh.symm hother

theorem AckersConnected.setLink (h : AckersConnected s) {active : Bool} {cost : Metric}
    (hkeeps : KeepsAckers s (.setLink neigh active cost)) :
    AckersConnected (setLink s neigh active cost) := by
  constructor
  case distinct =>
    rw [ids_setLink]
    exact h.distinct
  case nodup => exact h.nodup
  case connected =>
    intro p r hr id hid
    apply connected_setLink (h.connected p r hr id hid)
    refine hkeeps.imp_right fun hnot heq => ?_
    subst heq
    by_cases hINF : r.metric = INF
    · exact hnot p r hr hINF hid
    · simp [h.finite p r hr hINF] at hid
  case finite => exact h.finite

theorem AckersConnected.reconcileNeighbours (h : AckersConnected s) {peers : List NodeId}
    (hkeeps : KeepsAckers s (.reconcileNeighbours peers)) :
    AckersConnected (reconcileNeighbours s peers) := by
  constructor
  case distinct => exact distinct_reconcileNeighbours peers h.distinct
  case nodup => exact h.nodup
  case connected =>
    intro p r hr id hid
    obtain ⟨n, hn, rfl, hactive⟩ := connected_iff.mp (h.connected p r hr id hid)
    have hpeer : n.id ∈ peers := by
      by_cases hINF : r.metric = INF
      · exact hkeeps p r hr hINF n.id hid
      · simp [h.finite p r hr hINF] at hid
    apply connected_of_mem _ hactive
    exact List.mem_append_left _ (List.mem_filter.mpr ⟨hn, by simpa using hpeer⟩)
  case finite => exact h.finite

theorem AckersConnected.step {e : Event} (h : AckersConnected s) (hkeeps : KeepsAckers s e) :
    AckersConnected (step s e).1 := by
  rcases links_step_cases s e with ⟨neigh, active, cost, rfl⟩ | ⟨peers, rfl⟩ | hlinks
  · exact h.setLink hkeeps
  · exact h.reconcileNeighbours hkeeps
  cases hrecompute : Core.recompute s e with
  | none => exact h.congr hlinks (step_of_recompute_none hrecompute).1
  | some run =>
    obtain ⟨t, now⟩ := run
    have ht := (h.recompute hkeeps hrecompute).computeRoutes now
    refine ht.congr ?_ (step_routes_of_recompute_some hrecompute)
    rw [hlinks, links_computeRoutes, links_recompute hrecompute]

theorem AckersConnected.init (t : RouterTunables) (id : NodeId) :
    AckersConnected (RouterState.init t id) := by
  constructor <;> simp [RouterState.init]

/-- An unexpired `INF` entry of another node is dropped only if there are as
many acknowledgements as connected neighbours. -/
theorem length_retractedBy_of_dropped {now : Time} {p : Prefix}
    {r : SelRoute} (hr : s.routes.lookup p = some r) (hINF : r.metric = INF)
    (hnh : r.nh ≠ s.id) (hexpire : now < r.expireAt)
    (hdropped : (computeRoutes s now).1.routes.lookup p = none) :
    connectedNeighs s ≤ r.retractedBy.length := by
  by_contra hfew
  have hheld : heldRoute s now p = some {r with metric := INF} := by
    refine heldRoute_eq_some.mpr ⟨r, hr, ?_, rfl⟩
    simp [isHeldRoute, hnh, hINF, hexpire, Nat.lt_of_not_le hfew]
  have hincumbent : (incumbent s now p).isSome := by
    unfold incumbent
    split <;> simp [hheld]
  have hselected : (selectedRoute s now p).isSome := by
    unfold selectedRoute
    split
    · exact hincumbent
    · rfl
  have hkept : losesRoute s now p = false := by simp [losesRoute, hr, hINF]
  rw [lookup_computeRoutes] at hdropped
  simp only [finalRoute, hr, hkept, Bool.false_eq_true, if_false] at hdropped
  simp [hdropped] at hselected

/-- A set of connected neighbours with as many members as there are connected
neighbours is all of them. -/
theorem AckersConnected.holdEndsAcked (h : AckersConnected s)
    (now : Time) : HoldEndsAcked s now := by
  intro p r hr hINF hnh hexpire hdropped n hn hactive
  have hcount := length_retractedBy_of_dropped hr hINF hnh hexpire hdropped
  let ids := (s.neighbours.filter (·.active)).map (·.id)
  have hsubset : r.retractedBy ⊆ ids := by
    intro id hid
    obtain ⟨m, hm, hmid, hmactive⟩ := connected_iff.mp (h.connected p r hr id hid)
    exact List.mem_map.mpr ⟨m, List.mem_filter.mpr ⟨hm, hmactive⟩, hmid⟩
  have hlength : ids.length ≤ r.retractedBy.length := by
    simpa [ids, connectedNeighs, List.countP_eq_length_filter] using hcount
  have hperm := (List.subperm_of_subset (h.nodup p r hr) hsubset).perm_of_length_le hlength
  exact hperm.mem_iff.mpr
    (List.mem_map.mpr ⟨n, List.mem_filter.mpr ⟨hn, hactive⟩, rfl⟩)

/-- In every run in which acknowledgements come from connected neighbours that
stay connected, a hold ends early only when every connected neighbour has
acknowledged it. -/
theorem hold_ends_acked (tunables : RouterTunables) (id : NodeId)
    (events : List Event) (e : Event) (t : RouterState) (now : Time)
    (hkeeps : Along KeepsAckers (RouterState.init tunables id) (events ++ [e]))
    (hrecompute : recompute (run (RouterState.init tunables id) events) e =
      some (t, now)) : HoldEndsAcked t now := by
  have hsplit := Transitions.along_append.mp hkeeps
  have hinv : AckersConnected (run (RouterState.init tunables id) events) :=
    Transitions.run_invariant (fun _ _ h hk => h.step hk) (AckersConnected.init tunables id)
      hsplit.1
  exact (hinv.recompute hsplit.2.1 hrecompute).holdEndsAcked now

/-- The route of node `a` through `b` is lost while `c` and `d` are connected. -/
def lostRouteRun : List Event :=
  let p : Prefix := ⟨.v4 0x0A000200, 24, Prefix.bits24_le⟩
  [.reconcileNeighbours ["b", "c", "d"], .setLink "b" true 10,
    .setLink "c" true 10, .setLink "d" true 10,
    .neighbourUpdate 0 "b" ⟨⟨"b", p⟩, ⟨0, 0⟩⟩, .computeRoutes 1,
    .setLink "b" false INF, .computeRoutes 2]

theorem hold_ends_acked_by_both : let p : Prefix := ⟨.v4 0x0A000200, 24, by decide⟩
    let s := RouterState.init defaultRouterTunables "a"
    ∃ t, recompute (run s (lostRouteRun ++ [.ackRetract 3 "c" p]))
        (.ackRetract 4 "d" p) = some (t, 4) ∧
      (computeRoutes t 4).1.routes.lookup p = none ∧ HoldEndsAcked t 4 := by
  intro p s
  have hsome : (recompute (run s (lostRouteRun ++ [.ackRetract 3 "c" p]))
      (.ackRetract 4 "d" p)).all (fun out => out.2 = 4 ∧
        (computeRoutes out.1 4).1.routes.lookup p = none) = true := by
    decide +kernel
  cases hrun : recompute (run s (lostRouteRun ++ [.ackRetract 3 "c" p]))
      (.ackRetract 4 "d" p) with
  | none =>
    have : (recompute (run s (lostRouteRun ++ [.ackRetract 3 "c" p]))
      (.ackRetract 4 "d" p)).isSome = true := by decide +kernel
    simp [hrun] at this
  | some out =>
    obtain ⟨t, now⟩ := out
    simp only [hrun, Option.all_some, decide_eq_true_eq] at hsome
    obtain ⟨rfl, hdropped⟩ := hsome
    exact ⟨t, rfl, hdropped,
      hold_ends_acked defaultRouterTunables "a" _ _ t 4 (by decide +kernel) hrun⟩

/-- Neighbour `c` acknowledges and disconnects. The hold then ends although `d`
is connected and has never acknowledged. -/
theorem hold_ends_without_ack : let p : Prefix := ⟨.v4 0x0A000200, 24, by decide⟩
    let s := run (RouterState.init defaultRouterTunables "a")
      (lostRouteRun ++ [.ackRetract 3 "c" p, .setLink "c" false INF])
    recompute s (.computeRoutes 4) = some (s, 4) ∧ ¬ HoldEndsAcked s 4 := by
  refine ⟨rfl, ?_⟩
  decide +kernel

end Nylon.Core
